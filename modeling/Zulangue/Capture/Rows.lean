import Zulangue.Capture.Operations

/-!
# Final lanes and their stamps

A lane that is Final stays, keeps its role and only grows at its end, and it carries the
desired revision at which it last changed. Both are kept by every write of a row; the
operations are sequences of such writes.
-/

namespace Zulangue.Capture

open Zulangue.Lib.Fallible

/-! ## Rows -/

/-- The lanes of a row are in order under the desired revision of the session. -/
structure RowOk (desired : Nat) (u : RealtimeUtterance) : Prop where
  distinct : (u.variants.map (·.tag)).Nodup
  stamped : ∀ v ∈ u.variants, v.isFinal = true → 1 ≤ v.projectionRevision ∧ v.projectionRevision ≤ desired
  unstamped : ∀ v ∈ u.variants, v.isFinal = false → v.projectionRevision = 0
  ready : ∀ v ∈ u.variants, v.state = .ready → v.text.isSome ∧ v.completion.isSome
  sourceTag : ∀ v ∈ u.variants, v.role = .source → v.tag = canonicalLanguage u.sourceLanguage
  sourceFact : ∀ v ∈ u.variants, v.role = .source → v.state = .ready ∧ v.completion = some u.completion
  sourceStamp : ∀ v ∈ u.variants, v.role = .source → u.sourceProjectionRevision = v.projectionRevision
  sourceUnstamped : (∀ v ∈ u.variants, v.role ≠ .source) → u.sourceProjectionRevision = 0

/-- A Final lane goes on as another one. -/
structure Continues (v v' : RealtimeUtteranceVariant) : Prop where
  final : v'.isFinal = true
  role : v'.role = v.role
  tag : v'.tag = v.tag ∨ (v.role = .source ∧ v.tag = "und")
  revision : v.revision ≤ v'.revision
  text : ∃ settled grown, v.text = some settled ∧ v'.text = some grown ∧ settled.toList <+: grown.toList
  source : v.role = .source → v'.text = v.text

/-- What a write may make of a row: Final lanes go on, and a Final lane that was not there
is stamped beyond the desired revision before the write. -/
structure RowEvolves (desired : Nat) (u u' : RealtimeUtterance) : Prop where
  kept : ∀ v ∈ u.variants, v.isFinal = true → ∃ v' ∈ u'.variants, Continues v v'
  fresh : ∀ v' ∈ u'.variants, v'.isFinal = true → v' ∈ u.variants ∨ desired < v'.projectionRevision

theorem isFinal_iff {v : RealtimeUtteranceVariant} :
    v.isFinal = true ↔ v.state = .ready ∧ v.completion = some .complete := by
  rw [RealtimeUtteranceVariant.isFinal, Bool.and_eq_true, decide_eq_true_eq, decide_eq_true_eq]

/-- What the order of a row asks of one lane. -/
structure LaneOk (desired : Nat) (u : RealtimeUtterance) (v : RealtimeUtteranceVariant) : Prop where
  stamped : v.isFinal = true → 1 ≤ v.projectionRevision ∧ v.projectionRevision ≤ desired
  unstamped : v.isFinal = false → v.projectionRevision = 0
  ready : v.state = .ready → v.text.isSome ∧ v.completion.isSome
  source : v.role = .source → v.tag = canonicalLanguage u.sourceLanguage ∧
    (v.state = .ready ∧ v.completion = some u.completion) ∧ u.sourceProjectionRevision = v.projectionRevision

/-- The lane of a translation does not depend on its row. -/
theorem LaneOk.of_translation {desired more : Nat} {u : RealtimeUtterance} {v : RealtimeUtteranceVariant}
    (h : LaneOk desired u v) (hrole : v.role ≠ .source) (hle : desired ≤ more) (u' : RealtimeUtterance) :
    LaneOk more u' v where
  stamped hfinal := ⟨(h.stamped hfinal).1, (h.stamped hfinal).2.trans hle⟩
  unstamped := h.unstamped
  ready := h.ready
  source hsource := absurd hsource hrole

namespace RowOk

variable {desired : Nat} {u : RealtimeUtterance}

theorem lane (h : RowOk desired u) {v : RealtimeUtteranceVariant} (hv : v ∈ u.variants) : LaneOk desired u v :=
  ⟨h.stamped v hv, h.unstamped v hv, h.ready v hv,
    fun hrole => ⟨h.sourceTag v hv hrole, h.sourceFact v hv hrole, h.sourceStamp v hv hrole⟩⟩

theorem of_lanes (hdistinct : (u.variants.map (·.tag)).Nodup) (hlanes : ∀ v ∈ u.variants, LaneOk desired u v)
    (hnone : (∀ v ∈ u.variants, v.role ≠ .source) → u.sourceProjectionRevision = 0) : RowOk desired u where
  distinct := hdistinct
  stamped v hv := (hlanes v hv).stamped
  unstamped v hv := (hlanes v hv).unstamped
  ready v hv := (hlanes v hv).ready
  sourceTag v hv hrole := ((hlanes v hv).source hrole).1
  sourceFact v hv hrole := ((hlanes v hv).source hrole).2.1
  sourceStamp v hv hrole := ((hlanes v hv).source hrole).2.2
  sourceUnstamped := hnone

theorem mono (h : RowOk desired u) {more : Nat} (hle : desired ≤ more) : RowOk more u :=
  { h with stamped := fun v hv hfinal => ⟨(h.stamped v hv hfinal).1, (h.stamped v hv hfinal).2.trans hle⟩ }

/-- A Final lane goes on as itself. -/
theorem continues (h : RowOk desired u) {v : RealtimeUtteranceVariant} (hv : v ∈ u.variants)
    (hfinal : v.isFinal = true) : Continues v v := by
  obtain ⟨text, htext⟩ := Option.isSome_iff_exists.mp (h.ready v hv (isFinal_iff.mp hfinal).1).1
  exact ⟨hfinal, rfl, .inl rfl, le_rfl, ⟨text, text, htext, htext, List.prefix_rfl⟩, fun _ => rfl⟩

theorem evolves_refl (h : RowOk desired u) : RowEvolves desired u u where
  kept v hv hfinal := ⟨v, hv, h.continues hv hfinal⟩
  fresh _ hv _ := .inl hv

/-- Lanes of one language are one lane. -/
theorem eq_of_tag (h : RowOk desired u) {v w : RealtimeUtteranceVariant} (hv : v ∈ u.variants)
    (hw : w ∈ u.variants) (htag : v.tag = w.tag) : v = w :=
  List.inj_on_of_nodup_map h.distinct hv hw htag

end RowOk

theorem Continues.trans {v v' v'' : RealtimeUtteranceVariant} (h : Continues v v')
    (h' : Continues v' v'') : Continues v v'' where
  final := h'.final
  role := h'.role.trans h.role
  tag := by
    cases h.tag with
    | inr hund => exact .inr hund
    | inl htag =>
      cases h'.tag with
      | inl htag' => exact .inl (htag'.trans htag)
      | inr hund => exact .inr ⟨h.role ▸ hund.1, htag ▸ hund.2⟩
  revision := h.revision.trans h'.revision
  text := by
    obtain ⟨settled, grown, hsettled, hgrown, hprefix⟩ := h.text
    obtain ⟨settled', grown', hsettled', hgrown', hprefix'⟩ := h'.text
    obtain rfl := Option.some.inj (hgrown.symm.trans hsettled')
    exact ⟨settled, grown', hsettled, hgrown', hprefix.trans hprefix'⟩
  source hsource := (h'.source (h.role.trans hsource)).trans (h.source hsource)

/-! ## Writing one lane -/

section
variable {language : String} {w : RealtimeUtteranceVariant} {variants : List RealtimeUtteranceVariant}

theorem mem_putLane {v : RealtimeUtteranceVariant} (hv : v ∈ putLane language w variants) :
    v = w ∨ (v ∈ variants ∧ v.tag ≠ language) := by
  rw [putLane] at hv
  split at hv
  · obtain ⟨x, hx, heq⟩ := List.mem_map.mp hv
    split at heq
    · exact .inl heq.symm
    · next hne => exact .inr (heq ▸ ⟨hx, hne⟩)
  · next hnone =>
    cases List.mem_append.mp hv with
    | inl hv =>
      refine .inr ⟨hv, fun htag => hnone ?_⟩
      exact List.any_eq_true.mpr ⟨v, hv, decide_eq_true htag⟩
    | inr hv => exact .inl (List.mem_singleton.mp hv)

theorem mem_putLane_of_ne {v : RealtimeUtteranceVariant} (hv : v ∈ variants) (htag : v.tag ≠ language) :
    v ∈ putLane language w variants := by
  rw [putLane]
  split
  · exact List.mem_map.mpr ⟨v, hv, if_neg htag⟩
  · exact List.mem_append_left _ hv

theorem self_mem_putLane : w ∈ putLane language w variants := by
  rw [putLane]
  split
  · next hany =>
    obtain ⟨v, hv, htag⟩ := List.any_eq_true.mp hany
    exact List.mem_map.mpr ⟨v, hv, if_pos (of_decide_eq_true htag)⟩
  · exact List.mem_append_right _ (List.mem_singleton.mpr rfl)

theorem distinct_putLane (h : (variants.map (·.tag)).Nodup) (hw : w.tag = language) :
    ((putLane language w variants).map (·.tag)).Nodup := by
  rw [putLane]
  split
  · have htags : (variants.map fun v => if v.tag = language then w else v).map (·.tag) =
        variants.map (·.tag) := by
      rw [List.map_map]
      apply List.map_congr_left
      intro v _
      by_cases hv : v.tag = language
      · simp [hv, hw]
      · simp [hv]
    rw [htags]
    exact h
  · next hnone =>
    rw [List.map_append, List.nodup_append]
    refine ⟨h, List.nodup_singleton _, ?_⟩
    intro tag htag other hother heq
    obtain ⟨v, hv, rfl⟩ := List.mem_map.mp htag
    obtain rfl := List.mem_singleton.mp hother
    exact hnone (List.any_eq_true.mpr ⟨v, hv, decide_eq_true (heq.trans hw)⟩)

end

/-- The columns the order of a row depends on. -/
structure SameCore (u u' : RealtimeUtterance) : Prop where
  id : u'.id = u.id
  sequence : u'.sequence = u.sequence
  revision : u'.revision = u.revision
  variants : u'.variants = u.variants
  sourceLanguage : u'.sourceLanguage = u.sourceLanguage
  completion : u'.completion = u.completion
  sourceProjectionRevision : u'.sourceProjectionRevision = u.sourceProjectionRevision

theorem SameCore.rowOk {desired : Nat} {u u' : RealtimeUtterance} (hcore : SameCore u u')
    (h : RowOk desired u) : RowOk desired u' := by
  obtain ⟨-, -, -, hvariants, hlanguage, hcompletion, hstamp⟩ := hcore
  constructor
  · rw [hvariants]
    exact h.distinct
  · rw [hvariants]
    exact h.stamped
  · rw [hvariants]
    exact h.unstamped
  · rw [hvariants]
    exact h.ready
  · rw [hvariants, hlanguage]
    exact h.sourceTag
  · rw [hvariants, hcompletion]
    exact h.sourceFact
  · rw [hvariants, hstamp]
    exact h.sourceStamp
  · rw [hvariants, hstamp]
    exact h.sourceUnstamped

theorem SameCore.rowEvolves {desired : Nat} {u u' u'' : RealtimeUtterance} (hcore : SameCore u' u'')
    (h : RowEvolves desired u u') : RowEvolves desired u u'' := by
  constructor
  · rw [hcore.variants]
    exact h.kept
  · rw [hcore.variants]
    exact h.fresh

theorem sameCore_legacyShadow (u : RealtimeUtterance) (language : String) (payload : LanePayload) :
    SameCore u (legacyShadow u language payload) := by
  rw [legacyShadow]
  split
  · split
    · exact ⟨rfl, rfl, rfl, rfl, rfl, rfl, rfl⟩
    · exact ⟨rfl, rfl, rfl, rfl, rfl, rfl, rfl⟩
  · split
    · split
      · exact ⟨rfl, rfl, rfl, rfl, rfl, rfl, rfl⟩
      · exact ⟨rfl, rfl, rfl, rfl, rfl, rfl, rfl⟩
    · exact ⟨rfl, rfl, rfl, rfl, rfl, rfl, rfl⟩

/-- A row with a lane put in, which takes over from a Final lane of its language. -/
theorem RowOk.withLane {desired more : Nat} {u : RealtimeUtterance} {w : RealtimeUtteranceVariant}
    (h : RowOk desired u) (hle : desired ≤ more)
    (hsource : ∀ v ∈ u.variants, v.role = .source → v.tag ≠ w.tag) (hrole : w.role = .translation)
    (hready : w.state = .ready → w.text.isSome ∧ w.completion.isSome)
    (hstamp : w.isFinal = true → desired < w.projectionRevision ∧ w.projectionRevision ≤ more)
    (hopen : w.isFinal = false → w.projectionRevision = 0)
    (htakes : ∀ v ∈ u.variants, v.tag = w.tag → v.isFinal = true → Continues v w) :
    RowOk more { u with variants := putLane w.tag w u.variants } ∧
      RowEvolves desired u { u with variants := putLane w.tag w u.variants } := by
  constructor
  · apply RowOk.of_lanes (distinct_putLane h.distinct rfl)
    · intro v hv
      cases mem_putLane hv with
      | inl heq =>
        subst heq
        refine ⟨fun hfinal => ?_, hopen, hready, fun hvsource => ?_⟩
        · have := hstamp hfinal
          omega
        · rw [hrole] at hvsource
          cases hvsource
      | inr hold =>
        have hlane := (h.mono hle).lane hold.1
        exact ⟨hlane.stamped, hlane.unstamped, hlane.ready, hlane.source⟩
    · intro hnone
      apply h.sourceUnstamped
      intro v hv hvsource
      exact hnone v (mem_putLane_of_ne hv (hsource v hv hvsource)) hvsource
  · constructor
    · intro v hv hfinal
      by_cases htag : v.tag = w.tag
      · exact ⟨w, self_mem_putLane, htakes v hv htag hfinal⟩
      · exact ⟨v, mem_putLane_of_ne hv htag, h.continues hv hfinal⟩
    · intro v hv hfinal
      cases mem_putLane hv with
      | inl heq =>
        subst heq
        exact .inr (hstamp hfinal).1
      | inr hold => exact .inl hold.1

/-! ## The store -/

/-- The rows of a session are in order. -/
structure StoreOk (s : CaptureStore) : Prop where
  rows : ∀ u ∈ s.utterances, RowOk s.desiredRevision u
  ids : (s.utterances.map (·.id)).Nodup
  sequences : (s.utterances.map (·.sequence)).Nodup
  watermark : s.appliedRevision ≤ s.desiredRevision

/-- What any sequence of transactions may make of a session. -/
structure Evolves (s s' : CaptureStore) : Prop where
  desired : s.desiredRevision ≤ s'.desiredRevision
  applied : s.appliedRevision ≤ s'.appliedRevision
  kept : ∀ u ∈ s.utterances, ∀ v ∈ u.variants, v.isFinal = true →
    ∃ u' ∈ s'.utterances, u'.id = u.id ∧ u'.sequence = u.sequence ∧ u.revision ≤ u'.revision ∧
      ∃ v' ∈ u'.variants, Continues v v'
  fresh : ∀ u' ∈ s'.utterances, ∀ v' ∈ u'.variants, v'.isFinal = true →
    (∃ u ∈ s.utterances, u.id = u'.id ∧ v' ∈ u.variants) ∨ s.desiredRevision < v'.projectionRevision

/-- A provider fact acknowledges nothing and edits nothing. -/
structure LeavesEdits (s s' : CaptureStore) : Prop where
  applied : s'.appliedRevision = s.appliedRevision
  overrides : ∀ o ∈ s'.overrides, o ∈ s.overrides
  mutations : ∀ m ∈ s'.mutations, m ∈ s.mutations

/-- What every write of a provider fact does: it keeps the order of the rows. -/
def Keeps (s s' : CaptureStore) : Prop :=
  StoreOk s → (StoreOk s' ∧ Evolves s s') ∧ LeavesEdits s s'

theorem StoreOk.evolves_refl {s : CaptureStore} (h : StoreOk s) : Evolves s s where
  desired := le_rfl
  applied := le_rfl
  kept u hu v hv hfinal := ⟨u, hu, rfl, rfl, le_rfl, v, hv, (h.rows u hu).continues hv hfinal⟩
  fresh u hu _ hv _ := .inl ⟨u, hu, rfl, hv⟩

theorem Evolves.trans {s s' s'' : CaptureStore} (h : Evolves s s') (h' : Evolves s' s'') : Evolves s s'' where
  desired := h.desired.trans h'.desired
  applied := h.applied.trans h'.applied
  kept u hu v hv hfinal := by
    obtain ⟨u', hu', hid, hsequence, hrevision, v', hv', hcontinues⟩ := h.kept u hu v hv hfinal
    obtain ⟨u'', hu'', hid', hsequence', hrevision', v'', hv'', hcontinues'⟩ :=
      h'.kept u' hu' v' hv' hcontinues.final
    exact ⟨u'', hu'', hid'.trans hid, hsequence'.trans hsequence, hrevision.trans hrevision', v'', hv'',
      hcontinues.trans hcontinues'⟩
  fresh u'' hu'' v'' hv'' hfinal := by
    cases h'.fresh u'' hu'' v'' hv'' hfinal with
    | inr hstamp => exact .inr (h.desired.trans_lt hstamp)
    | inl hold =>
      obtain ⟨u', hu', hid', hv'⟩ := hold
      cases h.fresh u' hu' v'' hv' hfinal with
      | inr hstamp => exact .inr hstamp
      | inl hold =>
        obtain ⟨u, hu, hid, hv⟩ := hold
        exact .inl ⟨u, hu, hid.trans hid', hv⟩

theorem LeavesEdits.refl (s : CaptureStore) : LeavesEdits s s := ⟨rfl, fun _ h => h, fun _ h => h⟩

theorem LeavesEdits.trans {s s' s'' : CaptureStore} (h : LeavesEdits s s') (h' : LeavesEdits s' s'') :
    LeavesEdits s s'' :=
  ⟨h'.applied.trans h.applied, fun o ho => h.overrides o (h'.overrides o ho),
    fun m hm => h.mutations m (h'.mutations m hm)⟩

theorem Keeps.refl (s : CaptureStore) : Keeps s s := fun h => ⟨⟨h, h.evolves_refl⟩, .refl s⟩

theorem Keeps.trans {s s' s'' : CaptureStore} (h : Keeps s s') (h' : Keeps s' s'') : Keeps s s'' := by
  intro hs
  obtain ⟨⟨hs', hevolves⟩, hleaves⟩ := h hs
  obtain ⟨⟨hs'', hevolves'⟩, hleaves'⟩ := h' hs'
  exact ⟨⟨hs'', hevolves.trans hevolves'⟩, hleaves.trans hleaves'⟩

/-- Columns that no invariant reads may change at will. -/
theorem StoreOk.of_same {s s' : CaptureStore} (h : StoreOk s) (hutterances : s'.utterances = s.utterances)
    (hdesired : s'.desiredRevision = s.desiredRevision) (happlied : s'.appliedRevision = s.appliedRevision) :
    StoreOk s' ∧ Evolves s s' := by
  constructor
  · constructor
    · rw [hutterances, hdesired]
      exact h.rows
    · rw [hutterances]
      exact h.ids
    · rw [hutterances]
      exact h.sequences
    · rw [happlied, hdesired]
      exact h.watermark
  · constructor
    · rw [hdesired]
    · rw [happlied]
    · rw [hutterances]
      exact h.evolves_refl.kept
    · rw [hutterances]
      exact h.evolves_refl.fresh

/-- A write to the inbox alone. -/
theorem keeps_inbox (s : CaptureStore) (inbox : List RealtimeTranslationInboxItem) :
    Keeps s { s with inbox } :=
  fun h => ⟨h.of_same rfl rfl rfl, rfl, fun _ ho => ho, fun _ hm => hm⟩

theorem mem_updateUtterance {s : CaptureStore} {id : String} {f : RealtimeUtterance → RealtimeUtterance}
    {u' : RealtimeUtterance} (h : u' ∈ (s.updateUtterance id f).utterances) :
    (∃ u ∈ s.utterances, u.id = id ∧ u' = f u) ∨ (u' ∈ s.utterances ∧ u'.id ≠ id) := by
  obtain ⟨u, hu, heq⟩ := List.mem_map.mp h
  split at heq
  · next hid => exact .inl ⟨u, hu, hid, heq.symm⟩
  · next hid => exact .inr (heq ▸ ⟨hu, hid⟩)

/-- A write of one row keeps the store if it keeps the row. -/
theorem keeps_updateUtterance {s : CaptureStore} {id : String}
    {f : RealtimeUtterance → RealtimeUtterance} {more : Nat} (hle : s.desiredRevision ≤ more)
    (hrow : ∀ u ∈ s.utterances, u.id = id → RowOk s.desiredRevision u →
      ((f u).id = u.id ∧ (f u).sequence = u.sequence ∧ u.revision ≤ (f u).revision) ∧
        RowOk more (f u) ∧ RowEvolves s.desiredRevision u (f u)) :
    Keeps s ({ s with desiredRevision := more }.updateUtterance id f) := by
  intro h
  refine ⟨?_, rfl, fun _ ho => ho, fun _ hm => hm⟩
  have hmap : ∀ {β : Type} (g : RealtimeUtterance → β),
      (∀ u ∈ s.utterances, u.id = id → g (f u) = g u) →
      (({ s with desiredRevision := more }.updateUtterance id f).utterances.map g) = s.utterances.map g := by
    intro β g hg
    rw [CaptureStore.updateUtterance, List.map_map]
    apply List.map_congr_left
    intro u hu
    by_cases hid : u.id = id
    · simpa [hid] using hg u hu hid
    · simp [hid]
  constructor
  · constructor
    · intro u' hu'
      cases mem_updateUtterance hu' with
      | inl hwritten =>
        obtain ⟨u, hu, hid, rfl⟩ := hwritten
        exact (hrow u hu hid (h.rows u hu)).2.1
      | inr hother => exact (h.rows u' hother.1).mono hle
    · rw [hmap (·.id) fun u hu hid => (hrow u hu hid (h.rows u hu)).1.1]
      exact h.ids
    · rw [hmap (·.sequence) fun u hu hid => (hrow u hu hid (h.rows u hu)).1.2.1]
      exact h.sequences
    · exact h.watermark.trans hle
  · constructor
    · exact hle
    · exact le_rfl
    · intro u hu v hv hfinal
      by_cases hid : u.id = id
      · obtain ⟨⟨hfid, hfsequence, hfrevision⟩, -, hevolves⟩ := hrow u hu hid (h.rows u hu)
        obtain ⟨v', hv', hcontinues⟩ := hevolves.kept v hv hfinal
        exact ⟨f u, List.mem_map.mpr ⟨u, hu, if_pos hid⟩, hfid, hfsequence, hfrevision, v', hv', hcontinues⟩
      · exact ⟨u, List.mem_map.mpr ⟨u, hu, if_neg hid⟩, rfl, rfl, le_rfl, v, hv,
          (h.rows u hu).continues hv hfinal⟩
    · intro u' hu' v' hv' hfinal
      cases mem_updateUtterance hu' with
      | inl hwritten =>
        obtain ⟨u, hu, hid, rfl⟩ := hwritten
        obtain ⟨⟨hfid, -, -⟩, -, hevolves⟩ := hrow u hu hid (h.rows u hu)
        cases hevolves.fresh v' hv' hfinal with
        | inl hold => exact .inl ⟨u, hu, hfid.symm, hold⟩
        | inr hstamp => exact .inr hstamp
      | inr hother => exact .inl ⟨u', hother.1, rfl, hv'⟩

/-- A row without a Final lane may go. -/
theorem keeps_deleteUtterance {s : CaptureStore} {id : String}
    (hopen : ∀ u ∈ s.utterances, u.id = id → ∀ v ∈ u.variants, v.isFinal = false) :
    Keeps s (s.deleteUtterance id) := by
  intro h
  refine ⟨?_, rfl, fun _ ho => List.mem_of_mem_filter ho, fun _ hm => List.mem_of_mem_filter hm⟩
  have hsub : List.Sublist (s.deleteUtterance id).utterances s.utterances := List.filter_sublist
  constructor
  · constructor
    · intro u hu
      exact h.rows u (hsub.subset hu)
    · exact h.ids.sublist (hsub.map _)
    · exact h.sequences.sublist (hsub.map _)
    · exact h.watermark
  · constructor
    · exact le_rfl
    · exact le_rfl
    · intro u hu v hv hfinal
      have hid : u.id ≠ id := by
        intro hid
        rw [hopen u hu hid v hv] at hfinal
        cases hfinal
      exact ⟨u, List.mem_filter.mpr ⟨hu, decide_eq_true hid⟩, rfl, rfl, le_rfl, v, hv,
        (h.rows u hu).continues hv hfinal⟩
    · intro u hu v hv _
      exact .inl ⟨u, hsub.subset hu, rfl, hv⟩

theorem mem_of_bySequence {s : CaptureStore} {sequence : Nat} {u : RealtimeUtterance}
    (h : s.bySequence sequence = some u) : u ∈ s.utterances ∧ u.sequence = sequence :=
  ⟨List.mem_of_find?_eq_some h, of_decide_eq_true (List.find?_some h :)⟩

theorem mem_of_byId {s : CaptureStore} {id : String} {u : RealtimeUtterance} (h : s.byId id = some u) :
    u ∈ s.utterances ∧ u.id = id :=
  ⟨List.mem_of_find?_eq_some h, of_decide_eq_true (List.find?_some h :)⟩

theorem StoreOk.eq_of_id {s : CaptureStore} (h : StoreOk s) {u u' : RealtimeUtterance}
    (hu : u ∈ s.utterances) (hu' : u' ∈ s.utterances) (hid : u.id = u'.id) : u = u' :=
  List.inj_on_of_nodup_map h.ids hu hu' hid

/-! ## What a caller sees of a row -/

/-- An edit may stand in for the text of a lane; nothing else changes. -/
structure LaneShown (v shown : RealtimeUtteranceVariant) : Prop where
  language : shown.language = v.language
  role : shown.role = v.role
  state : shown.state = v.state
  completion : shown.completion = v.completion
  revision : shown.revision = v.revision
  text : v.text.isSome → shown.text.isSome

/-- A row as it is shown. -/
structure Shows (u shown : RealtimeUtterance) : Prop where
  id : shown.id = u.id
  sourceLanguage : shown.sourceLanguage = u.sourceLanguage
  sourceStartMs : shown.sourceStartMs = u.sourceStartMs
  sourceEndMs : shown.sourceEndMs = u.sourceEndMs
  sourceText : (∀ v ∈ u.variants, v.role ≠ .source) → shown.sourceText = u.sourceText
  completion : shown.completion = u.completion
  revision : shown.revision = u.revision
  lanes : List.Forall₂ LaneShown u.variants shown.variants

theorem LaneShown.refl (v : RealtimeUtteranceVariant) : LaneShown v v :=
  ⟨rfl, rfl, rfl, rfl, rfl, fun h => h⟩

theorem LaneShown.trans {v v' v'' : RealtimeUtteranceVariant} (h : LaneShown v v')
    (h' : LaneShown v' v'') : LaneShown v v'' :=
  ⟨h'.language.trans h.language, h'.role.trans h.role, h'.state.trans h.state,
    h'.completion.trans h.completion, h'.revision.trans h.revision, h'.text ∘ h.text⟩

theorem Shows.refl (u : RealtimeUtterance) : Shows u u :=
  ⟨rfl, rfl, rfl, rfl, fun _ => rfl, rfl, rfl, List.forall₂_same.mpr fun v _ => LaneShown.refl v⟩

theorem Shows.exists_shown {u shown : RealtimeUtterance} (h : Shows u shown) {v : RealtimeUtteranceVariant}
    (hv : v ∈ u.variants) : ∃ v' ∈ shown.variants, LaneShown v v' := by
  have hlanes := h.lanes
  generalize u.variants = lanes at hlanes hv
  generalize shown.variants = shown at hlanes
  induction hlanes with
  | nil => cases hv
  | cons hhead _ ih =>
    cases hv with
    | head => exact ⟨_, List.mem_cons_self, hhead⟩
    | tail _ hv =>
      obtain ⟨v', hv', hshown⟩ := ih hv
      exact ⟨v', List.mem_cons_of_mem _ hv', hshown⟩

theorem Shows.exists_lane {u shown : RealtimeUtterance} (h : Shows u shown) {v' : RealtimeUtteranceVariant}
    (hv' : v' ∈ shown.variants) : ∃ v ∈ u.variants, LaneShown v v' := by
  have hlanes := h.lanes
  generalize u.variants = lanes at hlanes
  generalize shown.variants = shown at hlanes hv'
  induction hlanes with
  | nil => cases hv'
  | cons hhead _ ih =>
    cases hv' with
    | head => exact ⟨_, List.mem_cons_self, hhead⟩
    | tail _ hv' =>
      obtain ⟨v, hv, hshown⟩ := ih hv'
      exact ⟨v, List.mem_cons_of_mem _ hv, hshown⟩

theorem Shows.trans {u u' u'' : RealtimeUtterance} (h : Shows u u') (h' : Shows u' u'') : Shows u u'' where
  id := h'.id.trans h.id
  sourceLanguage := h'.sourceLanguage.trans h.sourceLanguage
  sourceStartMs := h'.sourceStartMs.trans h.sourceStartMs
  sourceEndMs := h'.sourceEndMs.trans h.sourceEndMs
  sourceText hnone := by
    refine (h'.sourceText fun v' hv' hrole => ?_).trans (h.sourceText hnone)
    obtain ⟨v, hv, hshown⟩ := h.exists_lane hv'
    exact hnone v hv (hshown.role.symm.trans hrole)
  completion := h'.completion.trans h.completion
  revision := h'.revision.trans h.revision
  lanes := by
    have hlanes := h.lanes
    have hlanes' := h'.lanes
    generalize u.variants = lanes at hlanes ⊢
    generalize u'.variants = middle at hlanes hlanes'
    generalize u''.variants = shown at hlanes' ⊢
    induction hlanes generalizing shown with
    | nil =>
      cases hlanes'
      exact .nil
    | cons hv _ ih =>
      cases hlanes' with
      | cons hv' hrest' => exact .cons (hv.trans hv') (ih _ hrest')

theorem lanes_overlay (variants : List RealtimeUtteranceVariant) (language text : String)
    (editRevision : Nat) :
    List.Forall₂ LaneShown variants (variants.map fun v =>
      if v.tag = language then { v with text := some text, editRevision } else v) := by
  rw [List.forall₂_map_right_iff, List.forall₂_same]
  intro v _
  split
  · exact ⟨rfl, rfl, rfl, rfl, rfl, fun _ => rfl⟩
  · exact LaneShown.refl v

theorem shows_of_applyOverride {u shown : RealtimeUtterance} {o : UtteranceOverride}
    (h : CaptureStore.applyOverride u o = .ok shown) : Shows u shown := by
  obtain ⟨⟨⟩, _, h⟩ := bind_eq_ok.mp h
  obtain ⟨⟨⟩, _, h⟩ := bind_eq_ok.mp h
  obtain ⟨variant, hfind, h⟩ := bind_eq_ok.mp h
  obtain ⟨⟨⟩, _, h⟩ := bind_eq_ok.mp h
  cases hlane : o.lane with
  | source =>
    rw [hlane] at h
    obtain ⟨⟨⟩, hsource, h⟩ := bind_eq_ok.mp h
    obtain rfl := Except.ok.inj h
    refine ⟨rfl, rfl, rfl, rfl, fun hnone => ?_, rfl, rfl, lanes_overlay u.variants _ _ _⟩
    have hrole := of_decide_eq_true (Bool.and_eq_true_iff.mp (ensure_eq_ok.mp hsource)).1
    exact absurd hrole (hnone variant (List.mem_of_find?_eq_some (orError_eq_ok.mp hfind)))
  | translated =>
    rw [hlane] at h
    obtain ⟨⟨⟩, _, h⟩ := bind_eq_ok.mp h
    obtain rfl := Except.ok.inj h
    exact ⟨rfl, rfl, rfl, rfl, fun _ => rfl, rfl, rfl, lanes_overlay u.variants _ _ _⟩

theorem shows_of_applyUtteranceOverrides {s : CaptureStore} {u shown : RealtimeUtterance}
    (h : s.applyUtteranceOverrides u = .ok shown) : Shows u shown :=
  foldlM_relates Shows.refl (fun _ _ _ => Shows.trans) (fun _ _ _ _ => shows_of_applyOverride) h

/-- Whatever is shown without a source fact and without a Ready translation has no Final
lane. -/
theorem Shows.open_ {desired : Nat} {u shown : RealtimeUtterance} (hshows : Shows u shown)
    (h : RowOk desired u) (hfact : shown.hasSourceFact = false) (hready : shown.hasReadyTranslation = false) :
    ∀ v ∈ u.variants, v.isFinal = false := by
  intro v hv
  rw [Bool.eq_false_iff]
  intro hfinal
  obtain ⟨hstate, hcompletion⟩ := isFinal_iff.mp hfinal
  obtain ⟨v', hv', hshown⟩ := hshows.exists_shown hv
  have htext := hshown.text (h.ready v hv hstate).1
  have hfact' : v'.isReadyFact = true := by
    simp [RealtimeUtteranceVariant.isReadyFact, hshown.state, hstate, htext, hshown.completion, hcompletion]
  cases hrole : v.role with
  | source =>
    have hany : (shown.variants.any fun v => v.role = .source && v.isReadyFact) = true :=
      List.any_eq_true.mpr ⟨v', hv', by simp [hshown.role, hrole, hfact']⟩
    simp [RealtimeUtterance.hasSourceFact, hany] at hfact
  | translation =>
    have hany : shown.hasReadyTranslation = true :=
      List.any_eq_true.mpr ⟨v', hv', by simp [hshown.role, hrole, hfact']⟩
    rw [hany] at hready
    cases hready

theorem keeps_collectEmptyTranslationShell {s : CaptureStore} {u shown : RealtimeUtterance}
    (hu : u ∈ s.utterances) (hshows : Shows u shown) :
    Keeps s (s.collectEmptyTranslationShellAfterWithdrawal shown).1 := by
  rw [CaptureStore.collectEmptyTranslationShellAfterWithdrawal]
  split
  · exact Keeps.refl s
  · next hempty =>
    intro h
    refine keeps_deleteUtterance ?_ h
    intro u' hu' hid
    obtain rfl := h.eq_of_id hu' hu (hid.trans hshows.id)
    simp only [Bool.or_eq_true, not_or, Bool.not_eq_true] at hempty
    exact hshows.open_ (h.rows _ hu) hempty.1.1 hempty.1.2

/-! ## Translation writes -/

theorem RowOk.hasSourceLane {desired : Nat} {u : RealtimeUtterance} (h : RowOk desired u)
    {v : RealtimeUtteranceVariant} (hv : v ∈ u.variants) (hrole : v.role = .source) :
    u.hasSourceLane = true := by
  have hfound : ∃ w, u.sourceVariant = some w := by
    cases hsource : u.sourceVariant with
    | some w => exact ⟨w, rfl⟩
    | none =>
      have := List.find?_eq_none.mp hsource v hv
      simp [hrole] at this
  obtain ⟨w, hw⟩ := hfound
  have hmem : w ∈ u.variants := List.mem_of_find?_eq_some hw
  have hwrole : w.role = .source := of_decide_eq_true (List.find?_some hw :)
  obtain ⟨hstate, hcompletion⟩ := h.sourceFact w hmem hwrole
  have htext := (h.ready w hmem hstate).1
  simp [RealtimeUtterance.hasSourceLane, hw, RealtimeUtteranceVariant.isReadyFact, hstate, htext,
    hcompletion]

theorem RowOk.findLane_eq {desired : Nat} {u : RealtimeUtterance} (h : RowOk desired u)
    {v : RealtimeUtteranceVariant} (hv : v ∈ u.variants) : u.findLane v.tag = some v := by
  cases hfind : u.findLane v.tag with
  | none =>
    have := List.find?_eq_none.mp hfind v hv
    simp at this
  | some w =>
    have hmem : w ∈ u.variants := List.mem_of_find?_eq_some hfind
    have htag : w.tag = v.tag := of_decide_eq_true (List.find?_some hfind :)
    rw [h.eq_of_tag hmem hv htag]

/-- A write to a Final lane is a Final one that extends its text. -/
theorem extends_of_decideLaneWrite {v : RealtimeUtteranceVariant} {payload : LanePayload}
    {laneWrite : TranslationLaneWrite} (h : decideLaneWrite (some v) payload laneWrite = .ok true)
    (hrole : v.role = .translation) (hfinal : v.isFinal = true) :
    payload.isFinal = true ∧ extendsText v.text payload.text = true := by
  rw [decideLaneWrite] at h
  dsimp only at h
  split at h
  · cases h
  · split at h
    · split at h
      · cases h
      · split at h
        · cases h
        · split at h
          · next hextends =>
            exact ⟨hextends.2.1, hextends.2.2⟩
          · cases h
    · next hnot => exact absurd ⟨hrole, hfinal⟩ hnot

theorem prefix_of_extendsText {settled grown : Option String} (h : extendsText settled grown = true) :
    ∃ a b, settled = some a ∧ grown = some b ∧ a.toList <+: b.toList := by
  unfold extendsText at h
  split at h
  · next a b => exact ⟨a, b, rfl, rfl, List.isPrefixOf_iff_prefix.mp (Bool.and_eq_true_iff.mp h).2⟩
  · cases h

theorem tag_writtenVariant {language : String} (hlanguage : canonicalLanguage language = language)
    (payload : LanePayload) (u : RealtimeUtterance) :
    (writtenVariant language payload (u.findLane language)).tag = language := by
  cases hfind : u.findLane language with
  | none => exact hlanguage
  | some v =>
    have htag : v.tag = language := of_decide_eq_true (List.find?_some hfind :)
    exact htag

theorem isFinal_writtenVariant (language : String) (payload : LanePayload)
    (existing : Option RealtimeUtteranceVariant) :
    (writtenVariant language payload existing).isFinal = payload.isFinal := by
  cases existing with
  | none => rfl
  | some v => rfl

/-- The lane a decided translation write leaves, under its stamp. -/
theorem RowOk.writeLane {desired more stamp : Nat} {u : RealtimeUtterance} {language : String}
    {payload : LanePayload} {laneWrite : TranslationLaneWrite} (h : RowOk desired u) (hle : desired ≤ more)
    (hlanguage : canonicalLanguage language = language)
    (hsource : (u.hasSourceLane && canonicalLanguage u.sourceLanguage = language) = false)
    (hdecided : decideLaneWrite (u.findLane language) payload laneWrite = .ok true)
    (hwellFormed : payload.wellFormed = true)
    (hstamp : payload.isFinal = true → desired < stamp ∧ stamp ≤ more)
    (w : RealtimeUtteranceVariant)
    (hw : w = if payload.isFinal then
        { writtenVariant language payload (u.findLane language) with projectionRevision := stamp }
      else writtenVariant language payload (u.findLane language)) :
    RowOk more { u with variants := putLane language w u.variants } ∧
      RowEvolves desired u { u with variants := putLane language w u.variants } := by
  have htag : w.tag = language := by
    rw [hw]
    split
    · exact tag_writtenVariant hlanguage payload u
    · exact tag_writtenVariant hlanguage payload u
  have hwfinal : w.isFinal = payload.isFinal := by
    rw [hw]
    split
    · exact isFinal_writtenVariant language payload _
    · exact isFinal_writtenVariant language payload _
  have hfields : w.role = .translation ∧ w.text = payload.text ∧ w.state = payload.state ∧
      w.completion = payload.completion := by
    rw [hw]
    cases u.findLane language with
    | none => split <;> exact ⟨rfl, rfl, rfl, rfl⟩
    | some v => split <;> exact ⟨rfl, rfl, rfl, rfl⟩
  obtain ⟨hwrole, hwtext, hwstate, hwcompletion⟩ := hfields
  have hnotSource : ∀ v ∈ u.variants, v.role = .source → v.tag ≠ w.tag := by
    intro v hv hrole heq
    rw [h.hasSourceLane hv hrole, Bool.true_and, decide_eq_false_iff_not] at hsource
    exact hsource ((h.sourceTag v hv hrole).symm.trans (heq.trans htag))
  have htakes : ∀ v ∈ u.variants, v.tag = w.tag → v.isFinal = true →
      payload.isFinal = true ∧ Continues v w := by
    intro v hv hvtag hvfinal
    have hrole : v.role = .translation := by
      cases hrole : v.role with
      | source => exact absurd hvtag (hnotSource v hv hrole)
      | translation => rfl
    have hfind : u.findLane language = some v := by
      rw [← htag, ← hvtag]
      exact h.findLane_eq hv
    rw [hfind] at hdecided
    obtain ⟨hfinal, hextends⟩ := extends_of_decideLaneWrite hdecided hrole hvfinal
    obtain ⟨settled, grown, hsettled, hgrown, hprefix⟩ := prefix_of_extendsText hextends
    have hrevision : v.revision ≤ w.revision := by
      rw [hw, hfind]
      split
      · exact Nat.le_succ _
      · exact Nat.le_succ _
    refine ⟨hfinal, hwfinal.trans hfinal, hwrole.trans hrole.symm, .inl hvtag.symm, hrevision,
      ⟨settled, grown, hsettled, hwtext.trans hgrown, hprefix⟩, ?_⟩
    intro hvsource
    rw [hrole] at hvsource
    cases hvsource
  have hready : w.state = .ready → w.text.isSome ∧ w.completion.isSome := by
    intro hstate
    have hboth := Bool.and_eq_true_iff.mp hwellFormed
    have hdecide : decide (payload.state = .ready) = true := decide_eq_true (hwstate.symm.trans hstate)
    rw [hwtext, hwcompletion]
    exact ⟨(of_decide_eq_true hboth.1).symm.trans hdecide, (of_decide_eq_true hboth.2).symm.trans hdecide⟩
  have hstamped : w.isFinal = true → desired < w.projectionRevision ∧ w.projectionRevision ≤ more := by
    intro hfinal
    have hpayload := hwfinal.symm.trans hfinal
    rw [hw, if_pos hpayload]
    exact hstamp hpayload
  have hopen : w.isFinal = false → w.projectionRevision = 0 := by
    intro hfinal
    have hpayload : payload.isFinal = false := hwfinal.symm.trans hfinal
    rw [hw, if_neg (by rw [hpayload]; exact Bool.false_ne_true)]
    cases hfind : u.findLane language with
    | none => rfl
    | some v =>
      have hv : v ∈ u.variants := List.mem_of_find?_eq_some hfind
      have hvtag : v.tag = language := of_decide_eq_true (List.find?_some hfind :)
      refine h.unstamped v hv ?_
      rw [Bool.eq_false_iff]
      intro hvfinal
      have := (htakes v hv (hvtag.trans htag.symm) hvfinal).1
      rw [hpayload] at this
      cases this
  have hput := h.withLane hle hnotSource hwrole hready hstamped hopen
    fun v hv hvtag hvfinal => (htakes v hv hvtag hvfinal).2
  rwa [htag] at hput

theorem keeps_writeTranslationLane {s : CaptureStore} {u : RealtimeUtterance} {language : String}
    {payload : LanePayload} {laneWrite : TranslationLaneWrite} (hu : u ∈ s.utterances)
    (hlanguage : canonicalLanguage language = language)
    (hsource : (u.hasSourceLane && canonicalLanguage u.sourceLanguage = language) = false)
    (hdecided : decideLaneWrite (u.findLane language) payload laneWrite = .ok true)
    (hwellFormed : payload.wellFormed = true) : Keeps s (s.writeTranslationLane u language payload) := by
  intro h
  have hrow : ∀ (more stamp : Nat) (w : RealtimeUtteranceVariant), s.desiredRevision ≤ more →
      (payload.isFinal = true → s.desiredRevision < stamp ∧ stamp ≤ more) →
      (w = if payload.isFinal then
          { writtenVariant language payload (u.findLane language) with projectionRevision := stamp }
        else writtenVariant language payload (u.findLane language)) →
      Keeps s ({ s with desiredRevision := more }.updateUtterance u.id fun u =>
        legacyShadow { u with variants := putLane language w u.variants } language payload) := by
    intro more stamp w hle hstamp hw
    refine keeps_updateUtterance hle ?_
    intro u' hu' hid hok
    obtain rfl := h.eq_of_id hu' hu hid
    obtain ⟨hok', hevolves⟩ := hok.writeLane hle hlanguage hsource hdecided hwellFormed hstamp w hw
    have hcore := sameCore_legacyShadow { u' with variants := putLane language w u'.variants } language payload
    exact ⟨⟨hcore.id, hcore.sequence, hcore.revision.ge⟩, hcore.rowOk hok', hcore.rowEvolves hevolves⟩
  rw [CaptureStore.writeTranslationLane]
  split
  · next hfinal =>
    exact hrow _ (s.desiredRevision + 1) _ (Nat.le_succ _) (fun _ => ⟨Nat.lt_succ_self _, le_rfl⟩)
      (if_pos hfinal).symm h
  · next hfinal =>
    exact hrow _ 0 _ le_rfl (fun hpayload => absurd hpayload hfinal) (if_neg hfinal).symm h

end Zulangue.Capture
