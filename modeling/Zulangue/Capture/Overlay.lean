import Zulangue.Capture.Finality

/-!
# Edits over the machine's rows

A committed edit is laid over its lane whenever a row is shown, also inside the
transactions of the provider. An edit that fits its lane is laid over it without an error,
and what the provider asks of a row does not depend on it.
-/

namespace Zulangue.Capture

open Zulangue.Lib.Fallible

/-! ## Edits that fit -/

/-- The override designates a Final lane of its row, of its role and language, at a
revision the lane has reached. -/
structure OverrideFits (s : CaptureStore) (o : UtteranceOverride) : Prop where
  edited : o.editRevision ≠ 0
  lane : ∃ u ∈ s.utterances, u.id = o.utteranceId ∧ o.machineUtteranceRevision ≤ u.revision ∧
    ∃ v ∈ u.variants, v.tag = canonicalLanguage o.laneLanguage ∧ v.role = CaptureStore.roleOf o.lane ∧
      v.isFinal = true ∧ o.machineVariantRevision ≤ v.revision

/-- The override is on a source lane whose language is not known. -/
def UtteranceOverride.onUnidentifiedSource (o : UtteranceOverride) : Bool :=
  o.lane = .source && canonicalLanguage o.laneLanguage = "und"

structure EditsOk (s : CaptureStore) : Prop where
  store : StoreOk s
  fits : ∀ o ∈ s.overrides, OverrideFits s o
  identified : ∀ o ∈ s.overrides, o.onUnidentifiedSource = false
  staged : ∀ m ∈ s.mutations, ∃ u ∈ s.utterances, u.id = m.utteranceId ∧ ∃ v ∈ u.variants, v.isFinal = true

theorem OverrideFits.evolve {s s' : CaptureStore} {o : UtteranceOverride} (h : OverrideFits s o)
    (hidentified : o.onUnidentifiedSource = false) (hevolves : Evolves s s') : OverrideFits s' o := by
  obtain ⟨u, hu, hid, hrevision, v, hv, htag, hrole, hfinal, hlane⟩ := h.lane
  obtain ⟨u', hu', hid', -, hrevision', v', hv', hcontinues⟩ := hevolves.kept u hu v hv hfinal
  refine ⟨h.edited, u', hu', hid'.trans hid, hrevision.trans hrevision', v', hv', ?_,
    hcontinues.role.trans hrole, hcontinues.final, hlane.trans hcontinues.revision⟩
  cases hcontinues.tag with
  | inl hsame => exact hsame.trans htag
  | inr hund =>
    have hsource : o.lane = .source := by
      cases hlane : o.lane with
      | source => rfl
      | translated =>
        rw [hlane, hund.1] at hrole
        cases hrole
    simp [UtteranceOverride.onUnidentifiedSource, hsource, ← htag, hund.2] at hidentified

/-- Provider facts keep the edits. -/
theorem EditsOk.keeps {s s' : CaptureStore} (h : EditsOk s) (hkeeps : Keeps s s') : EditsOk s' := by
  obtain ⟨⟨hstore, hevolves⟩, hleaves⟩ := hkeeps h.store
  refine ⟨hstore, ?_, fun o ho => h.identified o (hleaves.overrides o ho), ?_⟩
  · intro o ho
    have hold := hleaves.overrides o ho
    exact (h.fits o hold).evolve (h.identified o hold) hevolves
  · intro m hm
    obtain ⟨u, hu, hid, v, hv, hfinal⟩ := h.staged m (hleaves.mutations m hm)
    obtain ⟨u', hu', hid', -, -, v', hv', hcontinues⟩ := hevolves.kept u hu v hv hfinal
    exact ⟨u', hu', hid'.trans hid, v', hv', hcontinues.final⟩

/-! ## Showing a row -/

theorem tag_eq_of_language {v w : RealtimeUtteranceVariant} (h : v.language = w.language) : v.tag = w.tag := by
  rw [RealtimeUtteranceVariant.tag, RealtimeUtteranceVariant.tag, h]

/-- The lane of a language is the same lane in a row as it is shown. -/
theorem Shows.findLane {desired : Nat} {u shown : RealtimeUtterance} (hshows : Shows u shown)
    (h : RowOk desired u) {v : RealtimeUtteranceVariant} (hv : v ∈ u.variants) :
    ∃ v', shown.findLane v.tag = some v' ∧ LaneShown v v' := by
  obtain ⟨v', hv', hshown⟩ := hshows.exists_shown hv
  cases hfind : shown.findLane v.tag with
  | none =>
    have := List.find?_eq_none.mp hfind v' hv'
    exact absurd (decide_eq_true (tag_eq_of_language hshown.language)) this
  | some w' =>
    obtain ⟨w, hw, hwshown⟩ := hshows.exists_lane (List.mem_of_find?_eq_some hfind)
    have htag : w'.tag = v.tag := of_decide_eq_true (List.find?_some hfind :)
    obtain rfl := h.eq_of_tag hw hv ((tag_eq_of_language hwshown.language).symm.trans htag)
    exact ⟨w', rfl, hwshown⟩

theorem exists_applyOverride {s : CaptureStore} (hs : StoreOk s) {u shown : RealtimeUtterance}
    (hu : u ∈ s.utterances) (hshows : Shows u shown) {o : UtteranceOverride} (hid : o.utteranceId = u.id)
    (h : OverrideFits s o) : ∃ next, CaptureStore.applyOverride shown o = .ok next := by
  obtain ⟨u', hu', hid', hrevision, v, hv, htag, hrole, hfinal, hlane⟩ := h.lane
  obtain rfl := hs.eq_of_id hu' hu (hid'.trans hid)
  obtain ⟨v', hfind, hshown⟩ := hshows.findLane (hs.rows _ hu) hv
  rw [htag] at hfind
  have hrevision' : o.machineUtteranceRevision ≤ shown.revision := hrevision.trans_eq hshows.revision.symm
  have hlane' : o.machineVariantRevision ≤ v'.revision := hlane.trans_eq hshown.revision.symm
  have hrole' := hshown.role.trans hrole
  cases hkind : o.lane with
  | translated =>
    rw [hkind] at hrole'
    simp [CaptureStore.applyOverride, ensure, orError, h.edited, hrevision', hfind, hlane', hkind, hrole',
      CaptureStore.roleOf, bind, Except.bind, pure, Except.pure]
  | source =>
    rw [hkind] at hrole hrole'
    have hlanguage : canonicalLanguage shown.sourceLanguage = canonicalLanguage o.laneLanguage := by
      rw [hshows.sourceLanguage, ← (hs.rows _ hu).sourceTag v hv hrole, htag]
    simp [CaptureStore.applyOverride, ensure, orError, h.edited, hrevision', hfind, hlane', hkind, hrole',
      hlanguage, CaptureStore.roleOf, bind, Except.bind, pure, Except.pure]

theorem exists_applyUtteranceOverrides {s : CaptureStore} (h : EditsOk s) {u shown : RealtimeUtterance}
    (hu : u ∈ s.utterances) (hshows : Shows u shown) :
    ∃ next, s.applyUtteranceOverrides shown = .ok next := by
  rw [CaptureStore.applyUtteranceOverrides]
  have hfits : ∀ o ∈ s.overrides.filter (·.utteranceId = shown.id), OverrideFits s o ∧ o.utteranceId = u.id := by
    intro o ho
    obtain ⟨hmem, hid⟩ := List.mem_filter.mp ho
    exact ⟨h.fits o hmem, (of_decide_eq_true hid).trans hshows.id⟩
  generalize s.overrides.filter (·.utteranceId = shown.id) = overrides at hfits
  induction overrides generalizing shown with
  | nil => exact ⟨shown, rfl⟩
  | cons o rest ih =>
    obtain ⟨hfit, hid⟩ := hfits o List.mem_cons_self
    obtain ⟨next, hnext⟩ := exists_applyOverride h.store hu hshows hid hfit
    obtain ⟨last, hlast⟩ := ih (hshows.trans (shows_of_applyOverride hnext))
      fun o' ho' => hfits o' (List.mem_cons_of_mem _ ho')
    exact ⟨last, bind_eq_ok.mpr ⟨next, hnext, hlast⟩⟩

/-- Every row can be shown. -/
theorem exists_listUtterances {s : CaptureStore} (h : EditsOk s) : ∃ shown, s.listUtterances = .ok shown :=
  exists_mapM fun u hu => exists_applyUtteranceOverrides h hu (Shows.refl u)

/-! ## What is decided by a row as it is shown -/

section
variable {desired : Nat} {u shown : RealtimeUtterance}

/-- A question about lanes that no edit changes has one answer. -/
theorem Shows.any_eq (hshows : Shows u shown) {p : RealtimeUtteranceVariant → Bool}
    (hp : ∀ v ∈ u.variants, ∀ v', LaneShown v v' → p v' = p v) : shown.variants.any p = u.variants.any p := by
  have hlanes := hshows.lanes
  generalize u.variants = lanes at hlanes hp
  generalize shown.variants = overlaid at hlanes
  induction hlanes with
  | nil => rfl
  | cons hhead _ ih =>
    rw [List.any_cons, List.any_cons, hp _ List.mem_cons_self _ hhead,
      ih fun v hv => hp v (List.mem_cons_of_mem _ hv)]

theorem LaneShown.isReadyFact {v v' : RealtimeUtteranceVariant} (hshown : LaneShown v v')
    (h : v.state = .ready → v.text.isSome ∧ v.completion.isSome) : v'.isReadyFact = v.isReadyFact := by
  rw [RealtimeUtteranceVariant.isReadyFact, RealtimeUtteranceVariant.isReadyFact, hshown.state, hshown.completion]
  by_cases hstate : v.state = .ready
  · have htext := (h hstate).1
    rw [htext, hshown.text htext]
  · simp [hstate]

theorem Shows.find_rel (hshows : Shows u shown) {p : RealtimeUtteranceVariant → Bool}
    (hp : ∀ v v', LaneShown v v' → p v' = p v) :
    Option.Rel LaneShown (u.variants.find? p) (shown.variants.find? p) := by
  have hlanes := hshows.lanes
  generalize u.variants = lanes at hlanes
  generalize shown.variants = overlaid at hlanes
  induction hlanes with
  | nil => exact .none
  | @cons v v' _ _ hhead _ ih =>
    rw [List.find?_cons, List.find?_cons, hp v v' hhead]
    cases p v with
    | true => exact .some hhead
    | false => exact ih

theorem Shows.sourceVariant (hshows : Shows u shown) :
    Option.Rel LaneShown u.sourceVariant shown.sourceVariant :=
  hshows.find_rel fun _ _ hshown => by rw [hshown.role]

/-- What is asked of the lane that is found. -/
theorem Shows.any_find_eq (hshows : Shows u shown) {p q : RealtimeUtteranceVariant → Bool}
    (hp : ∀ v v', LaneShown v v' → p v' = p v) (hq : ∀ v v', LaneShown v v' → q v' = q v) :
    (shown.variants.find? p).any q = (u.variants.find? p).any q := by
  have hfound := hshows.find_rel hp
  generalize u.variants.find? p = lane at hfound
  generalize shown.variants.find? p = found at hfound
  cases hfound with
  | none => rfl
  | some hshown => exact hq _ _ hshown

theorem Shows.isEmpty (hshows : Shows u shown) : shown.variants.isEmpty = u.variants.isEmpty := by
  have hlanes := hshows.lanes
  generalize u.variants = lanes at hlanes
  generalize shown.variants = overlaid at hlanes
  cases hlanes with
  | nil => rfl
  | cons _ _ => rfl

theorem Shows.hasSourceFact (hshows : Shows u shown) (h : RowOk desired u) :
    shown.hasSourceFact = u.hasSourceFact := by
  have hany : (shown.variants.any fun v => v.role = .source && v.isReadyFact) =
      u.variants.any fun v => v.role = .source && v.isReadyFact := by
    apply hshows.any_eq
    intro v hv v' hshown
    rw [hshown.role, hshown.isReadyFact (h.ready v hv)]
  rw [RealtimeUtterance.hasSourceFact, RealtimeUtterance.hasSourceFact, hany,
    RealtimeUtterance.sourceFactIsComplete, RealtimeUtterance.sourceFactIsComplete, hshows.completion,
    hshows.sourceStartMs, hshows.sourceEndMs]
  by_cases hnone : ∀ v ∈ u.variants, v.role ≠ .source
  · rw [hshows.sourceText hnone]
  · -- An edited source has a lane, which is a fact of its own.
    push Not at hnone
    obtain ⟨v, hv, hrole⟩ := hnone
    obtain ⟨hstate, hcompletion⟩ := h.sourceFact v hv hrole
    have hready : (u.variants.any fun v => v.role = .source && v.isReadyFact) = true := by
      refine List.any_eq_true.mpr ⟨v, hv, ?_⟩
      simp [hrole, RealtimeUtteranceVariant.isReadyFact, hstate, hcompletion, (h.ready v hv hstate).1]
    rw [hready, Bool.or_true, Bool.or_true]

theorem Shows.hasReadyTranslation (hshows : Shows u shown) (h : RowOk desired u) :
    shown.hasReadyTranslation = u.hasReadyTranslation := by
  apply hshows.any_eq
  intro v hv v' hshown
  rw [hshown.role, hshown.isReadyFact (h.ready v hv)]

theorem Shows.hasSourceLane (hshows : Shows u shown) (h : RowOk desired u) :
    shown.hasSourceLane = u.hasSourceLane := by
  rw [RealtimeUtterance.hasSourceLane, RealtimeUtterance.hasSourceLane, hshows.isEmpty, hshows.hasSourceFact h]
  have hsource := hshows.sourceVariant
  cases hfind : u.sourceVariant with
  | none =>
    rw [hfind] at hsource
    generalize shown.sourceVariant = found at hsource
    cases hsource
    rfl
  | some v =>
    have hv : v ∈ u.variants := List.mem_of_find?_eq_some hfind
    rw [hfind] at hsource
    generalize shown.sourceVariant = found at hsource
    cases hsource with
    | some hshown => simp [hshown.isReadyFact (h.ready v hv)]

theorem Shows.sourceLaneIsComplete (hshows : Shows u shown) (h : RowOk desired u) :
    shown.sourceLaneIsComplete = u.sourceLaneIsComplete := by
  rw [RealtimeUtterance.sourceLaneIsComplete, RealtimeUtterance.sourceLaneIsComplete, hshows.isEmpty,
    RealtimeUtterance.sourceFactIsComplete, RealtimeUtterance.sourceFactIsComplete, hshows.completion]
  have hsource := hshows.sourceVariant
  cases hfind : u.sourceVariant with
  | none =>
    rw [hfind] at hsource
    generalize shown.sourceVariant = found at hsource
    cases hsource
    rfl
  | some v =>
    have hv : v ∈ u.variants := List.mem_of_find?_eq_some hfind
    have hrole : v.role = .source := of_decide_eq_true (List.find?_some hfind :)
    have htext := (h.ready v hv (h.sourceFact v hv hrole).1).1
    rw [hfind] at hsource
    generalize shown.sourceVariant = found at hsource
    cases hsource with
    | some hshown => simp [hshown.state, hshown.completion, hshown.text htext, htext]

end

end Zulangue.Capture
