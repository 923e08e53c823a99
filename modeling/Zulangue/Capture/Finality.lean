import Zulangue.Capture.Writes

/-!
# Finality over whole runs

The remaining operations of the store, and what any run of them keeps: a Final lane is
never lost, and the desired revision tells which Final lanes a projection has not seen.
-/

namespace Zulangue.Capture

open Zulangue.Lib Zulangue.Lib.Fallible

/-! ## Source writes -/

theorem RowOk.withoutSource {desired : Nat} {u u' : RealtimeUtterance} (h : RowOk desired u)
    (hopen : ∀ v ∈ u.variants, v.role = .source → v.isFinal = false)
    (hvariants : u'.variants = u.variants.filter (·.role ≠ .source))
    (hunstamped : u'.sourceProjectionRevision = 0) :
    RowOk desired u' ∧ RowEvolves desired u u' := by
  have hmem : ∀ v ∈ u'.variants, v ∈ u.variants ∧ v.role ≠ .source := by
    intro v hv
    rw [hvariants, List.mem_filter, decide_eq_true_eq] at hv
    exact hv
  constructor
  · apply RowOk.of_lanes
    · rw [hvariants]
      exact h.distinct.sublist (List.filter_sublist.map _)
    · exact fun v hv => (h.lane (hmem v hv).1).of_translation (hmem v hv).2 le_rfl u'
    · exact fun _ => hunstamped
  · constructor
    · intro v hv hfinal
      refine ⟨v, ?_, h.continues hv hfinal⟩
      rw [hvariants, List.mem_filter, decide_eq_true_eq]
      refine ⟨hv, fun hrole => ?_⟩
      rw [hopen v hv hrole] at hfinal
      cases hfinal
    · intro v hv _
      exact .inl (hmem v hv).1

/-- The row after a source write whose lanes were those of `u`. -/
theorem RowOk.withSourceLane {desired more stamp : Nat} {u row : RealtimeUtterance} {coalesces : Bool}
    (h : RowOk desired u) (hle : desired ≤ more)
    (hopen : ∀ v ∈ u.variants, v.role = .source → v.isFinal = false)
    (hfree : coalesces = false → ∀ v ∈ u.variants, v.isFinal = true →
      v.tag ≠ canonicalLanguage row.sourceLanguage)
    (hvariants : row.variants = u.variants)
    (hcolumn : row.sourceProjectionRevision = u.sourceProjectionRevision)
    (hstamp : row.completion = .complete → coalesces = false → desired < stamp ∧ stamp ≤ more)
    (hzero : row.completion = .partial_ → stamp = 0) :
    RowOk more (withSourceLane coalesces stamp row) ∧
      RowEvolves desired u (withSourceLane coalesces stamp row) := by
  cases coalesces with
  | true =>
    have hrow : (Capture.withSourceLane true stamp row).variants = u.variants.filter (·.role ≠ .source) := by
      rw [← hvariants]
      rfl
    obtain ⟨hok, hevolves⟩ := h.withoutSource hopen hrow rfl
    exact ⟨hok.mono hle, hevolves⟩
  | false =>
    have hmem : ∀ v ∈ (Capture.withSourceLane false stamp row).variants,
        v = sourceLane row stamp ∨
          (v ∈ u.variants ∧ v.role ≠ .source ∧ v.tag ≠ canonicalLanguage row.sourceLanguage) := by
      intro v hv
      cases List.mem_append.mp hv with
      | inl hv =>
        rw [List.mem_filter, Bool.and_eq_true, decide_eq_true_eq, decide_eq_true_eq, hvariants] at hv
        exact .inr hv
      | inr hv => exact .inl (List.mem_singleton.mp hv)
    have hself : sourceLane row stamp ∈ (Capture.withSourceLane false stamp row).variants :=
      List.mem_append_right _ (List.mem_singleton.mpr rfl)
    have hfinal_iff : (sourceLane row stamp).isFinal = true ↔ row.completion = .complete := by
      simp [isFinal_iff, sourceLane]
    have hcolumn' : (Capture.withSourceLane false stamp row).sourceProjectionRevision = stamp := by
      cases hcompletion : row.completion with
      | complete => exact if_pos hcompletion
      | partial_ =>
        have hsame : (Capture.withSourceLane false stamp row).sourceProjectionRevision =
            row.sourceProjectionRevision := by
          refine if_neg ?_
          rw [hcompletion]
          intro heq
          cases heq
        rw [hsame, hcolumn, hzero hcompletion]
        by_cases hnone : ∀ v ∈ u.variants, v.role ≠ .source
        · exact h.sourceUnstamped hnone
        · push Not at hnone
          obtain ⟨v, hv, hrole⟩ := hnone
          rw [h.sourceStamp v hv hrole]
          exact h.unstamped v hv (hopen v hv hrole)
    constructor
    · apply RowOk.of_lanes
      · change (((row.variants.filter fun v =>
          v.role ≠ .source && v.tag ≠ canonicalLanguage row.sourceLanguage) ++
            [sourceLane row stamp]).map (·.tag)).Nodup
        rw [List.map_append, List.nodup_append, hvariants]
        refine ⟨h.distinct.sublist (List.filter_sublist.map _), List.nodup_singleton _, ?_⟩
        intro tag htag other hother heq
        obtain ⟨v, hv, rfl⟩ := List.mem_map.mp htag
        obtain rfl := List.mem_singleton.mp hother
        have hne := (Bool.and_eq_true_iff.mp (List.mem_filter.mp hv).2).2
        exact of_decide_eq_true hne heq
      · intro v hv
        cases hmem v hv with
        | inl heq =>
          subst heq
          refine ⟨fun hfinal => ?_, fun hunfinished => hzero ?_, fun _ => ⟨rfl, rfl⟩, fun _ => ⟨rfl, ⟨rfl, rfl⟩, hcolumn'⟩⟩
          · have := hstamp (hfinal_iff.mp hfinal) rfl
            rw [show (sourceLane row stamp).projectionRevision = stamp from rfl]
            omega
          · cases hcompletion : row.completion with
            | partial_ => rfl
            | complete =>
              rw [hfinal_iff.mpr hcompletion] at hunfinished
              cases hunfinished
        | inr hold => exact (h.lane hold.1).of_translation hold.2.1 hle _
      · intro hnone
        exact absurd rfl (hnone _ hself)
    · constructor
      · intro v hv hfinal
        refine ⟨v, List.mem_append_left _ ?_, h.continues hv hfinal⟩
        rw [List.mem_filter, Bool.and_eq_true, decide_eq_true_eq, decide_eq_true_eq, hvariants]
        refine ⟨hv, fun hrole => ?_, hfree rfl v hv hfinal⟩
        rw [hopen v hv hrole] at hfinal
        cases hfinal
      · intro v hv hfinal
        cases hmem v hv with
        | inl heq =>
          subst heq
          exact .inr (hstamp (hfinal_iff.mp hfinal) rfl).1
        | inr hold => exact .inl hold.1

theorem id_withSourceLane (coalesces : Bool) (stamp : Nat) (u : RealtimeUtterance) :
    (withSourceLane coalesces stamp u).id = u.id ∧ (withSourceLane coalesces stamp u).sequence = u.sequence ∧
      (withSourceLane coalesces stamp u).revision = u.revision := by
  cases coalesces <;> exact ⟨rfl, rfl, rfl⟩

theorem byId_eq_none {s : CaptureStore} {id : String} (h : s.byId id = none) : ∀ u ∈ s.utterances, u.id ≠ id := by
  intro u hu hid
  have := List.find?_eq_none.mp h u hu
  exact this (decide_eq_true hid)

theorem bySequence_eq_none {s : CaptureStore} {sequence : Nat} (h : s.bySequence sequence = none) :
    ∀ u ∈ s.utterances, u.sequence ≠ sequence := by
  intro u hu hsequence
  have := List.find?_eq_none.mp h u hu
  exact this (decide_eq_true hsequence)

/-- A new row whose Final lanes are stamped. -/
theorem keeps_append {s : CaptureStore} {u : RealtimeUtterance} {more : Nat} (hle : s.desiredRevision ≤ more)
    (hid : s.byId u.id = none) (hsequence : s.bySequence u.sequence = none) (hok : RowOk more u)
    (hfresh : ∀ v ∈ u.variants, v.isFinal = true → s.desiredRevision < v.projectionRevision) :
    Keeps s { s with desiredRevision := more, utterances := s.utterances ++ [u] } := by
  have hdistinct : ∀ {β : Type} (g : RealtimeUtterance → β), (s.utterances.map g).Nodup →
      (∀ w ∈ s.utterances, g w ≠ g u) → ((s.utterances ++ [u]).map g).Nodup := by
    intro β g hnodup hne
    rw [List.map_append, List.nodup_append]
    refine ⟨hnodup, List.nodup_singleton _, ?_⟩
    intro a ha b hb heq
    obtain ⟨w, hw, rfl⟩ := List.mem_map.mp ha
    obtain rfl := List.mem_singleton.mp hb
    exact hne w hw heq
  intro h
  refine ⟨?_, rfl, fun _ ho => ho, fun _ hm => hm⟩
  constructor
  · constructor
    · intro w hw
      cases List.mem_append.mp hw with
      | inl hold => exact (h.rows w hold).mono hle
      | inr hnew =>
        obtain rfl := List.mem_singleton.mp hnew
        exact hok
    · exact hdistinct _ h.ids (byId_eq_none hid)
    · exact hdistinct _ h.sequences (bySequence_eq_none hsequence)
    · exact h.watermark.trans hle
  · constructor
    · exact hle
    · exact le_rfl
    · intro w hw v hv hfinal
      exact ⟨w, List.mem_append_left _ hw, rfl, rfl, le_rfl, v, hv, (h.rows w hw).continues hv hfinal⟩
    · intro w hw v hv hfinal
      cases List.mem_append.mp hw with
      | inl hold => exact .inl ⟨w, hold, rfl, hv⟩
      | inr hnew =>
        obtain rfl := List.mem_singleton.mp hnew
        exact .inr (hfresh v hv hfinal)

/-- A row without lanes is in order. -/
theorem rowOk_of_no_lanes {desired : Nat} {u : RealtimeUtterance} (hvariants : u.variants = [])
    (hunstamped : u.sourceProjectionRevision = 0) : RowOk desired u := by
  constructor <;> rw [hvariants] <;> simp [hunstamped]

/-- The language of a source write is canonical. -/
theorem canonicalLanguage_learnedSourceLanguage (existing : Option RealtimeUtterance) (language : String) :
    canonicalLanguage (learnedSourceLanguage existing (canonicalLanguage language)) =
      learnedSourceLanguage existing (canonicalLanguage language) := by
  unfold learnedSourceLanguage
  split
  · split
    · dsimp only
      split
      · exact canonicalLanguage_canonicalLanguage _
      · exact canonicalLanguage_canonicalLanguage _
    · exact canonicalLanguage_canonicalLanguage _
  · exact canonicalLanguage_canonicalLanguage _

theorem of_coalescesWithFinalTranslation {u : RealtimeUtterance} {language : String} {coalesces : Bool}
    (h : coalescesWithFinalTranslation u language = .ok coalesces) :
    (∀ v ∈ u.variants, v.role = .source → v.isFinal = false) ∧
      (coalesces = false → ∀ v ∈ u.variants, v.isFinal = true → v.tag ≠ language) := by
  obtain ⟨⟨⟩, hopen, h⟩ := bind_eq_ok.mp h
  have hopen := List.all_eq_true.mp (ensure_eq_ok.mp hopen)
  constructor
  · intro v hv hrole
    rw [Bool.eq_false_iff]
    intro hfinal
    exact of_decide_eq_true (hopen v (List.mem_filter.mpr ⟨hv, hfinal⟩)) hrole
  · intro hcoalesces v hv hfinal htag
    have hany : ((u.variants.filter (·.isFinal)).any fun v => v.tag = language) = true :=
      List.any_eq_true.mpr ⟨v, List.mem_filter.mpr ⟨hv, hfinal⟩, decide_eq_true htag⟩
    rw [Except.ok.inj h, hcoalesces] at hany
    cases hany

/-- The stamp of a source lane, and the desired revision it leaves. -/
theorem writeSourceLane_eq (s : CaptureStore) (u : RealtimeUtterance) (coalesces : Bool) :
    ∃ more stamp, s.desiredRevision ≤ more ∧
      (u.completion = .complete → coalesces = false → s.desiredRevision < stamp ∧ stamp ≤ more) ∧
      (u.completion = .partial_ → stamp = 0) ∧
      s.writeSourceLane u coalesces =
        { s with desiredRevision := more }.updateUtterance u.id (withSourceLane coalesces stamp) := by
  rw [CaptureStore.writeSourceLane]
  split
  · next hcomplete =>
    refine ⟨s.desiredRevision + 1, s.desiredRevision + 1, Nat.le_succ _,
      fun _ _ => ⟨Nat.lt_succ_self _, le_rfl⟩, ?_, rfl⟩
    intro hunsettled
    rw [hcomplete.1] at hunsettled
    cases hunsettled
  · next hother =>
    refine ⟨s.desiredRevision, 0, le_rfl, ?_, fun _ => rfl, rfl⟩
    intro hcomplete hfalse
    exact absurd ⟨hcomplete, by rw [hfalse]; rfl⟩ hother

theorem updateUtterance_append {s : CaptureStore} {u : RealtimeUtterance}
    (f : RealtimeUtterance → RealtimeUtterance) (more : Nat) (h : s.byId u.id = none) :
    CaptureStore.updateUtterance { s with desiredRevision := more, utterances := s.utterances ++ [u] } u.id f =
      { s with desiredRevision := more, utterances := s.utterances ++ [f u] } := by
  have hsame : ∀ w ∈ s.utterances, (if w.id = u.id then f w else w) = w :=
    fun w hw => if_neg (byId_eq_none h w hw)
  rw [CaptureStore.updateUtterance]
  simp only [List.map_append, List.map_cons, List.map_nil, if_true, List.map_congr_left hsame, List.map_id']

theorem updateUtterance_updateUtterance {s : CaptureStore} {u : RealtimeUtterance}
    (f : RealtimeUtterance → RealtimeUtterance) (more : Nat) (id : String) (h : u.id = id) :
    CaptureStore.updateUtterance { s.updateUtterance id (fun _ => u) with desiredRevision := more } u.id f =
      CaptureStore.updateUtterance { s with desiredRevision := more } id fun _ => f u := by
  rw [CaptureStore.updateUtterance, CaptureStore.updateUtterance, CaptureStore.updateUtterance]
  simp only [List.map_map, h]
  congr 1
  apply List.map_congr_left
  intro w _
  by_cases hw : w.id = id
  · simp [hw, h]
  · simp [hw]

/-- The row and the lanes of a source write, taken together. -/
theorem keeps_writeSource {s mid : CaptureStore} {input : NewRealtimeUtterance} {row : RealtimeUtterance}
    {language : String} {shadow : StoredShadow} {expectedRevision : Option Nat} {coalesces : Bool}
    (hlanguage : canonicalLanguage language = language)
    (hcoalesces : ∀ u, s.bySequence input.sequence = some u →
      coalescesWithFinalTranslation u language = .ok coalesces)
    (hnew : s.bySequence input.sequence = none → coalesces = false)
    (h : s.writeUtteranceRow input language shadow expectedRevision = .ok (mid, row)) :
    Keeps s (mid.writeSourceLane row coalesces) := by
  obtain ⟨more, stamp, hle, hstamp, hzero, heq⟩ := writeSourceLane_eq mid row coalesces
  rw [heq]
  unfold CaptureStore.writeUtteranceRow at h
  split at h
  · obtain ⟨⟨⟩, hfresh, h⟩ := bind_eq_ok.mp h
    have hfresh := ensure_eq_ok.mp hfresh
    simp only [Bool.and_eq_true, Option.isNone_iff_eq_none] at hfresh
    obtain ⟨⟨hsequence, hid⟩, -⟩ := hfresh
    obtain ⟨rfl, hrow⟩ := Prod.mk.inj (Except.ok.inj h)
    have hids : row.id = input.id ∧ row.sequence = input.sequence ∧ row.variants = [] ∧
        row.sourceProjectionRevision = 0 ∧ row.sourceLanguage = language := by
      rw [← hrow]
      exact ⟨rfl, rfl, rfl, rfl, rfl⟩
    obtain rfl := hnew hsequence
    rw [← hids.1] at hid
    rw [← hids.2.1] at hsequence
    rw [hrow, updateUtterance_append _ more hid]
    have hids' := id_withSourceLane false stamp row
    have hempty : ∀ v ∈ row.variants, False := by
      rw [hids.2.2.1]
      exact fun v hv => absurd hv List.not_mem_nil
    obtain ⟨hok, hevolves⟩ :=
      (@rowOk_of_no_lanes s.desiredRevision row hids.2.2.1 hids.2.2.2.1).withSourceLane hle
        (fun v hv => (hempty v hv).elim) (fun _ v hv => (hempty v hv).elim) rfl rfl hstamp hzero
    refine keeps_append hle (hids'.1 ▸ hid) (hids'.2.1 ▸ hsequence) hok ?_
    intro v hv hfinal
    cases hevolves.fresh v hv hfinal with
    | inl hold => exact (hempty v hold).elim
    | inr hstamped => exact hstamped
  · obtain ⟨existing, hexisting, h⟩ := bind_eq_ok.mp h
    obtain ⟨⟨⟩, _, h⟩ := bind_eq_ok.mp h
    obtain ⟨rfl, hrow⟩ := Prod.mk.inj (Except.ok.inj h)
    have hbySequence := orError_eq_ok.mp hexisting
    obtain ⟨hopen, hfree⟩ := of_coalescesWithFinalTranslation (hcoalesces existing hbySequence)
    have hmem := (mem_of_bySequence hbySequence).1
    have hids : row.id = existing.id ∧ row.sequence = existing.sequence ∧
        row.variants = existing.variants ∧
        row.sourceProjectionRevision = existing.sourceProjectionRevision ∧
        row.sourceLanguage = language ∧ row.revision = existing.revision + 1 := by
      rw [← hrow]
      exact ⟨rfl, rfl, rfl, rfl, rfl, rfl⟩
    rw [hrow, updateUtterance_updateUtterance _ more existing.id hids.1]
    intro hs
    refine keeps_updateUtterance hle ?_ hs
    intro u hu hid hok
    obtain rfl := hs.eq_of_id hu hmem hid
    have hids' := id_withSourceLane coalesces stamp row
    have hrow' := hok.withSourceLane hle hopen
      (by rw [hids.2.2.2.2.1, hlanguage]; exact hfree) hids.2.2.1 hids.2.2.2.1 hstamp hzero
    have hrevision := hids'.2.2.trans hids.2.2.2.2.2
    exact ⟨⟨hids'.1.trans hids.1, hids'.2.1.trans hids.2.1, by omega⟩, hrow'.1, hrow'.2⟩

section
variable {toLowercase : Char → List Char}

theorem keeps_upsertPartialUtterance {s s' : CaptureStore} {input : NewRealtimeUtterance}
    {expectedRevision : Option Nat} {shown : RealtimeUtterance}
    (h : s.upsertPartialUtterance toLowercase input expectedRevision = .ok (s', shown)) : Keeps s s' := by
  rw [CaptureStore.upsertPartialUtterance] at h
  dsimp only at h
  have hlanguage := canonicalLanguage_learnedSourceLanguage (s.bySequence input.sequence) input.sourceLanguage
  generalize learnedSourceLanguage (s.bySequence input.sequence) (canonicalLanguage input.sourceLanguage) =
    language at h hlanguage
  have htail : ∀ {coalesces : Bool} {mid stored rest : CaptureStore} {row : RealtimeUtterance} {survives : Bool},
      Keeps s (mid.writeSourceLane row coalesces) →
      (mid.writeSourceLane row coalesces).revalidateBoundTranslationInboxItems toLowercase row.id
        input.sequence = .ok stored →
      stored.applyBoundTranslationInboxItems row.id input.sequence = .ok (rest, survives) → Keeps s rest :=
    fun hwrite hrevalidate hbound => (hwrite.trans (keeps_revalidate hrevalidate)).trans (keeps_applyBound hbound)
  cases hexisting : s.bySequence input.sequence with
  | none =>
    rw [hexisting] at h
    obtain ⟨coalesces, hfalse, h⟩ := bind_eq_ok.mp h
    obtain ⟨⟨mid, row⟩, hrow, h⟩ := bind_eq_ok.mp h
    obtain ⟨stored, hrevalidate, h⟩ := bind_eq_ok.mp h
    obtain ⟨⟨rest, survives⟩, hbound, h⟩ := bind_eq_ok.mp h
    obtain ⟨⟨⟩, _, h⟩ := bind_eq_ok.mp h
    obtain ⟨last, _, h⟩ := bind_eq_ok.mp h
    obtain ⟨visible, _, h⟩ := bind_eq_ok.mp h
    cases h
    refine htail (keeps_writeSource hlanguage ?_ ?_ hrow) hrevalidate hbound
    · intro u' hu'
      rw [hexisting] at hu'
      cases hu'
    · intro _
      exact (Except.ok.inj hfalse).symm
  | some u =>
    rw [hexisting] at h
    obtain ⟨coalesces, hcoalesces, h⟩ := bind_eq_ok.mp h
    obtain ⟨⟨mid, row⟩, hrow, h⟩ := bind_eq_ok.mp h
    obtain ⟨stored, hrevalidate, h⟩ := bind_eq_ok.mp h
    obtain ⟨⟨rest, survives⟩, hbound, h⟩ := bind_eq_ok.mp h
    obtain ⟨⟨⟩, _, h⟩ := bind_eq_ok.mp h
    obtain ⟨last, _, h⟩ := bind_eq_ok.mp h
    obtain ⟨visible, _, h⟩ := bind_eq_ok.mp h
    cases h
    refine htail (keeps_writeSource hlanguage ?_ ?_ hrow) hrevalidate hbound
    · intro u' hu'
      obtain rfl := Option.some.inj (hexisting.symm.trans hu')
      exact hcoalesces
    · intro hnone
      rw [hexisting] at hnone
      cases hnone

theorem keeps_upsertUtterance {s s' : CaptureStore} {input : NewRealtimeUtterance}
    {expectedRevision : Option Nat} {shown : RealtimeUtterance}
    (h : s.upsertUtterance toLowercase input expectedRevision = .ok (s', shown)) : Keeps s s' := by
  obtain ⟨⟨⟩, _, h⟩ := bind_eq_ok.mp h
  obtain ⟨⟨⟩, _, h⟩ := bind_eq_ok.mp h
  obtain ⟨⟨⟩, _, h⟩ := bind_eq_ok.mp h
  obtain ⟨⟨⟩, _, h⟩ := bind_eq_ok.mp h
  split at h
  · obtain ⟨⟨⟩, _, h⟩ := bind_eq_ok.mp h
    obtain ⟨visible, _, h⟩ := bind_eq_ok.mp h
    cases h
    exact Keeps.refl s
  · exact keeps_upsertPartialUtterance h

theorem keeps_upsertTranslationVariantOperation {s s' : CaptureStore} {sequence : Nat}
    {update : RealtimeTranslationLaneUpdate} {shown : RealtimeUtterance}
    (h : s.upsertTranslationVariant sequence update = .ok (s', shown)) : Keeps s s' := by
  obtain ⟨⟨⟩, _, h⟩ := bind_eq_ok.mp h
  obtain ⟨⟨⟩, _, h⟩ := bind_eq_ok.mp h
  obtain ⟨⟨⟩, _, h⟩ := bind_eq_ok.mp h
  exact (keepsShowing_upsertTranslationVariant h).1

theorem keeps_markUnavailable {s s' : CaptureStore} {lane : Nat × String}
    (h : CaptureStore.markUnavailable s lane = .ok s') : Keeps s s' := by
  obtain ⟨⟨mid, visible⟩, hwrite, h⟩ := bind_eq_ok.mp h
  cases h
  exact (keepsShowing_upsertTranslationVariant hwrite).1

theorem keeps_markWaiting {s s' : CaptureStore} (h : s.markWaitingTranslationVariantsUnavailable = .ok s') :
    Keeps s s' := by
  obtain ⟨⟨⟩, _, h⟩ := bind_eq_ok.mp h
  exact foldlM_relates Keeps.refl (fun _ _ _ => Keeps.trans) (fun _ _ _ _ => keeps_markUnavailable) h

/-! ## Withdrawals and edits -/

/-- A source that is not Final may be withdrawn. -/
theorem keeps_withdrawnSource {s : CaptureStore} {u : RealtimeUtterance} (hu : u ∈ s.utterances)
    (hunsettled : u.completion = .partial_) : Keeps s (s.updateUtterance u.id CaptureStore.withdrawnSource) := by
  intro hs
  refine @keeps_updateUtterance s _ _ s.desiredRevision le_rfl ?_ hs
  intro u' hu' hid hok
  obtain rfl := hs.eq_of_id hu' hu hid
  have hopen : ∀ v ∈ u'.variants, v.role = .source → v.isFinal = false := by
    intro v hv hrole
    simp [RealtimeUtteranceVariant.isFinal, (hok.sourceFact v hv hrole).2, hunsettled]
  have hvariants : (CaptureStore.withdrawnSource u').variants = u'.variants.filter (·.role ≠ .source) := by
    rw [CaptureStore.withdrawnSource]
    cases hlane : u'.hasSourceLane with
    | true => rfl
    | false =>
      have hnone : ∀ v ∈ u'.variants, v.role ≠ .source := by
        intro v hv hrole
        rw [hok.hasSourceLane hv hrole] at hlane
        cases hlane
      exact (List.filter_eq_self.mpr fun v hv => decide_eq_true (hnone v hv)).symm
  obtain ⟨hok', hevolves⟩ := hok.withoutSource hopen hvariants rfl
  exact ⟨⟨rfl, rfl, Nat.le_succ _⟩, hok', hevolves⟩

/-- The withdrawal of a source fact that a row may have. -/
theorem keeps_withdrawal {s : CaptureStore} {u : RealtimeUtterance} (hu : u ∈ s.utterances)
    (hunsettled : u.sourceFactIsComplete = false) :
    Keeps s (if u.hasSourceFact then s.updateUtterance u.id CaptureStore.withdrawnSource else s) := by
  have hcompletion : u.completion = .partial_ := by
    cases hcompletion : u.completion with
    | partial_ => rfl
    | complete => simp [RealtimeUtterance.sourceFactIsComplete, hcompletion] at hunsettled
  split
  · exact keeps_withdrawnSource hu hcompletion
  · exact Keeps.refl s

/-- A row without a settled source and without a Ready translation has no Final lane. -/
theorem keeps_deleteWithdrawn {s : CaptureStore} {id : String} {u : RealtimeUtterance}
    (hu : s.byId id = some u) (hready : u.hasReadyTranslation = false) (hunsettled : u.completion = .partial_) :
    Keeps s (s.deleteUtterance id) := by
  obtain ⟨hmem, hid⟩ := mem_of_byId hu
  intro hs
  refine keeps_deleteUtterance ?_ hs
  intro u' hu' hid' v hv
  obtain rfl := hs.eq_of_id hu' hmem (hid'.trans hid.symm)
  rw [Bool.eq_false_iff]
  intro hfinal
  have hok := hs.rows u' hu'
  obtain ⟨hstate, hcompletion⟩ := isFinal_iff.mp hfinal
  cases hrole : v.role with
  | source =>
    rw [(hok.sourceFact v hv hrole).2, hunsettled] at hcompletion
    cases hcompletion
  | translation =>
    have hany : u'.hasReadyTranslation = true := by
      refine List.any_eq_true.mpr ⟨v, hv, ?_⟩
      simp [RealtimeUtteranceVariant.isReadyFact, hrole, hstate, hcompletion, (hok.ready v hv hstate).1]
    rw [hready] at hany
    cases hany

theorem keeps_collectWithdrawnRow {s s' : CaptureStore} {sequence : Nat} {id : String}
    {left : Option RealtimeUtterance} (h : s.collectWithdrawnRow sequence id = .ok (s', left)) : Keeps s s' := by
  obtain ⟨u, hu, h⟩ := bind_eq_ok.mp h
  split at h
  · obtain ⟨visible, _, h⟩ := bind_eq_ok.mp h
    cases h
    exact Keeps.refl s
  · next hready =>
    obtain ⟨⟨⟩, hunsettled, h⟩ := bind_eq_ok.mp h
    cases h
    exact keeps_deleteWithdrawn (orError_eq_ok.mp hu) (Bool.eq_false_iff.mpr hready)
      (of_decide_eq_true (Bool.and_eq_true_iff.mp (ensure_eq_ok.mp hunsettled)).2)

theorem keeps_applyTranslationUpdate {s s' : CaptureStore} {sequence : Nat}
    {update : Option RealtimeTranslationLaneUpdate}
    (h : s.applyTranslationUpdate sequence update = .ok s') : Keeps s s' := by
  cases update with
  | none =>
    cases h
    exact Keeps.refl s
  | some update =>
    obtain ⟨⟨mid, visible⟩, hwrite, h⟩ := bind_eq_ok.mp h
    cases h
    exact (keepsShowing_upsertTranslationVariant hwrite).1

theorem keeps_removePartialUtterance {s s' : CaptureStore} {sequence expectedRevision : Nat}
    {update : Option RealtimeTranslationLaneUpdate} {left : Option RealtimeUtterance}
    (h : s.removePartialUtterance toLowercase sequence expectedRevision update = .ok (s', left)) :
    Keeps s s' := by
  obtain ⟨⟨⟩, _, h⟩ := bind_eq_ok.mp h
  obtain ⟨⟨⟩, _, h⟩ := bind_eq_ok.mp h
  split at h
  · cases h
    exact Keeps.refl s
  · next u hu =>
    obtain ⟨⟨⟩, _, h⟩ := bind_eq_ok.mp h
    obtain ⟨⟨⟩, hunsettled, h⟩ := bind_eq_ok.mp h
    obtain ⟨⟨⟩, _, h⟩ := bind_eq_ok.mp h
    obtain ⟨mid, hupdate, h⟩ := bind_eq_ok.mp h
    obtain ⟨⟨rest, survives⟩, hbound, h⟩ := bind_eq_ok.mp h
    have hsettled := (Bool.not_eq_true' _).mp (ensure_eq_ok.mp hunsettled)
    have hwithdrawn := (keeps_withdrawal (mem_of_bySequence hu).1 hsettled).trans
      (keeps_applyTranslationUpdate hupdate)
    have hrest := hwithdrawn.trans (keeps_applyBound hbound)
    dsimp only at h
    split at h
    · cases h
      exact hrest
    · obtain ⟨last, hreconcile, h⟩ := bind_eq_ok.mp h
      exact (hrest.trans (keeps_reconcileTranslationInbox hreconcile)).trans (keeps_collectWithdrawnRow h)

/-- Every provider fact keeps the store. -/
theorem keeps_apply {s s' : CaptureStore} {op : CaptureOperation} (hfact : op.isProviderFact = true)
    (h : s.apply toLowercase op = .ok s') : Keeps s s' := by
  cases op with
  | upsertUtterance input expectedRevision =>
    obtain ⟨⟨mid, visible⟩, hop, h⟩ := bind_eq_ok.mp h
    cases h
    exact keeps_upsertUtterance hop
  | removePartialUtterance sequence expectedRevision update =>
    obtain ⟨⟨mid, left⟩, hop, h⟩ := bind_eq_ok.mp h
    cases h
    exact keeps_removePartialUtterance hop
  | upsertTranslationVariant sequence update =>
    obtain ⟨⟨mid, visible⟩, hop, h⟩ := bind_eq_ok.mp h
    cases h
    exact keeps_upsertTranslationVariantOperation hop
  | markWaitingUnavailable => exact keeps_markWaiting h
  | upsertInboxItem input => exact keeps_upsertTranslationInboxItem h
  | bindInboxItem key canonicalSequence => exact keeps_bindInboxItem h
  | bindInboxItemIfUnique key => exact keeps_bindTranslationInboxItemIfUnique h
  | reconcileActiveInbox => exact keeps_reconcileActive h
  | reconcileAfterRecovery rows =>
    obtain ⟨⟨⟩, _, h⟩ := bind_eq_ok.mp h
    exact keeps_reconcileAfterRecovery h
  | ackProjection revision => cases hfact
  | stage id utteranceId laneLanguage targetText expectedRevision => cases hfact
  | commit mutationId => cases hfact
  | cancel mutationId => cases hfact
  | finishCapture => cases hfact

/-! ## Runs -/

theorem storeOk_initial (sessionId : String) (speakers : List (String × String)) (foreignIds : List String) :
    StoreOk (.initial sessionId speakers foreignIds) where
  rows _ hu := absurd hu List.not_mem_nil
  ids := List.nodup_nil
  sequences := List.nodup_nil
  watermark := le_rfl

/-- What edits and acknowledgements leave alone. -/
structure SameRows (s s' : CaptureStore) : Prop where
  utterances : s'.utterances = s.utterances
  desired : s'.desiredRevision = s.desiredRevision

/-- The revision an operation acknowledges. -/
def CaptureOperation.acknowledged : CaptureOperation → Nat
  | .ackProjection revision => revision
  | _ => 0

theorem withoutEdits_stage {s s' : CaptureStore} {id utteranceId laneLanguage targetText : String}
    {expectedRevision : Nat}
    (h : s.stageUtteranceVariantReplacement id utteranceId laneLanguage targetText expectedRevision = .ok s') :
    s'.withoutEdits = s.withoutEdits := by
  obtain ⟨⟨⟩, _, h⟩ := bind_eq_ok.mp h
  obtain ⟨⟨⟩, _, h⟩ := bind_eq_ok.mp h
  obtain ⟨utterance, _, h⟩ := bind_eq_ok.mp h
  obtain ⟨variant, _, h⟩ := bind_eq_ok.mp h
  obtain ⟨⟨⟩, _, h⟩ := bind_eq_ok.mp h
  obtain ⟨⟨⟩, _, h⟩ := bind_eq_ok.mp h
  obtain ⟨⟨⟩, _, h⟩ := bind_eq_ok.mp h
  obtain ⟨⟨⟩, _, h⟩ := bind_eq_ok.mp h
  split at h
  · obtain ⟨⟨⟩, _, h⟩ := bind_eq_ok.mp h
    cases h
    rfl
  · obtain ⟨⟨⟩, _, h⟩ := bind_eq_ok.mp h
    cases h
    rfl

theorem withoutEdits_commit {s s' : CaptureStore} {mutationId : String}
    (h : s.commitProjectionMutation mutationId = .ok s') : s'.withoutEdits = s.withoutEdits := by
  obtain ⟨mutation, _, h⟩ := bind_eq_ok.mp h
  obtain ⟨⟨⟩, _, h⟩ := bind_eq_ok.mp h
  obtain ⟨current, _, h⟩ := bind_eq_ok.mp h
  obtain ⟨variant, _, h⟩ := bind_eq_ok.mp h
  obtain ⟨⟨⟩, _, h⟩ := bind_eq_ok.mp h
  obtain ⟨⟨⟩, _, h⟩ := bind_eq_ok.mp h
  obtain ⟨⟨⟩, _, h⟩ := bind_eq_ok.mp h
  obtain ⟨visible, _, h⟩ := bind_eq_ok.mp h
  cases h
  rfl

theorem sameRows_of_withoutEdits {s s' : CaptureStore} (h : s'.withoutEdits = s.withoutEdits) :
    SameRows s s' ∧ s'.appliedRevision = s.appliedRevision :=
  ⟨⟨congrArg (fun t => t.utterances) h, congrArg (fun t => t.desiredRevision) h⟩,
    congrArg (fun t => t.appliedRevision) h⟩

/-- An edit or an acknowledgement. -/
theorem sameRows_apply {s s' : CaptureStore} {op : CaptureOperation} (hfact : op.isProviderFact = false)
    (h : s.apply toLowercase op = .ok s') :
    SameRows s s' ∧ s'.appliedRevision = max s.appliedRevision op.acknowledged ∧
      op.acknowledged ≤ s.desiredRevision := by
  cases op with
  | ackProjection revision =>
    obtain ⟨⟨⟩, hle, h⟩ := bind_eq_ok.mp h
    cases h
    exact ⟨⟨rfl, rfl⟩, rfl, of_decide_eq_true (ensure_eq_ok.mp hle)⟩
  | stage id utteranceId laneLanguage targetText expectedRevision =>
    obtain ⟨hsame, happlied⟩ := sameRows_of_withoutEdits (withoutEdits_stage h)
    exact ⟨hsame, happlied.trans (Nat.max_zero _).symm, Nat.zero_le _⟩
  | commit mutationId =>
    obtain ⟨hsame, happlied⟩ := sameRows_of_withoutEdits (withoutEdits_commit h)
    exact ⟨hsame, happlied.trans (Nat.max_zero _).symm, Nat.zero_le _⟩
  | cancel mutationId | finishCapture =>
    cases h
    exact ⟨⟨rfl, rfl⟩, (Nat.max_zero _).symm, Nat.zero_le _⟩
  | _ => cases hfact

theorem apply_of_step {s s' : CaptureStore} {op : CaptureOperation} (h : s.step toLowercase op = some s') :
    s.apply toLowercase op = .ok s' := by
  rw [CaptureStore.step] at h
  cases happly : s.apply toLowercase op with
  | error err =>
    rw [happly] at h
    cases h
  | ok mid =>
    rw [happly] at h
    rw [Option.some.inj h]

theorem evolves_step {s s' : CaptureStore} {op : CaptureOperation} (h : s.step toLowercase op = some s')
    (hs : StoreOk s) :
    (StoreOk s' ∧ Evolves s s') ∧ s'.appliedRevision = max s.appliedRevision op.acknowledged := by
  cases hfact : op.isProviderFact with
  | true =>
    obtain ⟨hkeeps, hleaves⟩ := keeps_apply hfact (apply_of_step h) hs
    have hzero : op.acknowledged = 0 := by
      cases op with
      | ackProjection revision => cases hfact
      | _ => rfl
    rw [hleaves.applied, hzero, Nat.max_zero]
    exact ⟨hkeeps, rfl⟩
  | false =>
    obtain ⟨hsame, happlied, hle⟩ := sameRows_apply hfact (apply_of_step h)
    obtain ⟨hok, hevolves⟩ := @StoreOk.of_same s { s' with appliedRevision := s.appliedRevision } hs
      hsame.utterances hsame.desired rfl
    refine ⟨⟨?_, ?_⟩, happlied⟩
    · refine { hok with watermark := ?_ }
      rw [happlied, hsame.desired]
      exact max_le hs.watermark hle
    · refine { hevolves with applied := ?_ }
      rw [happlied]
      exact le_max_left _ _

theorem evolves_run {s s' : CaptureStore} {ops : List CaptureOperation} (h : CaptureRun toLowercase s ops s')
    (hs : StoreOk s) : StoreOk s' ∧ Evolves s s' := by
  have hrelates := Run.relates (R := fun s s' => StoreOk s → StoreOk s' ∧ Evolves s s')
    (fun s hs => ⟨hs, hs.evolves_refl⟩)
    (fun a b c hab hbc ha => ⟨(hbc (hab ha).1).1, (hab ha).2.trans (hbc (hab ha).1).2⟩)
    (fun s op s' hstep hs => (evolves_step hstep hs).1) h
  exact hrelates hs

theorem Reachable.storeOk {s : CaptureStore} (h : Reachable toLowercase s) : StoreOk s := by
  obtain ⟨sessionId, speakers, foreignIds, ops, hrun⟩ := h
  exact (evolves_run hrun (storeOk_initial sessionId speakers foreignIds)).1

/-- The applied revision is the highest one acknowledged. -/
theorem appliedRevision_le {s s' : CaptureStore} {ops : List CaptureOperation} {revision : Nat}
    (h : CaptureRun toLowercase s ops s') (hs : StoreOk s) (hle : s.appliedRevision ≤ revision)
    (hacks : ∀ op ∈ ops, op.acknowledged ≤ revision) : s'.appliedRevision ≤ revision := by
  induction h with
  | nil s => exact hle
  | @cons s mid s' op ops hstep _ ih =>
    obtain ⟨⟨hmid, -⟩, happlied⟩ := evolves_step hstep hs
    apply ih hmid
    · rw [happlied]
      exact max_le hle (hacks op List.mem_cons_self)
    · exact fun op hop => hacks op (List.mem_cons_of_mem _ hop)

/-- Final lanes are append-only, and no two lanes of a row have one language. -/
theorem final_lanes_append_only {s s' : CaptureStore} {ops : List CaptureOperation}
    (hs : Reachable toLowercase s) (h : CaptureRun toLowercase s ops s') :
    (∀ u ∈ s.utterances, (u.variants.map (·.tag)).Nodup) ∧
      ∀ u ∈ s.utterances, ∀ v ∈ u.variants, v.isFinal = true →
        ∃ u' ∈ s'.utterances, u'.id = u.id ∧ u'.sequence = u.sequence ∧
          ∃ v' ∈ u'.variants, Continues v v' := by
  obtain ⟨-, hevolves⟩ := evolves_run h hs.storeOk
  refine ⟨fun u hu => (hs.storeOk.rows u hu).distinct, ?_⟩
  intro u hu v hv hfinal
  obtain ⟨u', hu', hid, hsequence, -, hlane⟩ := hevolves.kept u hu v hv hfinal
  exact ⟨u', hu', hid, hsequence, hlane⟩

/-- One utterance and a segment of its translation, for the examples below. -/
def sampleUtterance (language : String) (completion : UtteranceCompletion) : NewRealtimeUtterance :=
  { id := "u", sequence := 0, sessionSpeakerId := none, sourceLanguage := language, sourceText := "hi"
    sourceStartMs := none, sourceEndMs := none, translatedLanguage := none, translatedText := none
    completion, alignment := .sourceOnly }

def sampleSegment : NewRealtimeTranslationInboxItem :=
  { key := { sessionId := "s", laneIndex := 0, groupEpoch := 0, providerSequence := 0, targetLanguage := "zh" }
    sourceLanguage := "en", sourceText := "hi", sourceStartMs := none, sourceEndMs := none
    translatedText := some "ni", completion := some .complete, withdrawn := false }

def asciiLowercase (c : Char) : List Char := [c.toLower]

theorem final_lanes_append_only_sample :
    ∃ s, Reachable asciiLowercase s ∧ (∃ u ∈ s.utterances, ∃ v ∈ u.variants, v.isFinal = true) ∧
      ∀ ops s', CaptureRun asciiLowercase s ops s' →
        ∃ u' ∈ s'.utterances, ∃ v' ∈ u'.variants, v'.isFinal = true := by
  have hexec : (exec (CaptureStore.step asciiLowercase) (.initial "s" [] [])
      [.upsertUtterance (sampleUtterance "en" .complete) none]).any
      (fun s => decide (∃ u ∈ s.utterances, ∃ v ∈ u.variants, v.isFinal = true)) = true := by
    decide +kernel
  obtain ⟨s, hrun, hfinal⟩ := exists_run_of_exec hexec
  have hs : Reachable asciiLowercase s := ⟨_, _, _, _, hrun⟩
  refine ⟨s, hs, hfinal, ?_⟩
  intro ops s' h
  obtain ⟨u, hu, v, hv, hvfinal⟩ := hfinal
  obtain ⟨u', hu', -, -, v', hv', hcontinues⟩ := (final_lanes_append_only hs h).2 u hu v hv hvfinal
  exact ⟨u', hu', v', hv', hcontinues.final⟩

/-- Rows have ids and sequences of their own, a Ready lane is filled, and the source lane of a row, of
which there is at most one, is that of its language and as complete as the row. -/
theorem rows_in_order {s : CaptureStore} (hs : Reachable toLowercase s) :
    (s.utterances.map (·.id)).Nodup ∧ (s.utterances.map (·.sequence)).Nodup ∧
      ∀ u ∈ s.utterances, ∀ v ∈ u.variants,
        (v.state = .ready → v.text.isSome ∧ v.completion.isSome) ∧
          (v.role = .source → v.tag = canonicalLanguage u.sourceLanguage ∧ v.completion = some u.completion ∧
            ∀ w ∈ u.variants, w.role = .source → w = v) := by
  refine ⟨hs.storeOk.ids, hs.storeOk.sequences, ?_⟩
  intro u hu v hv
  have hrow := hs.storeOk.rows u hu
  refine ⟨hrow.ready v hv, fun hrole => ⟨hrow.sourceTag v hv hrole, (hrow.sourceFact v hv hrole).2, ?_⟩⟩
  intro w hw hsource
  exact hrow.eq_of_tag hw hv ((hrow.sourceTag w hw hsource).trans (hrow.sourceTag v hv hrole).symm)

theorem rows_in_order_sample : ∃ s, Reachable asciiLowercase s ∧
    ∃ u ∈ s.utterances, ∀ v ∈ u.variants, v.state = .ready → v.text.isSome ∧ v.completion.isSome := by
  have hexec : (exec (CaptureStore.step asciiLowercase) (.initial "s" [] [])
      [.upsertUtterance (sampleUtterance "en" .complete) none]).any (fun s => decide (s.utterances ≠ [])) = true := by
    decide +kernel
  obtain ⟨s, hrun, hne⟩ := exists_run_of_exec hexec
  have hs : Reachable asciiLowercase s := ⟨_, _, _, _, hrun⟩
  obtain ⟨u, hu⟩ := List.exists_mem_of_ne_nil _ hne
  exact ⟨s, hs, u, hu, fun v hv => ((rows_in_order hs).2.2 u hu v hv).1⟩

/-! ## The watermark -/

/-- A Final lane that a state lacks, or has otherwise. -/
def LaneIsNew (s : CaptureStore) (u' : RealtimeUtterance) (v' : RealtimeUtteranceVariant) : Prop :=
  v'.isFinal = true ∧ ∀ u ∈ s.utterances, u.id = u'.id → v' ∉ u.variants

theorem stamped_of_laneIsNew {s s' : CaptureStore} {ops : List CaptureOperation} (hs : StoreOk s)
    (h : CaptureRun toLowercase s ops s') {u' : RealtimeUtterance} {v' : RealtimeUtteranceVariant}
    (hu' : u' ∈ s'.utterances) (hv' : v' ∈ u'.variants) (hnew : LaneIsNew s u' v') :
    s.desiredRevision < v'.projectionRevision ∧ v'.projectionRevision ≤ s'.desiredRevision := by
  obtain ⟨hs', hevolves⟩ := evolves_run h hs
  have hstamped := (hs'.rows u' hu').stamped v' hv' hnew.1
  cases hevolves.fresh u' hu' v' hv' hnew.1 with
  | inl hold =>
    obtain ⟨u, hu, hid, hv⟩ := hold
    exact absurd hv (hnew.2 u hu hid)
  | inr hfresh => exact ⟨hfresh, hstamped.2⟩

/-- The watermark of a session and the stamps of its lanes. -/
structure WatermarkOk (s : CaptureStore) : Prop where
  applied : s.appliedRevision ≤ s.desiredRevision
  final : ∀ u ∈ s.utterances, ∀ v ∈ u.variants, v.isFinal = true →
    1 ≤ v.projectionRevision ∧ v.projectionRevision ≤ s.desiredRevision
  open_ : ∀ u ∈ s.utterances, ∀ v ∈ u.variants, v.isFinal = false → v.projectionRevision = 0

theorem StoreOk.watermarkOk {s : CaptureStore} (h : StoreOk s) : WatermarkOk s where
  applied := h.watermark
  final u hu := (h.rows u hu).stamped
  open_ u hu := (h.rows u hu).unstamped

/-- The watermark stands for the Final lanes. A transaction never loses one, and stamps
each that it adds or changes beyond the old desired revision; so while nothing beyond a
snapshot is acknowledged, a Final lane that the snapshot lacks leaves the session pending. -/
theorem projection_watermark_complete {s : CaptureStore} (hs : Reachable toLowercase s) :
    WatermarkOk s ∧
      (∀ op s', s.step toLowercase op = some s' →
        s.appliedRevision ≤ s'.appliedRevision ∧
        (∀ u ∈ s.utterances, ∀ v ∈ u.variants, v.isFinal = true →
          ∃ u' ∈ s'.utterances, u'.id = u.id ∧ ∃ v' ∈ u'.variants, Continues v v') ∧
        ∀ u' ∈ s'.utterances, ∀ v' ∈ u'.variants, LaneIsNew s u' v' →
          s.desiredRevision < v'.projectionRevision ∧ v'.projectionRevision ≤ s'.desiredRevision) ∧
      ∀ ops s', CaptureRun toLowercase s ops s' →
        (∀ op ∈ ops, op.acknowledged ≤ s.desiredRevision) →
        ∀ u' ∈ s'.utterances, ∀ v' ∈ u'.variants, LaneIsNew s u' v' →
          s'.appliedRevision < s'.desiredRevision := by
  refine ⟨hs.storeOk.watermarkOk, ?_, ?_⟩
  · intro op s' hstep
    have hrun : CaptureRun toLowercase s [op] s' := Run.single hstep
    obtain ⟨-, hevolves⟩ := evolves_run hrun hs.storeOk
    refine ⟨hevolves.applied, ?_, fun u' hu' v' hv' => stamped_of_laneIsNew hs.storeOk hrun hu' hv'⟩
    intro u hu v hv hfinal
    obtain ⟨u', hu', hid, -, -, hcontinues⟩ := hevolves.kept u hu v hv hfinal
    exact ⟨u', hu', hid, hcontinues⟩
  · intro ops s' hrun hacks u' hu' v' hv' hnew
    have hstamped := stamped_of_laneIsNew hs.storeOk hrun hu' hv' hnew
    have happlied := appliedRevision_le hrun hs.storeOk hs.storeOk.watermark hacks
    omega

instance (s : CaptureStore) (u' : RealtimeUtterance) (v' : RealtimeUtteranceVariant) :
    Decidable (LaneIsNew s u' v') :=
  inferInstanceAs (Decidable (_ ∧ _))

/-- A row whose source and translation are partial, and the write that makes both Final. -/
theorem exists_sampleStep (p : CaptureStore → CaptureStore → Prop) [∀ s s', Decidable (p s s')]
    (h : (exec (CaptureStore.step asciiLowercase) (.initial "s" [] [])
      [.upsertUtterance (sampleUtterance "en" .partial_) none, .upsertInboxItem sampleSegment]).any
      (fun s => decide ((s.step asciiLowercase (.upsertUtterance (sampleUtterance "en" .complete) (some 0))).any
        (fun s' => decide (p s s')) = true)) = true) :
    ∃ s s', Reachable asciiLowercase s ∧
      s.step asciiLowercase (.upsertUtterance (sampleUtterance "en" .complete) (some 0)) = some s' ∧ p s s' := by
  obtain ⟨s, hrun, hstep⟩ := exists_run_of_exec h
  obtain ⟨s', hs', hp⟩ := (Option.any_eq_true _ _).mp hstep
  exact ⟨s, s', ⟨_, _, _, _, hrun⟩, hs', of_decide_eq_true hp⟩

theorem projection_watermark_complete_sample :
    ∃ s s', Reachable asciiLowercase s ∧
      CaptureRun asciiLowercase s [.upsertUtterance (sampleUtterance "en" .complete) (some 0)] s' ∧
      s'.appliedRevision < s'.desiredRevision := by
  obtain ⟨s, s', hs, hstep, u', hu', v', hv', hnew⟩ := exists_sampleStep
    (fun s s' => ∃ u' ∈ s'.utterances, ∃ v' ∈ u'.variants, LaneIsNew s u' v') (by decide +kernel)
  have hrun : CaptureRun asciiLowercase s [_] s' := Run.single hstep
  refine ⟨s, s', hs, hrun, ?_⟩
  apply (projection_watermark_complete hs).2.2 _ s' hrun _ u' hu' v' hv' hnew
  intro op hop
  obtain rfl := List.mem_singleton.mp hop
  exact Nat.zero_le _

/-- One transaction may stamp two lanes: the one it stamps first is behind the new desired
revision. -/
theorem projection_stamp_behind_desired :
    ¬ ∀ s op s', Reachable asciiLowercase s → s.step asciiLowercase op = some s' →
      ∀ u' ∈ s'.utterances, ∀ v' ∈ u'.variants, LaneIsNew s u' v' →
        v'.projectionRevision = s'.desiredRevision := by
  intro hclaim
  obtain ⟨s, s', hs, hstep, u', hu', v', hv', hnew, hbehind⟩ := exists_sampleStep
    (fun s s' => ∃ u' ∈ s'.utterances, ∃ v' ∈ u'.variants,
      LaneIsNew s u' v' ∧ v'.projectionRevision ≠ s'.desiredRevision) (by decide +kernel)
  exact hbehind (hclaim s _ s' hs hstep u' hu' v' hv' hnew)

end

end Zulangue.Capture
