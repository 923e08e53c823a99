import Zulangue.Capture.Twin

/-!
# Runs with edits

As long as no edit is committed on a source lane whose language is still `und`, each edit
keeps its lane, and a provider fact is accepted as in the same session without edits.
-/

namespace Zulangue.Capture

open Zulangue.Lib Zulangue.Lib.Fallible

section
variable {toLowercase : Char → List Char}

/-- Edits and acknowledgements leave the rows, so what they leave of the edits still fits. -/
theorem EditsOk.of_sameRows {s s' : CaptureStore} (h : EditsOk s) (hstore : StoreOk s') (hsame : SameRows s s')
    (hoverrides : ∀ o ∈ s'.overrides, o ∈ s.overrides ∨ (OverrideFits s' o ∧ o.onUnidentifiedSource = false))
    (hmutations : ∀ m ∈ s'.mutations, m ∈ s.mutations ∨
      ∃ u ∈ s.utterances, u.id = m.utteranceId ∧ ∃ v ∈ u.variants, v.isFinal = true) : EditsOk s' := by
  refine ⟨hstore, ?_, ?_, ?_⟩
  · intro o ho
    cases hoverrides o ho with
    | inl hold =>
      obtain ⟨hedited, u, hu, hlane⟩ := h.fits o hold
      exact ⟨hedited, u, hsame.utterances ▸ hu, hlane⟩
    | inr hnew => exact hnew.1
  · intro o ho
    cases hoverrides o ho with
    | inl hold => exact h.identified o hold
    | inr hnew => exact hnew.2
  · intro m hm
    rw [hsame.utterances]
    cases hmutations m hm with
    | inl hold => exact h.staged m hold
    | inr hnew => exact hnew

theorem staged_of_stage {s s' : CaptureStore} {id utteranceId laneLanguage targetText : String}
    {expectedRevision : Nat}
    (h : s.stageUtteranceVariantReplacement id utteranceId laneLanguage targetText expectedRevision = .ok s') :
    s'.overrides = s.overrides ∧ ∀ m ∈ s'.mutations, m ∈ s.mutations ∨
      ∃ u ∈ s.utterances, u.id = m.utteranceId ∧ ∃ v ∈ u.variants, v.isFinal = true := by
  obtain ⟨⟨⟩, _, h⟩ := bind_eq_ok.mp h
  obtain ⟨⟨⟩, _, h⟩ := bind_eq_ok.mp h
  obtain ⟨u, hu, h⟩ := bind_eq_ok.mp h
  obtain ⟨v, hv, h⟩ := bind_eq_ok.mp h
  obtain ⟨⟨⟩, hfinal, h⟩ := bind_eq_ok.mp h
  obtain ⟨⟨⟩, _, h⟩ := bind_eq_ok.mp h
  obtain ⟨⟨⟩, _, h⟩ := bind_eq_ok.mp h
  obtain ⟨⟨⟩, _, h⟩ := bind_eq_ok.mp h
  split at h
  · obtain ⟨⟨⟩, _, h⟩ := bind_eq_ok.mp h
    cases h
    exact ⟨rfl, fun m hm => .inl hm⟩
  · obtain ⟨⟨⟩, _, h⟩ := bind_eq_ok.mp h
    cases h
    refine ⟨rfl, fun m hm => ?_⟩
    cases List.mem_append.mp hm with
    | inl hold => exact .inl hold
    | inr hnew =>
      obtain rfl := List.mem_singleton.mp hnew
      obtain ⟨hmem, hid⟩ := mem_of_byId (orError_eq_ok.mp hu)
      exact .inr ⟨u, hmem, hid, v, List.mem_of_find?_eq_some (orError_eq_ok.mp hv),
        (Bool.and_eq_true_iff.mp (ensure_eq_ok.mp hfinal)).1⟩

/-- Whether a commit puts an edit on a source lane whose language is not known. -/
def CaptureStore.commitsUnidentifiedSource (s : CaptureStore) : CaptureOperation → Bool
  | .commit mutationId =>
    s.mutations.any fun m =>
      m.id = mutationId && m.lane = .source && canonicalLanguage m.laneLanguage = "und"
  | _ => false

theorem fits_of_commit {s s' : CaptureStore} {mutationId : String}
    (h : s.commitProjectionMutation mutationId = .ok s')
    (hidentified : s.commitsUnidentifiedSource (.commit mutationId) = false) :
    (∀ o ∈ s'.overrides, o ∈ s.overrides ∨ (OverrideFits s' o ∧ o.onUnidentifiedSource = false)) ∧
      ∀ m ∈ s'.mutations, m ∈ s.mutations := by
  obtain ⟨m, hm, h⟩ := bind_eq_ok.mp h
  obtain ⟨⟨⟩, _, h⟩ := bind_eq_ok.mp h
  obtain ⟨u, hu, h⟩ := bind_eq_ok.mp h
  obtain ⟨v, hv, h⟩ := bind_eq_ok.mp h
  obtain ⟨⟨⟩, hlane, h⟩ := bind_eq_ok.mp h
  obtain ⟨⟨⟩, _, h⟩ := bind_eq_ok.mp h
  obtain ⟨⟨⟩, _, h⟩ := bind_eq_ok.mp h
  obtain ⟨visible, _, h⟩ := bind_eq_ok.mp h
  cases h
  have hm := orError_eq_ok.mp hm
  refine ⟨?_, fun m' hm' => List.mem_of_mem_filter hm'⟩
  intro o ho
  cases List.mem_append.mp ho with
  | inl hold => exact .inl (List.mem_of_mem_filter hold)
  | inr hnew =>
    obtain rfl := List.mem_singleton.mp hnew
    obtain ⟨hmem, hid⟩ := mem_of_byId (orError_eq_ok.mp hu)
    have hfind := orError_eq_ok.mp hv
    have htag : v.tag = canonicalLanguage m.laneLanguage := of_decide_eq_true (List.find?_some hfind :)
    have hlane := ensure_eq_ok.mp hlane
    simp only [Bool.and_eq_true, decide_eq_true_eq] at hlane
    obtain ⟨⟨hrole, hfinal⟩, hrevision⟩ := hlane
    refine .inr ⟨⟨Nat.succ_ne_zero _, u, hmem, hid, le_rfl, v, List.mem_of_find?_eq_some hfind, ?_, hrole,
      hfinal, hrevision.ge⟩, ?_⟩
    · exact htag.trans (canonicalLanguage_canonicalLanguage _).symm
    · have hnot := List.any_eq_false.mp hidentified m (List.mem_of_find?_eq_some hm)
      have hid : m.id = mutationId := of_decide_eq_true (List.find?_some hm :)
      rw [decide_eq_true hid, Bool.true_and] at hnot
      change (decide (m.lane = .source) &&
        decide (canonicalLanguage (canonicalLanguage m.laneLanguage) = "und")) = false
      rw [canonicalLanguage_canonicalLanguage]
      exact Bool.eq_false_iff.mpr hnot

theorem editsOk_step {s s' : CaptureStore} {op : CaptureOperation} (h : EditsOk s)
    (hstep : s.step toLowercase op = some s') (hidentified : s.commitsUnidentifiedSource op = false) :
    EditsOk s' := by
  have happly := apply_of_step hstep
  have hstore := (evolves_step hstep h.store).1.1
  cases hfact : op.isProviderFact with
  | true => exact h.keeps (keeps_apply hfact happly)
  | false =>
    obtain ⟨hsame, -⟩ := sameRows_apply hfact happly
    cases op with
    | ackProjection revision =>
      obtain ⟨⟨⟩, _, happly⟩ := bind_eq_ok.mp happly
      cases happly
      exact h.of_sameRows hstore hsame (fun o ho => .inl ho) fun m hm => .inl hm
    | stage id utteranceId laneLanguage targetText expectedRevision =>
      obtain ⟨hoverrides, hmutations⟩ := staged_of_stage happly
      exact h.of_sameRows hstore hsame (fun o ho => .inl (hoverrides ▸ ho)) hmutations
    | commit mutationId =>
      obtain ⟨hoverrides, hmutations⟩ := fits_of_commit happly hidentified
      exact h.of_sameRows hstore hsame hoverrides fun m hm => .inl (hmutations m hm)
    | cancel mutationId =>
      cases happly
      exact h.of_sameRows hstore hsame (fun o ho => .inl ho) fun m hm => .inl (List.mem_of_mem_filter hm)
    | finishCapture =>
      cases happly
      exact h.of_sameRows hstore hsame (fun o ho => .inl ho) fun m hm => .inl hm
    | _ => cases hfact

/-- Committed transactions of which none commits an edit of an unidentified source lane. -/
def IdentifiedRun (toLowercase : Char → List Char) :
    CaptureStore → List CaptureOperation → CaptureStore → Prop :=
  Run fun s op s' => s.step toLowercase op = some s' ∧ s.commitsUnidentifiedSource op = false

theorem editsOk_run {s s' : CaptureStore} {ops : List CaptureOperation} (h : IdentifiedRun toLowercase s ops s')
    (hs : EditsOk s) : EditsOk s' :=
  Run.invariant (I := EditsOk) (fun _ _ _ hs hstep => editsOk_step hs hstep.1 hstep.2) h hs

theorem editsOk_initial (sessionId : String) (speakers : List (String × String)) (foreignIds : List String) :
    EditsOk (.initial sessionId speakers foreignIds) where
  store := storeOk_initial sessionId speakers foreignIds
  fits _ ho := absurd ho List.not_mem_nil
  identified _ ho := absurd ho List.not_mem_nil
  staged _ hm := absurd hm List.not_mem_nil

/-- Stagings, commits and cancellations. -/
def CaptureOperation.isEdit : CaptureOperation → Bool
  | .stage .. | .commit _ | .cancel _ => true
  | _ => false

theorem step_of_apply {s s' : CaptureStore} {op : CaptureOperation} (h : s.apply toLowercase op = .ok s') :
    s.step toLowercase op = some s' := by
  rw [CaptureStore.step, h]
  rfl

/-- One step of the session without edits: none where an edit was made. -/
theorem step_withoutEdits {s s' : CaptureStore} {op : CaptureOperation} (h : EditsOk s)
    (hstep : s.step toLowercase op = some s') :
    if op.isEdit then s'.withoutEdits = s.withoutEdits
    else s.withoutEdits.step toLowercase op = some s'.withoutEdits := by
  have happly := apply_of_step hstep
  cases hfact : op.isProviderFact with
  | true =>
    have hagree := @agree_apply toLowercase s h op hfact
    rw [happly] at hagree
    have hnotEdit : op.isEdit = false := by
      cases op with
      | stage id utteranceId laneLanguage targetText expectedRevision => cases hfact
      | commit mutationId => cases hfact
      | cancel mutationId => cases hfact
      | _ => rfl
    rw [if_neg (by rw [hnotEdit]; exact Bool.false_ne_true)]
    generalize hresult : s.withoutEdits.apply toLowercase op = result at hagree
    cases hagree with
    | ok htwin =>
      rw [← htwin.erased]
      exact step_of_apply hresult
  | false =>
    cases op with
    | ackProjection revision =>
      obtain ⟨⟨⟩, hle, happly⟩ := bind_eq_ok.mp happly
      cases happly
      exact step_of_apply (bind_eq_ok.mpr ⟨(), hle, rfl⟩)
    | stage id utteranceId laneLanguage targetText expectedRevision => exact withoutEdits_stage happly
    | commit mutationId => exact withoutEdits_commit happly
    | cancel mutationId =>
      cases happly
      rfl
    | finishCapture =>
      cases happly
      rfl
    | _ => cases hfact

/-- The same session without its edits. -/
theorem run_withoutEdits {s s' : CaptureStore} {ops : List CaptureOperation}
    (h : IdentifiedRun toLowercase s ops s') (hs : EditsOk s) :
    CaptureRun toLowercase s.withoutEdits (ops.filter (!·.isEdit)) s'.withoutEdits := by
  induction h with
  | nil s => exact .nil _
  | @cons s mid s' op ops hstep _ ih =>
    have hrest := ih (editsOk_step hs hstep.1 hstep.2)
    have hone := step_withoutEdits hs hstep.1
    cases hedit : op.isEdit with
    | true =>
      rw [hedit] at hone
      rw [List.filter_cons_of_neg (by simp [hedit])]
      rw [if_pos rfl] at hone
      rw [← hone]
      exact hrest
    | false =>
      rw [hedit] at hone
      rw [List.filter_cons_of_pos (by simp [hedit])]
      exact .cons hone hrest

/-- While no edit is committed on a source lane of unknown language, every edit fits its
lane, every row can be shown, and provider facts are accepted as in the session without
edits, which the same facts lead to. -/
theorem edits_keep_overlay {sessionId : String} {speakers : List (String × String)} {foreignIds : List String}
    {ops : List CaptureOperation} {s : CaptureStore}
    (h : IdentifiedRun toLowercase (.initial sessionId speakers foreignIds) ops s) :
    (∀ o ∈ s.overrides, OverrideFits s o) ∧
      (∃ shown, s.listUtterances = .ok shown) ∧
      CaptureRun toLowercase (.initial sessionId speakers foreignIds) (ops.filter (!·.isEdit)) s.withoutEdits ∧
      ∀ op, op.isProviderFact = true →
        ((∃ s', s.apply toLowercase op = .ok s') ↔ ∃ s', s.withoutEdits.apply toLowercase op = .ok s') := by
  have hinitial := editsOk_initial sessionId speakers foreignIds
  have hs := editsOk_run h hinitial
  exact ⟨hs.fits, exists_listUtterances hs, run_withoutEdits h hinitial,
    fun op hfact => (agree_apply hs hfact).exists_ok_iff⟩

end

/-- A Final source lane of a language, edited. -/
def editedSource (language : String) : List CaptureOperation :=
  [.upsertUtterance (sampleUtterance language .complete) none, .ackProjection 1,
    .stage "m" "u" language "ho" 0, .commit "m"]

theorem edits_keep_overlay_sample :
    ∃ s : CaptureStore, (∃ o ∈ s.overrides, o.text = "ho") ∧ (∃ shown, s.listUtterances = .ok shown) ∧
      ∃ s', s.apply asciiLowercase (.upsertInboxItem sampleSegment) = .ok s' := by
  have hexec : (exec
      (fun (s : CaptureStore) op =>
        if s.commitsUnidentifiedSource op = false then s.step asciiLowercase op else none)
      (.initial "s" [] []) (editedSource "en")).any
      (fun s => decide ((∃ o ∈ s.overrides, o.text = "ho") ∧
        (s.withoutEdits.step asciiLowercase (.upsertInboxItem sampleSegment)).isSome = true)) = true := by
    decide +kernel
  obtain ⟨s, hrun, hedited, haccepted⟩ := exists_run_of_exec hexec
  have hidentified : IdentifiedRun asciiLowercase (.initial "s" [] []) (editedSource "en") s := by
    refine hrun.mono fun s op s' hstep => ?_
    split at hstep
    · next hidentified => exact ⟨hstep, hidentified⟩
    · cases hstep
  obtain ⟨-, hshown, -, hagree⟩ := edits_keep_overlay hidentified
  obtain ⟨s', hs'⟩ := Option.isSome_iff_exists.mp haccepted
  exact ⟨s, hedited, hshown, (hagree _ rfl).mpr ⟨s', apply_of_step hs'⟩⟩

/-- An edit of a source lane still called `und` refuses the fact that names its language. -/
theorem edit_refuses_source_language :
    ¬ ∀ s op, Reachable asciiLowercase s → op.isProviderFact = true →
      (∃ s', s.withoutEdits.apply asciiLowercase op = .ok s') → ∃ s', s.apply asciiLowercase op = .ok s' := by
  intro hclaim
  have hexec : (exec (CaptureStore.step asciiLowercase) (.initial "s" [] []) (editedSource "und")).any
      (fun s => decide (((s.withoutEdits.step asciiLowercase (.upsertInboxItem sampleSegment)).isSome &&
        (s.step asciiLowercase (.upsertInboxItem sampleSegment)).isNone) = true)) = true := by
    decide +kernel
  obtain ⟨s, hrun, hfacts⟩ := exists_run_of_exec hexec
  obtain ⟨haccepted, hrefused⟩ := Bool.and_eq_true_iff.mp hfacts
  obtain ⟨s', hs'⟩ := Option.isSome_iff_exists.mp haccepted
  obtain ⟨t, ht⟩ := hclaim s _ ⟨_, _, _, _, hrun⟩ rfl ⟨s', apply_of_step hs'⟩
  rw [step_of_apply ht] at hrefused
  cases hrefused

end Zulangue.Capture
