import Zulangue.CaptureView.History
import Zulangue.Lib.Runs

/-!
# What is shown is current

Callbacks, direct results and repair snapshots in any order: as long as no snapshot comes late, the
view is that of the store at every revision handed to it, or is being repaired.
-/

namespace Zulangue.CaptureView

open Zulangue.Lib

/-! ## Runs -/

inductive Action where
  | deliver (event : Event)
  | beginTerminalTransition
  | audioFenceDidDrain
  | request
  | fails
  | reads (snapshot : Event)
  | replaceLane (updated : Utterance) (language : String)

def IsEvent (h : History) (event : Event) : Prop := IsDelta h event ∨ ∃ read, IsSnapshot h read event

inductive Step (h : History) : View → Action → View → Prop
  /-- A callback or a direct result, whenever it comes. -/
  | deliver {v : View} {event : Event} : IsEvent h event → Step h v (.deliver event) (v.apply event)
  | beginTerminalTransition {v : View} :
      Step h v .beginTerminalTransition
        { v with terminalTransitionDrainPending := true, pendingTerminalTransitionEvent := none }
  | audioFenceDidDrain {v : View} : v.terminalTransitionDrainPending = true →
      Step h v .audioFenceDidDrain v.audioFenceDidDrain
  | request {v : View} {repair : UtteranceGapRepair} : v.utteranceGapRepair = some repair →
      repair.requestedTargetEventRevision = none →
      Step h v .request
        { v with
          utteranceGapRepair := some
            { repair with requestedTargetEventRevision := some repair.targetEventRevision } }
  | fails {v : View} {repair : UtteranceGapRepair} : v.utteranceGapRepair = some repair →
      Step h v .fails { v with utteranceGapRepair := some { repair with requestedTargetEventRevision := none } }
  /-- The store is read after the request, so with every revision the request was made for. -/
  | reads {v : View} {repair : UtteranceGapRepair} {target read : Nat} {snapshot : Event} :
      v.utteranceGapRepair = some repair → repair.requestedTargetEventRevision = some target →
      IsSnapshot h read snapshot → target ≤ read →
      Step h v (.reads snapshot) (v.installSnapshot repair target snapshot)
  | replaceLane {v : View} {updated : Utterance} {language : String} :
      Step h v (.replaceLane updated language) { v with rows := v.rows.replaceLane updated language }

/-- No full snapshot is older than what was applied. A delta that ends the capture closes a run of
deltas without a gap. -/
def View.Timely (v : View) (event : Event) : Prop :=
  (event.isFullSnapshot = true → v.lastRevision ≤ event.eventRevision) ∧
    (event.isFullSnapshot = false → event.isActive = false → v.attached = true → ¬ v.Delayed event →
      v.utteranceGapRepair = none ∧ ∃ last, v.lastAppliedEventRevision = some last ∧ event.eventRevision ≤ last + 1)

/-- The row shown has the machine revision the lane was committed on, or has the committed lane
already. -/
def Rows.Caught (rows : Rows) (updated : Utterance) (language : String) : Prop :=
  ∀ entry ∈ rows.utterances, entry.2.id = updated.id → entry.2.revision = updated.revision ∨
    updated.revision < entry.2.revision ∧ rows.barriers updated.id language = none ∧
      (entry.2.lanes language).merging (updated.lanes language) = entry.2.lanes language

def Careful (v : View) : Action → Prop
  | .deliver event => ¬ v.PutsOff event → v.Timely event
  | .audioFenceDidDrain => ∀ event, v.pendingTerminalTransitionEvent = some event → v.drained.Timely event
  | .replaceLane updated language => v.utteranceGapRepair = none → v.rows.Caught updated language
  | _ => True

def CarefulStep (h : History) (v : View) (action : Action) (v' : View) : Prop := Step h v action v' ∧ Careful v action

/-- The rows and the cues shown are those of the store at the greatest revision handed over, or later. -/
structure View.Current (h : History) (v : View) : Prop where
  rows : ∀ sequence, RowShown h v.rows v.handed sequence
  cues : ∀ id, CueShown h v.translationCues v.handed id

/-! ## The invariant -/

structure UtteranceGapRepair.Ok (h : History) (repair : UtteranceGapRepair) : Prop where
  sorted : KeyMap.Sorted repair.bufferedDeltas
  deltas : ∀ delta ∈ repair.bufferedDeltas, IsDelta h delta.2 ∧ delta.2.eventRevision = delta.1 ∧
    delta.1 ≤ repair.targetEventRevision

structure View.Ok (h : History) (v : View) : Prop where
  sorted : KeyMap.Sorted v.rows.utterances
  reached : v.handed ≤ v.lastRevision
  pending : ∀ event, v.pendingTerminalTransitionEvent = some event → IsEvent h event
  repair : ∀ repair, v.utteranceGapRepair = some repair → repair.Ok h ∧ v.lastRevision ≤ repair.targetEventRevision
  rows : v.utteranceGapRepair = none → ∀ sequence, RowShown h v.rows v.lastRevision sequence
  cues : v.utteranceGapRepair = none → ∀ id, CueShown h v.translationCues v.lastRevision id

section
variable {h : History} {v v' : View}

theorem View.Ok.current (hok : v.Ok h) (hrepair : v.utteranceGapRepair = none) : v.Current h :=
  ⟨fun sequence => (hok.rows hrepair sequence).mono hok.reached, fun id => (hok.cues hrepair id).mono hok.reached⟩

theorem start_ok (h : History) : View.start.Ok h := by
  refine ⟨KeyMap.sorted_nil, Nat.le_refl _, fun _ hcontra => (by cases hcontra), fun _ hcontra => (by cases hcontra), ?_, ?_⟩
  · exact fun _ _ => ⟨0, Nat.le_refl _, .inl ⟨rfl, rfl⟩⟩
  · exact fun _ _ => ⟨0, Nat.le_refl _, rfl⟩

theorem sorted_upsert {rows : Rows} (hsorted : KeyMap.Sorted rows.utterances) (update : Utterance) :
    KeyMap.Sorted (rows.upsert update).utterances := by
  rw [Rows.upsert, upsertOrderedUtterance]
  split
  · split
    · exact KeyMap.sorted_insert hsorted _ _
    · exact hsorted
  · exact KeyMap.sorted_insert hsorted _ _

theorem sorted_merge {rows : Rows} (hsorted : KeyMap.Sorted rows.utterances) (updates : List Utterance) :
    KeyMap.Sorted (rows.merge updates).utterances := by
  induction updates generalizing rows with
  | nil => exact hsorted
  | cons update updates ih => exact ih (sorted_upsert hsorted update)

theorem sorted_replay {rows : Rows} (hsorted : KeyMap.Sorted rows.utterances) (deltas : List (Nat × Event)) :
    KeyMap.Sorted (deltas.foldl (fun rows delta => rows.merge delta.2.utterances) rows).utterances := by
  induction deltas generalizing rows with
  | nil => exact hsorted
  | cons delta deltas ih => exact ih (sorted_merge hsorted delta.2.utterances)

/-! ## Deltas and snapshots -/

theorem observe_ok {repair : UtteranceGapRepair} (hok : repair.Ok h) {event : Event} (hdelta : IsDelta h event) :
    (repair.observe event).Ok h ∧ event.eventRevision ≤ (repair.observe event).targetEventRevision := by
  have hobserved : ¬ (event.isFullSnapshot = true ∨ event.eventRevision = 0) := by
    rw [hdelta.isFullSnapshot]
    have hpositive := hdelta.eventRevision
    simp
    omega
  rw [UtteranceGapRepair.observe, if_neg hobserved]
  generalize maximumBufferedDeltaCount = count
  refine ⟨⟨?_, ?_⟩, Nat.le_max_right _ _⟩
  · exact List.Pairwise.sublist (List.drop_sublist _ _) (KeyMap.sorted_insert hok.sorted _ _)
  · intro delta hmem
    obtain rfl | hold := KeyMap.mem_insert (List.mem_of_mem_drop hmem)
    · exact ⟨hdelta, rfl, Nat.le_max_right _ _⟩
    · obtain ⟨hisDelta, hrevision, hle⟩ := hok.deltas delta hold
      exact ⟨hisDelta, hrevision, Nat.le_trans hle (Nat.le_max_left _ _)⟩

theorem begin_ok {event : Event} (hdelta : IsDelta h event) :
    (UtteranceGapRepair.observe ⟨event.eventRevision, [], none⟩ event).Ok h ∧
      event.eventRevision ≤ (UtteranceGapRepair.observe ⟨event.eventRevision, [], none⟩ event).targetEventRevision :=
  observe_ok ⟨KeyMap.sorted_nil, fun _ hmem => (by cases hmem)⟩ hdelta

/-- What `take` does to a delta that is not delayed. -/
theorem take_delta {event : Event} (hdelta : IsDelta h event) (hdelayed : ¬ v.Delayed event)
    (hnew : v.lastAppliedEventRevision ≠ some event.eventRevision) : v.lastRevision < event.eventRevision := by
  rw [View.lastRevision]
  cases hlast : v.lastAppliedEventRevision with
  | none => exact hdelta.eventRevision
  | some last =>
    rw [Option.getD_some]
    have hne : last ≠ event.eventRevision := fun heq => hnew (heq ▸ hlast)
    have hnot : ¬ event.eventRevision < last := fun hlt => hdelayed ⟨hdelta.isFullSnapshot, last, hlast, hlt⟩
    omega

/-- An event that ends the capture changes only what is repaired. -/
theorem View.Ok.terminal (hok : v.Ok h) (hrepair : v.attached = true → v.utteranceGapRepair = none) :
    v.enterLocalTerminal.Ok h ∧ v.enterLocalTerminal.lastRevision = v.lastRevision := by
  rw [View.enterLocalTerminal]
  split
  next hattached =>
    have hnone := hrepair hattached
    exact ⟨⟨hok.sorted, hok.reached, hok.pending, fun _ hcontra => (by cases hcontra), fun _ => hok.rows hnone,
      fun _ => hok.cues hnone⟩, rfl⟩
  · exact ⟨hok, rfl⟩

theorem View.Ok.ends (hok : v.Ok h) (event : Event)
    (hrepair : event.isActive = false → v.attached = true → v.utteranceGapRepair = none) :
    (if event.isActive then v else v.enterLocalTerminal).Ok h ∧
      (if event.isActive then v else v.enterLocalTerminal).lastRevision = v.lastRevision := by
  split
  · exact ⟨hok, rfl⟩
  next hends => exact hok.terminal (hrepair (Bool.eq_false_iff.mpr hends))

theorem View.Ok.takeSnapshot (hok : v.Ok h) (ok : h.Ok) {event : Event} {read : Nat} (hsnapshot : IsSnapshot h read event)
    (htimely : v.Timely event) : (v.take event).Ok h ∧ v.lastRevision ≤ (v.take event).lastRevision := by
  have hle := htimely.1 hsnapshot.isFullSnapshot
  have hdelayed : ¬ v.Delayed event := fun hdelayed => by
    have hfull := hdelayed.1
    rw [hsnapshot.isFullSnapshot] at hfull
    cases hfull
  have hreached := hok.reached
  have hreconciled : v.reconcileUtterances event =
      { v with
        utteranceGapRepair := none
        rows := v.rows.rebuiltUtteranceSnapshot event.utterances
        lastAppliedEventRevision := some event.eventRevision } := by
    rw [View.reconcileUtterances, hsnapshot.isFullSnapshot, if_pos rfl]
  rw [View.take, if_neg hdelayed, hreconciled]
  have hinstalled : View.Ok h { v with
      utteranceGapRepair := none
      rows := v.rows.rebuiltUtteranceSnapshot event.utterances
      lastAppliedEventRevision := some event.eventRevision
      translationCues := reconcileTranslationCues v.translationCues event
      handed := max v.handed event.eventRevision } := by
    refine ⟨sorted_merge KeyMap.sorted_nil _, ?_, hok.pending, fun _ hcontra => (by cases hcontra), ?_, ?_⟩
    · exact Nat.max_le.mpr ⟨Nat.le_trans hreached hle, Nat.le_refl _⟩
    · exact fun _ sequence => (RowShown.snapshot ok hsnapshot v.rows sequence).mono hsnapshot.eventRevision
    · exact fun _ id => (CueShown.snapshot ok hsnapshot v.translationCues id).mono hsnapshot.eventRevision
  obtain ⟨hok', hlast⟩ := hinstalled.ends event fun _ _ => rfl
  exact ⟨hok', Nat.le_trans hle (Nat.le_of_eq hlast.symm)⟩

theorem View.Ok.takeDelta (hok : v.Ok h) (ok : h.Ok) {event : Event} (hdelta : IsDelta h event)
    (htimely : v.Timely event) : (v.take event).Ok h ∧ v.lastRevision ≤ (v.take event).lastRevision := by
  have hreached := hok.reached
  by_cases hdelayed : v.Delayed event
  · -- A delayed delta changes nothing.
    rw [View.take, if_pos hdelayed]
    obtain ⟨-, last, hlast, hlt⟩ := hdelayed
    refine ⟨⟨hok.sorted, Nat.max_le.mpr ⟨hreached, ?_⟩, hok.pending, hok.repair, hok.rows, hok.cues⟩, Nat.le_refl _⟩
    change _ ≤ v.lastAppliedEventRevision.getD 0
    rw [hlast]
    exact Nat.le_of_lt hlt
  have hends : event.isActive = false → v.attached = true → v.utteranceGapRepair = none ∧
      ∃ last, v.lastAppliedEventRevision = some last ∧ event.eventRevision ≤ last + 1 :=
    fun hinactive hattached => htimely.2 hdelta.isFullSnapshot hinactive hattached hdelayed
  have hdiff : ¬ event.isFullSnapshot = true := by
    rw [hdelta.isFullSnapshot]
    decide
  have hpositive := hdelta.eventRevision
  by_cases hsame : v.lastAppliedEventRevision = some event.eventRevision
  · -- The delta was applied already, and its cues with it.
    have hreconciled : v.reconcileUtterances event = v := by
      rw [View.reconcileUtterances, if_neg hdiff, if_pos hsame]
    rw [View.take, if_neg hdelayed, hreconciled]
    have hlast : v.lastRevision = event.eventRevision := by
      rw [View.lastRevision, hsame]
      rfl
    have hagain : View.Ok h { v with
        translationCues := reconcileTranslationCues v.translationCues event
        handed := max v.handed event.eventRevision } := by
      refine ⟨hok.sorted, Nat.max_le.mpr ⟨hreached, Nat.le_of_eq hlast.symm⟩, hok.pending, hok.repair, hok.rows, ?_⟩
      intro hnone id
      have hshown := (hok.cues hnone id).mono (Nat.sub_le v.lastRevision 1)
      have hdeltaShown := hshown.delta ok hdelta (by omega)
      rw [← hlast] at hdeltaShown
      exact hdeltaShown
    obtain ⟨hok', hlast'⟩ := hagain.ends event fun hinactive hattached => (hends hinactive hattached).1
    exact ⟨hok', Nat.le_of_eq hlast'.symm⟩
  have hlt := take_delta hdelta hdelayed hsame
  have hhanded : max v.handed event.eventRevision ≤ event.eventRevision := Nat.max_le.mpr ⟨by omega, Nat.le_refl _⟩
  have hsorted := sorted_merge hok.sorted event.utterances
  cases hrepair : v.utteranceGapRepair with
  | some repair =>
    -- The repair keeps it for the replay.
    have hreconciled : v.reconcileUtterances event =
        { v with
          rows := v.rows.merge event.utterances
          lastAppliedEventRevision := some event.eventRevision
          utteranceGapRepair := some (repair.observe event) } := by
      rw [View.reconcileUtterances, if_neg hdiff, if_neg hsame, hrepair]
    rw [View.take, if_neg hdelayed, hreconciled]
    have hobserved := observe_ok (hok.repair repair hrepair).1 hdelta
    have hrunning : View.Ok h { v with
        rows := v.rows.merge event.utterances
        lastAppliedEventRevision := some event.eventRevision
        utteranceGapRepair := some (repair.observe event)
        translationCues := reconcileTranslationCues v.translationCues event
        handed := max v.handed event.eventRevision } := by
      refine ⟨hsorted, hhanded, hok.pending, ?_, fun hcontra => (by cases hcontra), fun hcontra => (by cases hcontra)⟩
      intro kept hkept
      obtain rfl := Option.some.inj hkept
      exact hobserved
    obtain ⟨hok', hlast'⟩ := hrunning.ends event fun hinactive hattached => by
      have hnone := (hends hinactive hattached).1
      rw [hrepair] at hnone
      cases hnone
    exact ⟨hok', Nat.le_trans (Nat.le_of_lt hlt) (Nat.le_of_eq hlast'.symm)⟩
  | none =>
    by_cases hnext : v.lastAppliedEventRevision.map (· + 1) = some event.eventRevision
    · -- It follows on what is shown.
      have hreconciled : v.reconcileUtterances event =
          { v with
            rows := v.rows.merge event.utterances
            lastAppliedEventRevision := some event.eventRevision } := by
        rw [View.reconcileUtterances, if_neg hdiff, if_neg hsame, hrepair]
        dsimp only
        rw [if_pos hnext]
      rw [View.take, if_neg hdelayed, hreconciled]
      have hfollows : event.eventRevision = v.lastRevision + 1 := by
        obtain ⟨last, hlast, heq⟩ := Option.map_eq_some_iff.mp hnext
        rw [View.lastRevision, hlast]
        exact heq.symm
      have hmoved : View.Ok h { v with
          rows := v.rows.merge event.utterances
          lastAppliedEventRevision := some event.eventRevision
          translationCues := reconcileTranslationCues v.translationCues event
          handed := max v.handed event.eventRevision } := by
        refine ⟨hsorted, hhanded, hok.pending, ?_, ?_, ?_⟩
        · intro repair hcontra
          exact absurd (hrepair.symm.trans hcontra) (fun hcontra => (by cases hcontra))
        · exact fun _ sequence => (hok.rows hrepair sequence).delta ok hdelta hfollows
        · exact fun _ id => (hok.cues hrepair id).delta ok hdelta hfollows
      obtain ⟨hok', hlast'⟩ := hmoved.ends event fun _ _ => hrepair
      exact ⟨hok', Nat.le_trans (Nat.le_of_lt hlt) (Nat.le_of_eq hlast'.symm)⟩
    · -- A gap starts a repair, which an end of the capture would cancel.
      have hreconciled : v.reconcileUtterances event =
          { v with
            rows := v.rows.merge event.utterances
            lastAppliedEventRevision := some event.eventRevision
            utteranceGapRepair := some (UtteranceGapRepair.observe ⟨event.eventRevision, [], none⟩ event) } := by
        rw [View.reconcileUtterances, if_neg hdiff, if_neg hsame, hrepair]
        dsimp only
        rw [if_neg hnext, View.beginUtteranceGapRepair]
      rw [View.take, if_neg hdelayed, hreconciled]
      have hbegun := begin_ok hdelta
      have hrunning : View.Ok h { v with
          rows := v.rows.merge event.utterances
          lastAppliedEventRevision := some event.eventRevision
          utteranceGapRepair := some (UtteranceGapRepair.observe ⟨event.eventRevision, [], none⟩ event)
          translationCues := reconcileTranslationCues v.translationCues event
          handed := max v.handed event.eventRevision } := by
        refine ⟨hsorted, hhanded, hok.pending, ?_, fun hcontra => (by cases hcontra), fun hcontra => (by cases hcontra)⟩
        intro kept hkept
        obtain rfl := Option.some.inj hkept
        exact hbegun
      obtain ⟨hok', hlast'⟩ := hrunning.ends event fun hinactive hattached => by
        obtain ⟨-, last, hlast, hle⟩ := hends hinactive hattached
        refine absurd ?_ hnext
        rw [View.lastRevision, hlast, Option.getD_some] at hlt
        rw [hlast, Option.map_some]
        exact congrArg some (by omega)
      exact ⟨hok', Nat.le_trans (Nat.le_of_lt hlt) (Nat.le_of_eq hlast'.symm)⟩

theorem View.Ok.take (hok : v.Ok h) (ok : h.Ok) {event : Event} (hevent : IsEvent h event) (htimely : v.Timely event) :
    (v.take event).Ok h ∧ v.lastRevision ≤ (v.take event).lastRevision := by
  obtain hdelta | ⟨read, hsnapshot⟩ := hevent
  · exact hok.takeDelta ok hdelta htimely
  · exact hok.takeSnapshot ok hsnapshot htimely

end

end Zulangue.CaptureView
