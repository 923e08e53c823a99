import Zulangue.CaptureView.Current

/-!
# The view converges

A repair ends on the store at its target or later, and with it every run of careful steps keeps what
is shown current.
-/

namespace Zulangue.CaptureView

open Zulangue.Lib

section
variable {h : History} {v v' : View} {action : Action}

/-! ## The replay -/

theorem le_continuousThrough (checkpoint : Nat) (deltas : List (Nat × Event)) :
    checkpoint ≤ continuousThroughRevision checkpoint deltas := by
  induction deltas generalizing checkpoint with
  | nil => exact Nat.le_refl _
  | cons delta deltas ih =>
    rw [continuousThroughRevision]
    split
    · have hle := ih (checkpoint + 1)
      omega
    · exact Nat.le_refl _

/-- Deltas that reach the target follow on each other. -/
theorem replay_shown (ok : h.Ok) {target : Nat} {deltas : List (Nat × Event)} {checkpoint : Nat} {rows : Rows} {cues : Cues}
    (hsorted : KeyMap.Sorted deltas)
    (hdeltas : ∀ delta ∈ deltas, IsDelta h delta.2 ∧ delta.2.eventRevision = delta.1 ∧ delta.1 ≤ target)
    (hafter : ∀ delta ∈ deltas, checkpoint < delta.1) (htarget : target ≤ continuousThroughRevision checkpoint deltas)
    (hrows : ∀ sequence, RowShown h rows checkpoint sequence) (hcues : ∀ id, CueShown h cues checkpoint id) :
    (∀ sequence, RowShown h (deltas.foldl (fun rows delta => rows.merge delta.2.utterances) rows)
      (continuousThroughRevision checkpoint deltas) sequence) ∧
    ∀ id, CueShown h (deltas.foldl (fun cues delta => reconcileTranslationCues cues delta.2) cues)
      (continuousThroughRevision checkpoint deltas) id := by
  induction deltas generalizing checkpoint rows cues with
  | nil => exact ⟨hrows, hcues⟩
  | cons delta deltas ih =>
    rw [List.forall_mem_cons] at hdeltas hafter
    obtain ⟨⟨hdelta, hrevision, hle⟩, hrest⟩ := hdeltas
    rw [continuousThroughRevision] at htarget ⊢
    split at htarget
    next hfollows =>
      rw [if_pos hfollows]
      have hlater : ∀ delta' ∈ deltas, checkpoint + 1 < delta'.1 := by
        intro delta' hmem
        have hlt := KeyMap.Sorted.head_lt hsorted delta' hmem
        omega
      refine ih (KeyMap.Sorted.tail hsorted) hrest hlater htarget ?_ ?_
      · intro sequence
        have hshown := (hrows sequence).delta ok hdelta hfollows
        rw [hfollows] at hshown
        exact hshown
      · intro id
        have hshown := (hcues id).delta ok hdelta hfollows
        rw [hfollows] at hshown
        exact hshown
    · have hlt := hafter.1
      omega

theorem View.Ok.installSnapshot (hok : v.Ok h) (ok : h.Ok) {repair : UtteranceGapRepair} {requested read : Nat}
    {snapshot : Event} (hrepair : v.utteranceGapRepair = some repair) (hsnapshot : IsSnapshot h read snapshot)
    (hread : requested ≤ read) : (v.installSnapshot repair requested snapshot).Ok h ∧
      v.lastRevision ≤ (v.installSnapshot repair requested snapshot).lastRevision := by
  obtain ⟨hrepairOk, htarget⟩ := hok.repair repair hrepair
  have hreached := hok.reached
  have hcovers : checkpointRevision snapshot requested ≤ read := by
    rw [checkpointRevision]
    split
    · exact hread
    · exact hsnapshot.eventRevision
  rw [View.installSnapshot]
  generalize checkpointRevision snapshot requested = checkpoint at hcovers ⊢
  have hreplay : ∀ delta ∈ replayDeltas repair checkpoint, IsDelta h delta.2 ∧ delta.2.eventRevision = delta.1 ∧
      delta.1 ≤ repair.targetEventRevision :=
    fun delta hmem => hrepairOk.deltas delta (List.mem_of_mem_filter hmem)
  have hsorted : KeyMap.Sorted (replayDeltas repair checkpoint) := List.Pairwise.filter _ hrepairOk.sorted
  have hafter : ∀ delta ∈ replayDeltas repair checkpoint, checkpoint < delta.1 := by
    intro delta hmem
    have hlt := of_decide_eq_true (List.mem_filter.mp hmem).2
    rw [(hreplay delta hmem).2.1] at hlt
    exact hlt
  -- No replayed delta is beyond the target.
  have hmaximum : ((replayDeltas repair checkpoint).getLast?.map (·.2.eventRevision)).getD checkpoint ≤
      max checkpoint repair.targetEventRevision := by
    cases hlast : (replayDeltas repair checkpoint).getLast? with
    | none => exact Nat.le_max_left _ _
    | some delta =>
      obtain ⟨-, hrevision, hle⟩ := hreplay delta (List.mem_of_getLast? hlast)
      change delta.2.eventRevision ≤ _
      exact Nat.le_trans (Nat.le_of_eq hrevision) (Nat.le_trans hle (Nat.le_max_right _ _))
  have hcontinuous := le_continuousThrough checkpoint (replayDeltas repair checkpoint)
  refine ⟨⟨sorted_replay (sorted_merge KeyMap.sorted_nil _) _, ?_, hok.pending, ?_, ?_, ?_⟩, Nat.le_max_left _ _⟩
  · exact Nat.le_trans hreached (Nat.le_max_left _ _)
  · intro kept hkept
    change (if _ then _ else _) = some kept at hkept
    split at hkept
    · cases hkept
    next hshort =>
      obtain rfl := Option.some.inj hkept
      refine ⟨⟨hsorted, hreplay⟩, ?_⟩
      change max v.lastRevision (max checkpoint _) ≤ repair.targetEventRevision
      omega
  · intro hended sequence
    change (if _ then _ else _) = none at hended
    split at hended
    next hcovered =>
      have hshown := (replay_shown ok hsorted hreplay hafter hcovered
        (fun sequence => (RowShown.snapshot ok hsnapshot v.rows sequence).mono hcovers)
        (fun id => (CueShown.snapshot ok hsnapshot v.translationCues id).mono hcovers)).1 sequence
      refine hshown.mono ?_
      change max v.lastRevision (max checkpoint _) ≤ _
      omega
    · cases hended
  · intro hended id
    change (if _ then _ else _) = none at hended
    split at hended
    next hcovered =>
      have hshown := (replay_shown ok hsorted hreplay hafter hcovered
        (fun sequence => (RowShown.snapshot ok hsnapshot v.rows sequence).mono hcovers)
        (fun id => (CueShown.snapshot ok hsnapshot v.translationCues id).mono hcovers)).2 id
      refine hshown.mono ?_
      change max v.lastRevision (max checkpoint _) ≤ _
      omega
    · cases hended

/-! ## Lanes -/

theorem sorted_replaceLane {rows : Rows} (hsorted : KeyMap.Sorted rows.utterances) (updated : Utterance) (language : String) :
    KeyMap.Sorted (rows.replaceLane updated language).utterances := by
  rw [Rows.replaceLane]
  split
  · exact KeyMap.sorted_insert hsorted _ _
  · exact hsorted

/-- The lane that was replaced is held, and nothing else changes. -/
theorem RowShown.replaceLane (ok : h.Ok) {rows : Rows} (hsorted : KeyMap.Sorted rows.utterances) {updated : Utterance}
    {language : String} (hcaught : rows.Caught updated language) {revision : Nat}
    (hshown : ∀ sequence, RowShown h rows revision sequence) (sequence : Nat) :
    RowShown h (rows.replaceLane updated language) revision sequence := by
  rw [Rows.replaceLane]
  split
  next found latest hfound =>
    have hmem := List.mem_of_find?_eq_some hfound
    have hmatch := List.find?_some hfound
    rw [decide_eq_true_eq] at hmatch
    have hget := hsorted.get_of_mem hmem
    obtain ⟨r, hr, ⟨hnone, -⟩ | ⟨shown, row, hshownGet, hrow, hmatches⟩⟩ := hshown found
    · exact absurd (hnone.symm.trans hget) (fun hcontra => (by cases hcontra))
    obtain rfl : latest = shown := Option.some.inj (hget.symm.trans hshownGet)
    by_cases hsequence : sequence = found
    · subst hsequence
      refine ⟨r, hr, .inr ⟨latest.mergingCommittedLane updated language, row, KeyMap.get_insert_self _ _ _, hrow, ?_⟩⟩
      have hcommitted := hcaught _ hmem hmatch
      change latest.revision = _ ∨ _ < latest.revision ∧ _ ∧
        (latest.lanes language).merging (updated.lanes language) = latest.lanes language at hcommitted
      refine ⟨hmatches.id, ?_, ?_, ?_⟩
      · change max latest.revision updated.revision = row.revision
        have hrevision := hmatches.revision
        omega
      · intro l hfree
        change (if latest.id = updated.id ∧ l = language then _ else _) = none at hfree
        split at hfree
        · cases hfree
        next hother =>
          change (if l = language then _ else latest.lanes l) = _
          rw [if_neg fun heq => hother ⟨hmatch, heq⟩]
          exact hmatches.free l hfree
      · intro l committed hheld
        change (if latest.id = updated.id ∧ l = language then _ else _) = some committed at hheld
        split at hheld
        next hlane =>
          obtain rfl := Option.some.inj hheld
          obtain ⟨-, rfl⟩ := hlane
          have hrevision := hmatches.revision
          obtain hsame | ⟨-, hfree, hkept⟩ := hcommitted
          · left
            omega
          · right
            right
            change (if l = l then _ else _) = _
            rw [if_pos rfl, hkept]
            rw [← hmatch] at hfree
            exact hmatches.free l hfree
        next hother =>
          change _ ∨ _ ∨ (if l = language then _ else latest.lanes l) = _
          rw [if_neg fun heq => hother ⟨hmatch, heq⟩]
          exact hmatches.held l committed hheld
    · -- Another row has another id.
      obtain ⟨r', hr', ⟨hnone, hrow'⟩ | ⟨other, row', hother, hrow', hmatches'⟩⟩ := hshown sequence
      · exact ⟨r', hr', .inl ⟨(KeyMap.get_insert_of_ne hsequence _ _).trans hnone, hrow'⟩⟩
      · have hne : other.id ≠ updated.id := by
          intro heq
          obtain ⟨_, hrows⟩ := exists_rows_of_rowAt hrow
          obtain ⟨_, hrows'⟩ := exists_rows_of_rowAt hrow'
          refine hsequence (ok.ids hrows' hrows ?_)
          rw [← hmatches.id, ← hmatches'.id, heq, hmatch]
        have hsame : ∀ l, (if other.id = updated.id ∧ l = language then some updated else rows.barriers other.id l) =
            rows.barriers other.id l := fun l => if_neg fun hlane => hne hlane.1
        refine ⟨r', hr', .inr ⟨other, row', (KeyMap.get_insert_of_ne hsequence _ _).trans hother, hrow', hmatches'.id,
          hmatches'.revision, ?_, ?_⟩⟩
        · intro l hfree
          exact hmatches'.free l ((hsame l).symm.trans hfree)
        · intro l committed hheld
          exact hmatches'.held l committed ((hsame l).symm.trans hheld)
  · exact hshown sequence

/-! ## Runs of careful steps -/

theorem step_ok (ok : h.Ok) (hok : v.Ok h) (hstep : CarefulStep h v action v') :
    v'.Ok h ∧ v.lastRevision ≤ v'.lastRevision := by
  obtain ⟨hstep, hcareful⟩ := hstep
  cases hstep with
  | deliver hevent =>
    rw [View.apply]
    split
    · refine ⟨⟨hok.sorted, hok.reached, ?_, hok.repair, hok.rows, hok.cues⟩, Nat.le_refl _⟩
      intro event hpending
      obtain rfl := Option.some.inj hpending
      exact hevent
    next hnow => exact hok.take ok hevent (hcareful hnow)
  | beginTerminalTransition =>
    exact ⟨⟨hok.sorted, hok.reached, fun _ hcontra => (by cases hcontra), hok.repair, hok.rows, hok.cues⟩, Nat.le_refl _⟩
  | audioFenceDidDrain =>
    have hdrained : v.drained.Ok h :=
      ⟨hok.sorted, hok.reached, fun _ hcontra => (by cases hcontra), hok.repair, hok.rows, hok.cues⟩
    rw [View.audioFenceDidDrain]
    cases hpending : v.pendingTerminalTransitionEvent with
    | none => exact ⟨hdrained, Nat.le_refl _⟩
    | some event => exact hdrained.take ok (hok.pending event hpending) (hcareful event hpending)
  | request hrepair | fails hrepair =>
    refine ⟨⟨hok.sorted, hok.reached, hok.pending, ?_, fun hcontra => (by cases hcontra), fun hcontra => (by cases hcontra)⟩,
      Nat.le_refl _⟩
    intro kept hkept
    obtain rfl := Option.some.inj hkept
    obtain ⟨hrepairOk, htarget⟩ := hok.repair _ hrepair
    exact ⟨⟨hrepairOk.sorted, hrepairOk.deltas⟩, htarget⟩
  | reads hrepair _ hsnapshot hread => exact hok.installSnapshot ok hrepair hsnapshot hread
  | replaceLane =>
    refine ⟨⟨sorted_replaceLane hok.sorted _ _, hok.reached, hok.pending, hok.repair, ?_, hok.cues⟩, Nat.le_refl _⟩
    intro hrepair sequence
    exact RowShown.replaceLane ok hok.sorted (hcareful hrepair) (hok.rows hrepair) sequence

theorem run_ok (ok : h.Ok) {actions : List Action} (hrun : Run (CarefulStep h) v actions v') (hok : v.Ok h) :
    v'.Ok h ∧ v.lastRevision ≤ v'.lastRevision := by
  induction hrun with
  | nil => exact ⟨hok, Nat.le_refl _⟩
  | cons hstep _ ih =>
    obtain ⟨hnext, hle⟩ := step_ok ok hok hstep
    obtain ⟨hlast, hle'⟩ := ih hnext
    exact ⟨hlast, Nat.le_trans hle hle'⟩

end

/-! ## A row, and a delayed snapshot -/

def spoken : Utterance := ⟨"utterance", 0, 1, fun _ => ⟨some "Hello", 0, 0⟩⟩

/-- The second revision adds a row. -/
def oneRow : History where
  rows r sequence := if r = 2 ∧ sequence = 0 then some spoken else none
  cues _ _ := none

def startResult : Event := ⟨1, true, true, [], []⟩

def spokenDelta : Event := ⟨2, false, true, [spoken], []⟩

theorem rows_oneRow {r sequence : Nat} {row : Utterance} (hrow : oneRow.rows r sequence = some row) :
    r = 2 ∧ sequence = 0 ∧ row = spoken := by
  change (if r = 2 ∧ sequence = 0 then some spoken else none) = some row at hrow
  split at hrow
  next hboth => exact ⟨hboth.1, hboth.2, (Option.some.inj hrow).symm⟩
  · cases hrow

theorem rowAt_oneRow {r : Nat} (hr : 2 ≤ r) : oneRow.rowAt r 0 = some spoken := by
  induction hr with
  | refl => rfl
  | @step r hr ih =>
    have hle : 2 ≤ r := hr
    have hlater : oneRow.rows (r + 1) 0 = none := if_neg fun hboth => absurd hboth.1 (by omega)
    exact (rowAt_succ_of_none hlater).trans ih

theorem oneRow_ok : oneRow.Ok := by
  constructor
  · intro r sequence row hrow
    obtain ⟨-, rfl, rfl⟩ := rows_oneRow hrow
    rfl
  · intro r r' sequence sequence' row row' hrow hrow' _
    rw [(rows_oneRow hrow).2.1, (rows_oneRow hrow').2.1]
  · intro r sequence row row' hrow hrow'
    obtain ⟨hr, rfl, rfl⟩ := rows_oneRow hrow'
    obtain rfl : r = 1 := by omega
    cases hrow
  · intro r id cue hcue
    cases hcue
  · intro r id cue cue' hcue hcue'
    cases hcue'

theorem startResult_snapshot : IsSnapshot oneRow 1 startResult := by
  refine ⟨rfl, Nat.le_refl _, ?_, List.nodup_nil, ?_, List.nodup_nil⟩
  · intro row
    constructor
    · intro hmem
      cases hmem
    · intro hrow
      cases hrow
  · intro cue
    constructor
    · intro hmem
      cases hmem
    · intro hcue
      cases hcue

theorem spokenDelta_delta : IsDelta oneRow spokenDelta := by
  refine ⟨rfl, by decide, ?_, List.nodup_cons.mpr ⟨List.not_mem_nil, List.nodup_nil⟩, ?_, List.nodup_nil⟩
  · intro row
    constructor
    · intro hmem
      obtain rfl := List.mem_singleton.mp hmem
      rfl
    · intro hrow
      obtain ⟨-, -, rfl⟩ := rows_oneRow hrow
      exact List.mem_singleton_self _
  · intro cue
    constructor
    · intro hmem
      cases hmem
    · intro hcue
      cases hcue

end Zulangue.CaptureView
