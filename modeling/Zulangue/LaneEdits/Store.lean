import Zulangue.LaneEdits.Merging
import Zulangue.Lib.LastRows

/-!
# The store behind the lanes

What `ActiveBilingualTranscriptStore` keeps of the rows of a session and of the lane edits that were
saved in it: a callback's rows pass the barriers and then the arbitration of revisions, a full
snapshot's the barriers only, and an edit's completion leaves a barrier. Everything runs on the main
actor, so an operation is one step.
-/

namespace Zulangue.LaneEdits

open Zulangue.Lib.NewestRows Zulangue.Lib.FirstMatch Zulangue.LivePresentation

structure NotebookCaptureLaneMutationKey where
  utteranceId : String
  language : String
  deriving DecidableEq, Repr

structure NotebookCaptureCommittedLaneOverrideBarrier where
  machineRevision : Nat
  committedUtterance : Row
  deriving DecidableEq, Repr

abbrev Entry := NotebookCaptureLaneMutationKey × NotebookCaptureCommittedLaneOverrideBarrier

abbrev Barriers := List Entry

/-- The order in which a dictionary lists its entries, whatever it is. -/
structure DictionaryOrder where
  list : Barriers → Barriers
  perm : ∀ barriers, (list barriers).Perm barriers

structure Store where
  sessionId : Option String
  utterances : List Row
  committedLaneOverrideBarriers : Barriers
  laneMutationsInFlight : List NotebookCaptureLaneMutationKey
  deriving Repr

section
variable (lowercased : String → String)

def mutationKey (utteranceId language : String) : NotebookCaptureLaneMutationKey :=
  ⟨utteranceId, languageKey lowercased language⟩

def isLoroEditableLane (row : Row) (language : String) (appliedRevision : Nat) : Bool :=
  let key := languageKey lowercased language
  if isSourceLane lowercased row key then
    decide (row.completion = "complete" ∧ 0 < row.sourceProjectionRevision ∧
      row.sourceProjectionRevision ≤ appliedRevision)
  else
    match variantIn lowercased row key with
    | none => false
    | some variant =>
      decide (variant.role ∈ ["translation", "translated"] ∧ variant.state = "ready" ∧
        variant.completion = some "complete" ∧ variant.text.isSome ∧ 0 < variant.projectionRevision ∧
        variant.projectionRevision ≤ appliedRevision)

inductive Verdict where
  /-- The row carries the edit. -/
  | retire
  /-- The row was read before the edit. -/
  | protect
  | ignore
  deriving DecidableEq, Repr

def verdict (update : Row) (key : NotebookCaptureLaneMutationKey)
    (barrier : NotebookCaptureCommittedLaneOverrideBarrier) : Verdict :=
  if barrier.committedUtterance.sessionId ≠ update.sessionId then .ignore
  else
    let committedEditRevision := laneEditRevision lowercased barrier.committedUtterance key.language
    let updateEditRevision := laneEditRevision lowercased update key.language
    if barrier.machineRevision < update.revision then
      if committedEditRevision ≤ updateEditRevision then .retire else .protect
    else if update.revision = barrier.machineRevision then
      let committedText := laneText lowercased barrier.committedUtterance key.language
      if laneText lowercased update key.language = committedText ∧ committedEditRevision ≤ updateEditRevision then .retire
      else .protect
    else .ignore

/-- One barrier of the utterance: it goes, its lane is kept in the row, or neither. -/
def protectingStep (update : Row) (state : Barriers × Row)
    (entry : Entry) : Barriers × Row :=
  match verdict lowercased update entry.1 entry.2 with
  | .retire => (state.1.filter fun other => other.1 ≠ entry.1, state.2)
  | .protect =>
    (state.1, mergingCommittedLane lowercased state.2 entry.2.committedUtterance entry.1.language)
  | .ignore => state

variable (order : DictionaryOrder)

def protectingCommittedLaneOverrides (barriers : Barriers) (update : Row) : Barriers × Row :=
  ((order.list barriers).filter fun entry => entry.1.utteranceId = update.id).foldl (protectingStep lowercased update)
    (barriers, update)

def prepareUtteranceUpdates (sessionId : Option String) : Barriers → List Row → Barriers × List Row
  | barriers, [] => (barriers, [])
  | barriers, unprotectedUpdate :: updates =>
    let (barriers, update) := protectingCommittedLaneOverrides lowercased order barriers unprotectedUpdate
    let (barriers, prepared) := prepareUtteranceUpdates sessionId barriers updates
    (barriers, if some update.sessionId = sessionId then update :: prepared else prepared)

/-- The rows ascend, so the binary search finds the first that is not below the update. -/
def upsertOrderedUtterance (rows : List Row) (update : Row) : List Row :=
  upsert (·.sequence) (·.revision) update rows

def Store.merge (store : Store) (updates : List Row) : Store :=
  let (barriers, preparedUpdates) :=
    prepareUtteranceUpdates lowercased order store.sessionId store.committedLaneOverrideBarriers updates
  { store with
    utterances := preparedUpdates.foldl upsertOrderedUtterance store.utterances
    committedLaneOverrideBarriers := barriers }

/-- The entries of the map stand in the order of their keys, as the source sorts them. -/
def Store.rebuiltUtteranceSnapshot (store : Store) (updates : List Row) : Barriers × List Row :=
  let (barriers, preparedUpdates) :=
    prepareUtteranceUpdates lowercased order store.sessionId store.committedLaneOverrideBarriers updates
  let latestBySequence := preparedUpdates.foldl (keepNewest (·.sequence) (·.revision)) []
  (barriers, latestBySequence.map Prod.snd)

def Store.replaceUtterances (store : Store) (updates : List Row) : Store :=
  let (barriers, utterances) := store.rebuiltUtteranceSnapshot lowercased order updates
  { store with
    utterances := utterances
    committedLaneOverrideBarriers := barriers }

/-- `replaceLane` up to the call of the core, with the revision it expects there; `none` where it throws. -/
def Store.beginReplaceLane (store : Store) (isEditable : Bool) (appliedRevision : Nat) (utteranceId language : String) :
    Option (Store × Nat) :=
  let key := mutationKey lowercased utteranceId language
  if key ∈ store.laneMutationsInFlight then none
  else if !isEditable then none
  else
    match store.utterances.find? (·.id = utteranceId) with
    | none => none
    | some row =>
      if some row.sessionId ≠ store.sessionId then none
      else if !isLoroEditableLane lowercased row language appliedRevision then none
      else
        some ({ store with laneMutationsInFlight := key :: store.laneMutationsInFlight },
          laneEditRevision lowercased row key.language)

/-- `replaceLane` from the core's answer on; without an answer the call threw. -/
def Store.completeReplaceLane (store : Store) (key : NotebookCaptureLaneMutationKey) (answer : Option Row) : Store :=
  let store := { store with laneMutationsInFlight := store.laneMutationsInFlight.erase key }
  match answer, store.utterances.find? (·.id = key.utteranceId) with
  | some updated, some latest =>
    if latest.sessionId = updated.sessionId ∧ some latest.sessionId = store.sessionId then
      { store with
        utterances :=
          updateFirst (·.id = key.utteranceId) (mergingCommittedLane lowercased · updated key.language) store.utterances
        committedLaneOverrideBarriers :=
          (key, ⟨updated.revision, updated⟩) :: store.committedLaneOverrideBarriers.filter fun entry => entry.1 ≠ key }
    else store
  | _, _ => store

/-- `clearSessionScopedDisplayState` and the session that comes after it. -/
def Store.changeSession (store : Store) (sessionId : Option String) : Store :=
  { store with
    sessionId := sessionId
    utterances := []
    committedLaneOverrideBarriers := [] }

/-- The rows one after the other, each through the barriers and into the list. -/
def Store.mergeRow (store : Store) (row : Row) : Store :=
  let (barriers, update) := protectingCommittedLaneOverrides lowercased order store.committedLaneOverrideBarriers row
  { store with
    utterances :=
      if some update.sessionId = store.sessionId then upsertOrderedUtterance store.utterances update
      else store.utterances
    committedLaneOverrideBarriers := barriers }

end

section
variable {lowercased : String → String} {order : DictionaryOrder} {barriers : Barriers} {row update : Row}
  {key : NotebookCaptureLaneMutationKey} {barrier : NotebookCaptureCommittedLaneOverrideBarrier}
  {entry : Entry}

/-! ## Rows one after the other -/

/-- Passing all rows through the barriers first is the same: the barriers do not depend on the list. -/
theorem Store.merge_eq (store : Store) (updates : List Row) :
    store.merge lowercased order updates = updates.foldl (Store.mergeRow lowercased order) store := by
  induction updates generalizing store with
  | nil => rfl
  | cons row updates ih =>
    rw [List.foldl_cons, ← ih, merge, merge, mergeRow, prepareUtteranceUpdates]
    dsimp only
    split <;> rfl

theorem Store.replaceUtterances_eq (store : Store) (updates : List Row) :
    store.replaceUtterances lowercased order updates = Store.merge lowercased order { store with utterances := [] } updates := by
  unfold replaceUtterances rebuiltUtteranceSnapshot merge upsertOrderedUtterance
  dsimp only
  rw [map_foldl_keepNewest _ Lib.KeyMap.sorted_nil (by simp)]
  rfl

/-! ## The barriers -/

theorem of_verdict_retire (h : verdict lowercased update key barrier = .retire) :
    barrier.committedUtterance.sessionId = update.sessionId ∧
      laneEditRevision lowercased barrier.committedUtterance key.language ≤
        laneEditRevision lowercased update key.language := by
  unfold verdict at h
  grind

theorem of_verdict_protect (h : verdict lowercased update key barrier = .protect) :
    barrier.committedUtterance.sessionId = update.sessionId ∧ barrier.machineRevision ≤ update.revision := by
  unfold verdict at h
  grind

theorem of_verdict_ignore (h : verdict lowercased update key barrier = .ignore) :
    barrier.committedUtterance.sessionId ≠ update.sessionId ∨ update.revision < barrier.machineRevision := by
  unfold verdict at h
  grind

/-- The lanes of some barriers in a row. -/
def mergingLanes (lowercased : String → String) (entries : Barriers) (row : Row) : Row :=
  entries.foldl (fun row entry => mergingCommittedLane lowercased row entry.2.committedUtterance entry.1.language) row

/-- The barrier is that of an entry whose edit the update carries. -/
def isRetired (lowercased : String → String) (update : Row) (entries : Barriers)
    (other : Entry) : Bool :=
  entries.any fun entry => decide (other.1 = entry.1) && decide (verdict lowercased update entry.1 entry.2 = .retire)

theorem foldl_protectingStep (entries barriers : Barriers) (row : Row) :
    entries.foldl (protectingStep lowercased update) (barriers, row) =
      (barriers.filter fun other => !isRetired lowercased update entries other,
        mergingLanes lowercased (entries.filter fun entry => verdict lowercased update entry.1 entry.2 = .protect) row) := by
  induction entries generalizing barriers row with
  | nil => simp [isRetired, mergingLanes]
  | cons entry entries ih =>
    rw [List.foldl_cons, protectingStep]
    cases hverdict : verdict lowercased update entry.1 entry.2 with
    | retire => simp [ih, hverdict, isRetired, List.filter_filter, Bool.and_comm]
    | protect => simp [ih, hverdict, isRetired, mergingLanes]
    | ignore => simp [ih, hverdict, isRetired]

/-- The barriers of the utterance that the row passes are gone, and no other. -/
theorem mem_protecting (hkeys : (barriers.map Prod.fst).Nodup) :
    entry ∈ (protectingCommittedLaneOverrides lowercased order barriers row).1 ↔
      entry ∈ barriers ∧
        ¬ (entry.1.utteranceId = row.id ∧ verdict lowercased row entry.1 entry.2 = .retire) := by
  rw [protectingCommittedLaneOverrides, foldl_protectingStep]
  simp only [isRetired, List.mem_filter, Bool.not_eq_eq_eq_not, Bool.not_true, List.any_eq_false, Bool.and_eq_true,
    decide_eq_true_eq, (order.perm barriers).mem_iff, and_congr_right_iff]
  intro hentry
  constructor
  · rintro h ⟨hid, hretire⟩
    exact h entry ⟨hentry, hid⟩ ⟨rfl, hretire⟩
  · rintro h other ⟨hother, hid⟩ ⟨hkey, hretire⟩
    obtain rfl := List.inj_on_of_nodup_map hkeys hentry hother hkey
    exact h ⟨hid, hretire⟩

theorem keys_protecting (hkeys : (barriers.map Prod.fst).Nodup) (row : Row) :
    ((protectingCommittedLaneOverrides lowercased order barriers row).1.map Prod.fst).Nodup := by
  rw [protectingCommittedLaneOverrides, foldl_protectingStep]
  exact hkeys.sublist (List.filter_sublist.map _)

theorem revision_mergingCommittedLane {committed : Row} (language : String) (h : committed.revision ≤ row.revision) :
    (mergingCommittedLane lowercased row committed language).revision = row.revision := by
  unfold mergingCommittedLane
  split
  · rw [revision_mergingLane, max_eq_left h]
  · rfl

theorem revision_mergingLanes {entries : Barriers}
    (h : ∀ entry ∈ entries, entry.2.committedUtterance.revision ≤ row.revision) :
    (mergingLanes lowercased entries row).revision = row.revision := by
  induction entries generalizing row with
  | nil => rfl
  | cons entry entries ih =>
    obtain ⟨hentry, hentries⟩ := List.forall_mem_cons.mp h
    have hrevision : (mergingCommittedLane lowercased row entry.2.committedUtterance entry.1.language).revision =
        row.revision := revision_mergingCommittedLane entry.1.language hentry
    rw [mergingLanes, List.foldl_cons, ← mergingLanes, ih, hrevision]
    rw [hrevision]
    exact hentries

/-- A row that the lane of a barrier is merged into. -/
structure Holds (lowercased : String → String) (row : Row)
    (entry : Entry) : Prop where
  id : row.id = entry.2.committedUtterance.id
  sessionId : row.sessionId = entry.2.committedUtterance.sessionId
  key : languageKey lowercased entry.1.language = entry.1.language
  laid : Laid lowercased row entry.2.committedUtterance entry.1.language

theorem sameFields_mergingCommittedLane (row committed : Row) (language : String) :
    SameFields (mergingCommittedLane lowercased row committed language) row := by
  unfold mergingCommittedLane
  split
  · exact mergingLane_fields _ _ _ _
  · exact SameFields.refl row

theorem sameFields_mergingLanes (entries : Barriers) (row : Row) :
    SameFields (mergingLanes lowercased entries row) row := by
  induction entries generalizing row with
  | nil => exact SameFields.refl row
  | cons entry entries ih => exact (ih _).trans (sameFields_mergingCommittedLane row _ _)

structure LanesMerged (lowercased : String → String) (entries : Barriers) (row merged : Row) : Prop where
  text : ∀ entry ∈ entries,
    (laneIn lowercased merged entry.1.language).text =
      (laneIn lowercased entry.2.committedUtterance entry.1.language).text
  other : ∀ key, (∀ entry ∈ entries, entry.1.language ≠ key) → laneIn lowercased merged key = laneIn lowercased row key

/-- Lanes of different languages do not disturb one another. -/
theorem lanesMerged_mergingLanes {entries : Barriers} (hkeys : (entries.map (·.1.language)).Nodup)
    (hholds : ∀ entry ∈ entries, Holds lowercased row entry) :
    LanesMerged lowercased entries row (mergingLanes lowercased entries row) := by
  induction entries generalizing row with
  | nil => exact ⟨by simp, fun key _ => rfl⟩
  | cons entry entries ih =>
    obtain ⟨hnew, hkeys⟩ := List.nodup_cons.mp hkeys
    obtain ⟨hentry, hentries⟩ := List.forall_mem_cons.mp hholds
    have hne : ∀ other ∈ entries, other.1.language ≠ entry.1.language := by
      intro other hother hkey
      exact hnew (List.mem_map.mpr ⟨other, hother, hkey⟩)
    have hmerged := mergingCommittedLane_eq hentry.id hentry.sessionId hentry.key
    have hfields := mergingLane_fields lowercased row entry.2.committedUtterance entry.1.language
    have hrest : ∀ other ∈ entries, Holds lowercased
        (mergingLane lowercased row entry.2.committedUtterance entry.1.language) other := by
      intro other hother
      have hholds := hentries other hother
      exact ⟨hfields.id.trans hholds.id, hfields.sessionId.trans hholds.sessionId, hholds.key,
        hentry.laid.merging hholds.laid (hne other hother)⟩
    have ih := ih hkeys hrest
    rw [mergingLanes, List.foldl_cons, hmerged, ← mergingLanes]
    refine ⟨?_, ?_⟩
    · rw [List.forall_mem_cons]
      refine ⟨?_, ih.text⟩
      rw [ih.other entry.1.language hne]
      exact text_laneIn_mergingLane hentry.laid
    · intro key hkey
      obtain ⟨hentryKey, hkey⟩ := List.forall_mem_cons.mp hkey
      rw [ih.other key hkey]
      exact laneIn_mergingLane_of_ne hentry.laid hentryKey.symm

/-- The barriers whose lanes are kept in the row. -/
def protecting (lowercased : String → String) (row : Row) (barriers : Barriers) : Barriers :=
  barriers.filter fun entry => entry.1.utteranceId = row.id ∧ verdict lowercased row entry.1 entry.2 = .protect

theorem mem_protecting_iff :
    entry ∈ protecting lowercased row barriers ↔
      entry ∈ barriers ∧ entry.1.utteranceId = row.id ∧ verdict lowercased row entry.1 entry.2 = .protect := by
  simp [protecting]

theorem sameFields_protecting (lowercased : String → String) (order : DictionaryOrder) (barriers : Barriers) (row : Row) :
    SameFields (protectingCommittedLaneOverrides lowercased order barriers row).2 row := by
  rw [protectingCommittedLaneOverrides, foldl_protectingStep]
  exact sameFields_mergingLanes _ row

theorem revision_protecting (h : ∀ entry ∈ protecting lowercased row barriers, entry.2.committedUtterance.revision ≤ row.revision) :
    (protectingCommittedLaneOverrides lowercased order barriers row).2.revision = row.revision := by
  rw [protectingCommittedLaneOverrides, foldl_protectingStep, List.filter_filter]
  apply revision_mergingLanes
  intro entry hentry
  apply h
  simpa [protecting, (order.perm barriers).mem_iff, and_comm] using hentry

theorem lanesMerged_protecting (hkeys : (barriers.map Prod.fst).Nodup)
    (hholds : ∀ entry ∈ protecting lowercased row barriers, Holds lowercased row entry) :
    LanesMerged lowercased (protecting lowercased row barriers) row
      (protectingCommittedLaneOverrides lowercased order barriers row).2 := by
  rw [protectingCommittedLaneOverrides, foldl_protectingStep, List.filter_filter]
  have hmem : ∀ other, other ∈ (order.list barriers).filter (fun entry =>
      decide (verdict lowercased row entry.1 entry.2 = .protect) && decide (entry.1.utteranceId = row.id)) ↔
        other ∈ protecting lowercased row barriers := by
    intro other
    simp [protecting, (order.perm barriers).mem_iff, and_comm]
  have hdistinct : ((order.list barriers).Pairwise fun a b => a.1 ≠ b.1) :=
    List.pairwise_map.mp (((order.perm barriers).map Prod.fst).nodup_iff.mpr hkeys)
  have hlanguages : (((order.list barriers).filter (fun entry =>
      decide (verdict lowercased row entry.1 entry.2 = .protect) && decide (entry.1.utteranceId = row.id))).map
        (·.1.language)).Nodup := by
    apply List.pairwise_map.mpr
    apply (hdistinct.filter _).imp_of_mem
    intro a b ha hb hne hlanguage
    have hida := (mem_protecting_iff.mp ((hmem a).mp ha)).2.1
    have hidb := (mem_protecting_iff.mp ((hmem b).mp hb)).2.1
    apply hne
    rw [NotebookCaptureLaneMutationKey.mk.injEq]
    exact ⟨hida.trans hidb.symm, hlanguage⟩
  have hmerged := lanesMerged_mergingLanes hlanguages fun other hother => hholds other ((hmem other).mp hother)
  exact ⟨fun other hother => hmerged.text other ((hmem other).mpr hother),
    fun key hkey => hmerged.other key fun other hother => hkey other ((hmem other).mp hother)⟩

end

end Zulangue.LaneEdits
