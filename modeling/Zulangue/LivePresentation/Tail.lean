import Zulangue.Lib.LastRows
import Zulangue.LivePresentation.Utterance

/-!
# The live tail

`utterances` merges the durable rows of a session with its preview rows; `utteranceTail` takes the last rows
of that merge from the ends of the two lists alone.
-/

namespace Zulangue.LivePresentation

open Zulangue.Lib.LastRows

/-! ## The full merge -/

/-- The loop over the two indices. A durable row wins over every preview row of its sequence. -/
def mergeRows : (durableRows previewRows : List NotebookCaptureUtteranceDTO) → List NotebookCaptureUtteranceDTO
  | durableRow :: durableRows, previewRow :: previewRows =>
    if durableRow.sequence ≤ previewRow.sequence then
      -- Without a preview row of its sequence nothing is passed over.
      durableRow :: mergeRows durableRows ((previewRow :: previewRows).dropWhile (·.sequence = durableRow.sequence))
    else previewRow :: mergeRows (durableRow :: durableRows) previewRows
  | durableRows, [] => durableRows
  | [], previewRows => previewRows
termination_by durableRows previewRows => durableRows.length + previewRows.length
decreasing_by
  · have := (List.dropWhile_suffix (l := previewRow :: previewRows) (·.sequence = durableRow.sequence)).length_le
    simp only [List.length_cons] at this ⊢
    omega
  · simp only [List.length_cons]
    omega

def utterances (durable preview : List NotebookCaptureUtteranceDTO) (sessionId : Option String) :
    List NotebookCaptureUtteranceDTO :=
  match sessionId with
  | none => durable
  | some sessionId =>
    let durableRows := durable.filter (·.sessionId = sessionId)
    let previewRows := preview.filter (·.sessionId = sessionId)
    if previewRows = [] then durableRows else mergeRows durableRows previewRows

/-! ## The tail -/

/-- The walk from the end, until `limit` rows of the session are found. -/
def tailWalk (sessionId : String) (limit : Nat) :
    (rows result : List NotebookCaptureUtteranceDTO) → List NotebookCaptureUtteranceDTO
  | [], result => result
  | row :: rows, result =>
    if row.sessionId ≠ sessionId then tailWalk sessionId limit rows result
    else if (result ++ [row]).length = limit then result ++ [row]
    else tailWalk sessionId limit rows (result ++ [row])

def orderedTail (rows : List NotebookCaptureUtteranceDTO) (sessionId : String) (limit : Nat) :
    List NotebookCaptureUtteranceDTO :=
  (tailWalk sessionId limit rows.reverse []).reverse

def utteranceTail (durable preview : List NotebookCaptureUtteranceDTO) (sessionId : Option String) (limit : Int) :
    List NotebookCaptureUtteranceDTO :=
  let limit := (max limit 0).toNat
  if limit = 0 then []
  else
    match sessionId with
    | none => durable.rtake limit
    | some sessionId =>
      let durableTail := orderedTail durable sessionId limit
      let previewTail := orderedTail preview sessionId limit
      let durableSequences := durableTail.map (·.sequence)
      let durableCutoff := if durableTail.length = limit then durableTail.head?.map (·.sequence) else none
      let rows := durableTail ++ previewTail.filter fun row =>
        row.sequence ∉ durableSequences ∧ durableCutoff.all fun cutoff => cutoff < row.sequence
      (sortOn NotebookCaptureUtteranceDTO.sequence rows).rtake limit

/-! ## The rows of the merge -/

/-- Rows of one session are in the order of their sequences. -/
def OrderedBySession (rows : List NotebookCaptureUtteranceDTO) : Prop :=
  rows.Pairwise fun a b => a.sessionId = b.sessionId → a.sequence < b.sequence

/-- The rows of a session. -/
def sessionRows (rows : List NotebookCaptureUtteranceDTO) (sessionId : String) : List NotebookCaptureUtteranceDTO :=
  rows.filter (·.sessionId = sessionId)

section
variable {durable preview rows durableRows previewRows : List NotebookCaptureUtteranceDTO} {sessionId : String}
  {limit : Nat} {row : NotebookCaptureUtteranceDTO}

theorem OrderedBySession.ascending (h : OrderedBySession rows) (sessionId : String) :
    Ascending NotebookCaptureUtteranceDTO.sequence (sessionRows rows sessionId) := by
  unfold sessionRows Ascending
  rw [List.pairwise_filter]
  apply h.imp
  intro a b hlt ha hb
  simp only [decide_eq_true_eq] at ha hb
  exact hlt (ha.trans hb.symm)

/-- A row is shown when it is durable, or in the preview with a sequence that no durable row has. -/
def Merged (durableRows previewRows : List NotebookCaptureUtteranceDTO) (row : NotebookCaptureUtteranceDTO) : Prop :=
  row ∈ durableRows ∨ row ∈ previewRows ∧ row.sequence ∉ durableRows.map (·.sequence)

theorem dropWhile_same {previewRow : NotebookCaptureUtteranceDTO}
    (h : Ascending NotebookCaptureUtteranceDTO.sequence (previewRow :: previewRows)) :
    (previewRow :: previewRows).dropWhile (·.sequence = previewRow.sequence) = previewRows := by
  obtain ⟨hfirst, -⟩ := List.pairwise_cons.mp h
  rw [List.dropWhile_cons_of_pos (by simp)]
  cases previewRows with
  | nil => rfl
  | cons next rest =>
    have hnext := hfirst next List.mem_cons_self
    rw [List.dropWhile_cons_of_neg]
    simp only [decide_eq_true_eq]
    omega

/-- The merge is in the order of the sequences, and shows what is to be shown. -/
theorem mergeRows_spec (hdurable : Ascending NotebookCaptureUtteranceDTO.sequence durableRows) (hpreview : Ascending NotebookCaptureUtteranceDTO.sequence previewRows) :
    Ascending NotebookCaptureUtteranceDTO.sequence (mergeRows durableRows previewRows) ∧
      ∀ row, row ∈ mergeRows durableRows previewRows ↔ Merged durableRows previewRows row := by
  fun_induction mergeRows durableRows previewRows with
  | case1 durableRow durableRows previewRow previewRows hle ih =>
    obtain ⟨hfirst, hrest⟩ := List.pairwise_cons.mp hdurable
    obtain ⟨hnext, hpreviewRest⟩ := List.pairwise_cons.mp hpreview
    by_cases hsame : durableRow.sequence = previewRow.sequence
    · rw [hsame, dropWhile_same hpreview] at ih
      rw [hsame, dropWhile_same hpreview]
      obtain ⟨hascending, hmem⟩ := ih hrest hpreviewRest
      refine ⟨List.pairwise_cons.mpr ⟨fun row hrow => ?_, hascending⟩, fun row => ?_⟩
      · rcases (hmem row).mp hrow with hrow | ⟨hrow, -⟩
        · exact hfirst row hrow
        · have := hnext row hrow
          omega
      · rw [List.mem_cons, hmem]
        unfold Merged
        grind
    · rw [List.dropWhile_cons_of_neg (by simpa using fun heq => hsame heq.symm)] at ih ⊢
      obtain ⟨hascending, hmem⟩ := ih hrest hpreview
      refine ⟨List.pairwise_cons.mpr ⟨fun row hrow => ?_, hascending⟩, fun row => ?_⟩
      · rcases (hmem row).mp hrow with hrow | ⟨hrow, -⟩
        · exact hfirst row hrow
        · rcases List.mem_cons.mp hrow with rfl | hrow
          · omega
          · have := hnext row hrow
            omega
      · rw [List.mem_cons, hmem]
        unfold Merged
        grind
  | case2 durableRow durableRows previewRow previewRows hlt ih =>
    obtain ⟨hfirst, -⟩ := List.pairwise_cons.mp hdurable
    obtain ⟨hnext, hpreviewRest⟩ := List.pairwise_cons.mp hpreview
    obtain ⟨hascending, hmem⟩ := ih hdurable hpreviewRest
    refine ⟨List.pairwise_cons.mpr ⟨fun row hrow => ?_, hascending⟩, fun row => ?_⟩
    · rcases (hmem row).mp hrow with hrow | ⟨hrow, -⟩
      · rcases List.mem_cons.mp hrow with rfl | hrow
        · omega
        · have := hfirst row hrow
          omega
      · exact hnext row hrow
    · rw [List.mem_cons, hmem]
      unfold Merged
      grind
  | case3 durableRows => exact ⟨hdurable, fun row => by simp [Merged]⟩
  | case4 previewRows => exact ⟨hpreview, fun row => by simp [Merged]⟩

theorem mergeRows_nil (durableRows : List NotebookCaptureUtteranceDTO) : mergeRows durableRows [] = durableRows := by
  unfold mergeRows
  split <;> first | contradiction | rfl

theorem utterances_some (durable preview : List NotebookCaptureUtteranceDTO) (sessionId : String) :
    utterances durable preview (some sessionId) =
      mergeRows (sessionRows durable sessionId) (sessionRows preview sessionId) := by
  unfold utterances sessionRows
  dsimp only
  split
  next hempty => rw [hempty, mergeRows_nil]
  · rfl

/-! ## The rows of the tail -/

theorem tailWalk_eq (rows result : List NotebookCaptureUtteranceDTO) (h : result.length < limit) :
    tailWalk sessionId limit rows result = result ++ (sessionRows rows sessionId).take (limit - result.length) := by
  induction rows generalizing result with
  | nil => simp [tailWalk, sessionRows]
  | cons row rows ih =>
    unfold tailWalk
    by_cases hsession : row.sessionId = sessionId
    · rw [if_neg (not_not.mpr hsession), sessionRows, List.filter_cons_of_pos (by simpa using hsession), ← sessionRows]
      obtain ⟨left, hleft⟩ : ∃ left, limit - result.length = left + 1 := ⟨limit - result.length - 1, by omega⟩
      rw [hleft, List.take_succ_cons]
      split
      next hfull =>
        simp only [List.length_append, List.length_singleton] at hfull
        obtain rfl : left = 0 := by omega
        simp
      next hmore =>
        simp only [List.length_append, List.length_singleton] at hmore
        rw [ih (result ++ [row]) (by simp only [List.length_append, List.length_singleton]; omega), List.append_assoc,
          List.length_append, List.length_singleton]
        have heq : limit - (result.length + 1) = left := by omega
        rw [heq]
        rfl
    · rw [if_pos hsession, ih result h, sessionRows, sessionRows, List.filter_cons_of_neg (by simpa using hsession)]

theorem orderedTail_eq (hlimit : limit ≠ 0) (rows : List NotebookCaptureUtteranceDTO) (sessionId : String) :
    orderedTail rows sessionId limit = (sessionRows rows sessionId).rtake limit := by
  unfold orderedTail
  rw [tailWalk_eq rows.reverse [] (Nat.pos_of_ne_zero hlimit), List.nil_append, List.length_nil, Nat.sub_zero,
    sessionRows, List.filter_reverse, ← sessionRows, ← List.rtake_eq_reverse_take_reverse]

/-- The sequence a preview row has to be behind, when the durable rows fill the tail. -/
def durableCutoff (durableTail : List NotebookCaptureUtteranceDTO) (limit : Nat) : Option Nat :=
  if durableTail.length = limit then durableTail.head?.map (·.sequence) else none

/-- The rows that the tail is taken from. -/
def candidates (durableRows previewRows : List NotebookCaptureUtteranceDTO) (limit : Nat) :
    List NotebookCaptureUtteranceDTO :=
  durableRows.rtake limit ++ (previewRows.rtake limit).filter fun row =>
    row.sequence ∉ (durableRows.rtake limit).map (·.sequence) ∧
      (durableCutoff (durableRows.rtake limit) limit).all fun cutoff => cutoff < row.sequence

theorem utteranceTail_some (hlimit : limit ≠ 0) (durable preview : List NotebookCaptureUtteranceDTO)
    (sessionId : String) :
    utteranceTail durable preview (some sessionId) limit =
      (sortOn NotebookCaptureUtteranceDTO.sequence
        (candidates (sessionRows durable sessionId) (sessionRows preview sessionId) limit)).rtake limit := by
  have hnat : (max (limit : Int) 0).toNat = limit := by omega
  unfold utteranceTail
  rw [hnat, if_neg hlimit]
  dsimp only
  rw [orderedTail_eq hlimit, orderedTail_eq hlimit]
  rfl

theorem exists_head {rows : List NotebookCaptureUtteranceDTO} (hlimit : limit ≠ 0) (hfull : rows.length = limit) :
    ∃ first rest, rows = first :: rest := List.exists_cons_of_length_pos (by omega)

/-- A row with few durable rows above it is behind the cutoff. -/
theorem behind_cutoff (hdurable : Ascending NotebookCaptureUtteranceDTO.sequence durableRows) (hlimit : limit ≠ 0)
    (habove : (above NotebookCaptureUtteranceDTO.sequence row durableRows).length < limit)
    (hnew : row.sequence ∉ (durableRows.rtake limit).map (·.sequence)) :
    (durableCutoff (durableRows.rtake limit) limit).all fun cutoff => cutoff < row.sequence := by
  unfold durableCutoff
  split
  next hfull =>
    obtain ⟨first, rest, heq⟩ := exists_head hlimit hfull
    have htail := hdurable.rtake limit
    rw [heq] at hnew htail
    rw [heq, List.head?_cons, Option.map_some, Option.all_some, decide_eq_true_eq]
    by_contra hge
    have hne : row.sequence ≠ first.sequence := by
      intro hsame
      apply hnew
      simp [hsame]
    -- Then the whole durable tail is above the row.
    have hsubset : durableRows.rtake limit ⊆ above NotebookCaptureUtteranceDTO.sequence row durableRows := by
      intro other hother
      refine mem_above.mpr ⟨mem_of_mem_rtake hother, ?_⟩
      rw [heq] at hother
      rcases List.mem_cons.mp hother with rfl | hother
      · omega
      · have := (List.pairwise_cons.mp htail).1 other hother
        omega
    have hlength := (List.subperm_of_subset (hdurable.rtake limit).nodup hsubset).length_le
    omega
  next => rfl

/-- Behind the cutoff, a sequence that is not in the durable tail is in no durable row. -/
theorem not_durable (hdurable : Ascending NotebookCaptureUtteranceDTO.sequence durableRows) (hlimit : limit ≠ 0)
    (hnew : row.sequence ∉ (durableRows.rtake limit).map (·.sequence))
    (hcutoff : (durableCutoff (durableRows.rtake limit) limit).all fun cutoff => cutoff < row.sequence) :
    row.sequence ∉ durableRows.map (·.sequence) := by
  intro hmem
  obtain ⟨other, hother, hsame⟩ := List.mem_map.mp hmem
  have hsplit : durableRows = durableRows.take (durableRows.length - limit) ++ durableRows.rtake limit :=
    (List.take_append_drop _ _).symm
  have hnot : other ∉ durableRows.rtake limit := by
    intro htail
    exact hnew (hsame ▸ List.mem_map_of_mem htail)
  have hlong : limit < durableRows.length := by
    by_contra hshort
    rw [rtake_of_length_le (by omega)] at hnot
    exact hnot hother
  have hfull : (durableRows.rtake limit).length = limit := by
    rw [length_rtake]
    omega
  obtain ⟨first, rest, heq⟩ := exists_head hlimit hfull
  rw [durableCutoff, if_pos hfull, heq, List.head?_cons, Option.map_some, Option.all_some, decide_eq_true_eq] at hcutoff
  rw [hsplit] at hother hdurable
  have hfront := (List.mem_append.mp hother).resolve_right hnot
  have hlt := (List.pairwise_append.mp hdurable).2.2 other hfront first (by rw [heq]; exact List.mem_cons_self)
  omega

/-- The last rows of the candidates are those of the merge. -/
theorem candidates_rtake (hlimit : limit ≠ 0) (hdurable : Ascending NotebookCaptureUtteranceDTO.sequence durableRows)
    (hpreview : Ascending NotebookCaptureUtteranceDTO.sequence previewRows) :
    (sortOn NotebookCaptureUtteranceDTO.sequence (candidates durableRows previewRows limit)).rtake limit =
      (mergeRows durableRows previewRows).rtake limit := by
  obtain ⟨hascending, hmem⟩ := mergeRows_spec hdurable hpreview
  have hkeys : ((candidates durableRows previewRows limit).map NotebookCaptureUtteranceDTO.sequence).Nodup := by
    unfold candidates
    rw [List.map_append, List.nodup_append]
    refine ⟨(hdurable.rtake limit).nodup_keys, ((hpreview.rtake limit).filter _).nodup_keys, ?_⟩
    intro a ha b hb hsame
    obtain ⟨row, hrow, rfl⟩ := List.mem_map.mp hb
    have hfilter := (List.mem_filter.mp hrow).2
    rw [decide_eq_true_eq] at hfilter
    exact hfilter.1 (hsame ▸ ha)
  have hpart : sortOn NotebookCaptureUtteranceDTO.sequence (candidates durableRows previewRows limit) ⊆
      mergeRows durableRows previewRows := by
    intro row hrow
    apply (hmem row).mpr
    rcases List.mem_append.mp (mem_sortOn.mp hrow) with hrow | hrow
    · exact .inl (mem_of_mem_rtake hrow)
    · obtain ⟨htail, hfilter⟩ := List.mem_filter.mp hrow
      rw [decide_eq_true_eq] at hfilter
      exact .inr ⟨mem_of_mem_rtake htail, not_durable hdurable hlimit hfilter.1 hfilter.2⟩
  have hlast : (mergeRows durableRows previewRows).rtake limit ⊆
      sortOn NotebookCaptureUtteranceDTO.sequence (candidates durableRows previewRows limit) := by
    intro row hrow
    have hmerged := mem_of_mem_rtake hrow
    have habove := (hascending.mem_rtake hmerged).mp hrow
    have hdurableMem : ∀ other ∈ durableRows, other ∈ mergeRows durableRows previewRows :=
      fun other hother => (hmem other).mpr (.inl hother)
    have hdurableAbove := hdurable.length_above_le _
      (fun other hother => List.mem_map_of_mem (hdurableMem other hother)) row
    apply mem_sortOn.mpr
    apply List.mem_append.mpr
    rcases (hmem row).mp hmerged with hrow | ⟨hrow, hnew⟩
    · exact .inl ((hdurable.mem_rtake hrow).mpr (by omega))
    · right
      have hpreviewAbove := hpreview.length_above_le (mergeRows durableRows previewRows) (fun other hother => by
        by_cases hsame : other.sequence ∈ durableRows.map (·.sequence)
        · obtain ⟨durableRow, hdurableRow, heq⟩ := List.mem_map.mp hsame
          exact heq ▸ List.mem_map_of_mem (hdurableMem durableRow hdurableRow)
        · exact List.mem_map_of_mem ((hmem other).mpr (.inr ⟨hother, hsame⟩))) row
      have hnewTail : row.sequence ∉ (durableRows.rtake limit).map (·.sequence) := by
        intro htail
        obtain ⟨other, hother, hsame⟩ := List.mem_map.mp htail
        exact hnew (hsame ▸ List.mem_map_of_mem (mem_of_mem_rtake hother))
      refine List.mem_filter.mpr ⟨(hpreview.mem_rtake hrow).mpr (by omega), decide_eq_true ⟨hnewTail, ?_⟩⟩
      exact behind_cutoff hdurable hlimit (by omega) hnewTail
  exact hascending.rtake_eq (ascending_sortOn hkeys) hpart hlast

/-- The tail is the end of the full merge, and a preview row whose sequence has a durable row is not in it. -/
theorem utteranceTail_eq (durable preview : List NotebookCaptureUtteranceDTO) (sessionId : Option String) (limit : Int)
    (hdurable : OrderedBySession durable) (hpreview : OrderedBySession preview) :
    utteranceTail durable preview sessionId limit =
        (utterances durable preview sessionId).rtake (max limit 0).toNat ∧
      ∀ row ∈ utteranceTail durable preview sessionId limit, ∀ durableRow ∈ durable,
        sessionId = some durableRow.sessionId → durableRow.sequence = row.sequence → row = durableRow := by
  have heq : utteranceTail durable preview sessionId limit =
      (utterances durable preview sessionId).rtake (max limit 0).toNat := by
    by_cases hlimit : (max limit 0).toNat = 0
    · unfold utteranceTail
      rw [hlimit]
      simp
    · cases sessionId with
      | none => simp [utteranceTail, hlimit, utterances]
      | some sessionId =>
        have hcast : limit = ((max limit 0).toNat : Int) := by omega
        rw [utterances_some, ← candidates_rtake hlimit (hdurable.ascending sessionId) (hpreview.ascending sessionId),
          ← utteranceTail_some hlimit, ← hcast]
  refine ⟨heq, fun row hrow durableRow hdurableRow hsession hsame => ?_⟩
  rw [heq, hsession, utterances_some] at hrow
  obtain ⟨-, hmem⟩ := mergeRows_spec (hdurable.ascending durableRow.sessionId) (hpreview.ascending durableRow.sessionId)
  have hin : durableRow ∈ sessionRows durable durableRow.sessionId := by simp [sessionRows, hdurableRow]
  rcases (hmem row).mp (mem_of_mem_rtake hrow) with hrow | ⟨-, hnew⟩
  · exact (hdurable.ascending durableRow.sessionId).inj hrow hin hsame.symm
  · exact absurd (hsame ▸ List.mem_map_of_mem hin) hnew

/-- A tail of one row: the preview row of sequence 1 has its durable row outside the tail. -/
theorem utteranceTail_one :
    let row (id : String) (sequence : Nat) : NotebookCaptureUtteranceDTO :=
      ⟨id, "s", sequence, none, 1, "en", none, id, none, none, none, none, "partial", "", [], 0, 0⟩
    utteranceTail [row "a" 1, row "b" 2] [row "c" 1] (some "s") 1 =
      (utterances [row "a" 1, row "b" 2] [row "c" 1] (some "s")).rtake 1 := by
  intro row
  exact (utteranceTail_eq [row "a" 1, row "b" 2] [row "c" 1] (some "s") 1
    (by simp [row, OrderedBySession]) (by simp [row, OrderedBySession])).1

end

end Zulangue.LivePresentation
