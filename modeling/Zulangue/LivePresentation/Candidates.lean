import Mathlib.Data.Prod.Lex
import Mathlib.Data.String.Basic
import Mathlib.Order.WithBot
import Zulangue.LivePresentation.Placement
import Zulangue.LivePresentation.Tail

/-!
# The rows an audience canvas can show

`audienceDurableCandidates` keeps, in one pass over the durable rows, what can still be visible. Whoever takes
the last rows of a column, its coverage, or the last rows overall from the candidates gets what all rows give.
-/

namespace Zulangue.LivePresentation

open Zulangue.Lib Zulangue.Lib.LastRows

/-- Rows without a start come last. -/
def sourceComesBefore (left right : NotebookCaptureUtteranceDTO) : Bool :=
  match left.sourceStartMs, right.sourceStartMs with
  | some leftAnchor, some rightAnchor =>
    if leftAnchor ≠ rightAnchor then decide (leftAnchor < rightAnchor) else decide (left.sequence < right.sequence)
  | some _, none => true
  | none, some _ => false
  | none, none => decide (left.sequence < right.sequence)

/-- Ties go by id. -/
def sequenceComesBefore (left right : NotebookCaptureUtteranceDTO) : Bool :=
  if left.sequence ≠ right.sequence then decide (left.sequence < right.sequence) else decide (left.id < right.id)

/-- `sort(by:)`. -/
def sortedBy (before : NotebookCaptureUtteranceDTO → NotebookCaptureUtteranceDTO → Bool)
    (rows : List NotebookCaptureUtteranceDTO) : List NotebookCaptureUtteranceDTO :=
  rows.mergeSort fun left right => !before right left

def coverage (utterance : NotebookCaptureUtteranceDTO) : Option Nat := utterance.sourceEndMs.or utterance.sourceStartMs

/-- `removeFirst`, when there are more than `limit`. -/
def removeSurplus (limit : Nat) (rows : List NotebookCaptureUtteranceDTO) : List NotebookCaptureUtteranceDTO :=
  if limit < rows.length then rows.drop (rows.length - limit) else rows

structure CandidateState where
  visibleSources : List (String × List NotebookCaptureUtteranceDTO)
  coverageLeaders : List (String × NotebookCaptureUtteranceDTO)
  globalTail : List NotebookCaptureUtteranceDTO

def CandidateState.start : CandidateState := ⟨[], [], []⟩

section
variable (placement : NotebookCaptureUtteranceDTO → Option String) (limit : Nat)

def CandidateState.lead (state : CandidateState) (language : String) (utterance : NotebookCaptureUtteranceDTO) :
    CandidateState :=
  match coverage utterance with
  | some reached =>
    if ((KeyMap.get language state.coverageLeaders).bind coverage).all (· < reached) then
      { state with coverageLeaders := KeyMap.insert language utterance state.coverageLeaders }
    else state
  | none => state

/-- One row of the session. -/
def candidateStep (state : CandidateState) (utterance : NotebookCaptureUtteranceDTO) : CandidateState :=
  let state := { state with globalTail := removeSurplus limit (state.globalTail ++ [utterance]) }
  match placement utterance with
  | some language =>
    let retained := (KeyMap.get language state.visibleSources).getD [] ++ [utterance]
    let retained := removeSurplus limit (sortedBy sourceComesBefore retained)
    { state with visibleSources := KeyMap.insert language retained state.visibleSources }.lead language utterance
  | none => state

/-- What is kept for the columns and for the strip. -/
def CandidateState.kept (state : CandidateState) : List NotebookCaptureUtteranceDTO :=
  state.globalTail ++ (state.visibleSources.map (·.2)).flatten ++ state.coverageLeaders.map (·.2)

/-- `candidatesByID`. -/
def byID (rows : List NotebookCaptureUtteranceDTO) : List (String × NotebookCaptureUtteranceDTO) :=
  KeyMap.ofList (rows.map fun utterance => (utterance.id, utterance))

end

def audienceDurableCandidates (lowercased : String → String) (durable : List NotebookCaptureUtteranceDTO)
    (sessionId : String) (selectedLanguages : List String) (lastIdentifiedSourceLanguage : Option String)
    (maximumRows : Int) : List NotebookCaptureUtteranceDTO :=
  let limit := (max maximumRows 0).toNat
  if limit = 0 then []
  else
    let placement utterance := audienceSourcePlacement lowercased utterance selectedLanguages lastIdentifiedSourceLanguage
    let state := (sessionRows durable sessionId).foldl (candidateStep placement limit) .start
    sortedBy sequenceComesBefore ((byID state.kept).map (·.2))

/-! ## What is taken from the rows -/

section
variable (placement : NotebookCaptureUtteranceDTO → Option String)

/-- The rows of a column. -/
def placedRows (language : String) (rows : List NotebookCaptureUtteranceDTO) : List NotebookCaptureUtteranceDTO :=
  rows.filter (placement · = some language)

/-- The cards of a column. -/
def visibleRows (limit : Nat) (language : String) (rows : List NotebookCaptureUtteranceDTO) :
    List NotebookCaptureUtteranceDTO :=
  (sortedBy sourceComesBefore (placedRows placement language rows)).rtake limit

/-- How far the sources of a column reach. -/
def greatestCoverage (language : String) (rows : List NotebookCaptureUtteranceDTO) : Option Nat :=
  ((placedRows placement language rows).filterMap coverage).max?

end

/-- The rows of the strip. -/
def lastRows (limit : Nat) (rows : List NotebookCaptureUtteranceDTO) : List NotebookCaptureUtteranceDTO :=
  (sortedBy sequenceComesBefore rows).rtake limit

/-! ## The order of the sources -/

/-- The order of `sourceComesBefore`. -/
def sourceKey (utterance : NotebookCaptureUtteranceDTO) : WithTop Nat ×ₗ Nat :=
  toLex ((match utterance.sourceStartMs with
    | some anchor => WithTop.some anchor
    | none => ⊤), utterance.sequence)

/-- The order of `sequenceComesBefore`. -/
def sequenceKey (utterance : NotebookCaptureUtteranceDTO) : Nat ×ₗ String := toLex (utterance.sequence, utterance.id)

section
variable {left right : NotebookCaptureUtteranceDTO}

theorem sourceComesBefore_iff : sourceComesBefore left right = true ↔ sourceKey left < sourceKey right := by
  unfold sourceComesBefore sourceKey
  rw [Prod.Lex.toLex_lt_toLex]
  cases left.sourceStartMs with
  | none =>
    cases right.sourceStartMs with
    | none => simp
    | some rightAnchor => simp
  | some leftAnchor =>
    cases right.sourceStartMs with
    | none => simp
    | some rightAnchor =>
      by_cases hsame : leftAnchor = rightAnchor
      · simp [hsame]
      · simp [hsame]

theorem sortedBy_sourceComesBefore (rows : List NotebookCaptureUtteranceDTO) :
    sortedBy sourceComesBefore rows = sortOn sourceKey rows := by
  unfold sortedBy sortOn
  congr 1
  funext left right
  rw [Bool.eq_iff_iff, Bool.not_eq_true', ← Bool.not_eq_true, sourceComesBefore_iff, not_lt, decide_eq_true_eq]

theorem sequenceComesBefore_iff : sequenceComesBefore left right = true ↔ sequenceKey left < sequenceKey right := by
  unfold sequenceComesBefore sequenceKey
  rw [Prod.Lex.toLex_lt_toLex]
  by_cases hsame : left.sequence = right.sequence
  · simp [hsame]
  · simp [hsame]

theorem sortedBy_sequenceComesBefore (rows : List NotebookCaptureUtteranceDTO) :
    sortedBy sequenceComesBefore rows = sortOn sequenceKey rows := by
  unfold sortedBy sortOn
  congr 1
  funext left right
  rw [Bool.eq_iff_iff, Bool.not_eq_true', ← Bool.not_eq_true, sequenceComesBefore_iff, not_lt, decide_eq_true_eq]

theorem removeSurplus_eq (limit : Nat) (rows : List NotebookCaptureUtteranceDTO) :
    removeSurplus limit rows = rows.rtake limit := by
  unfold removeSurplus
  split
  · rfl
  next hshort => rw [rtake_of_length_le (by omega)]

/-- Rows of different sequences have different keys. -/
theorem nodup_sourceKey {rows : List NotebookCaptureUtteranceDTO} (h : (rows.map (·.sequence)).Nodup) :
    (rows.map sourceKey).Nodup := by
  apply List.Nodup.of_map (fun key : WithTop Nat ×ₗ Nat => (ofLex key).2)
  rw [List.map_map]
  exact h

theorem nodup_sequenceKey {rows : List NotebookCaptureUtteranceDTO} (h : (rows.map (·.sequence)).Nodup) :
    (rows.map sequenceKey).Nodup := by
  apply List.Nodup.of_map (fun key : Nat ×ₗ String => (ofLex key).1)
  rw [List.map_map]
  exact h

end

/-! ## The pass -/

section
variable {placement : NotebookCaptureUtteranceDTO → Option String} {limit : Nat} {language : String}
  {rows done : List NotebookCaptureUtteranceDTO} {state : CandidateState} {utterance : NotebookCaptureUtteranceDTO}

theorem mem_placedRows : utterance ∈ placedRows placement language rows ↔
    utterance ∈ rows ∧ placement utterance = some language := by
  simp [placedRows]

theorem placedRows_snoc : placedRows placement language (done ++ [utterance]) =
    placedRows placement language done ++ if placement utterance = some language then [utterance] else [] := by
  unfold placedRows
  rw [List.filter_append]
  by_cases h : placement utterance = some language
  · simp [h]
  · simp [h]

/-- The leader of a column reaches as far as any of its rows. -/
structure Led (placement : NotebookCaptureUtteranceDTO → Option String) (done : List NotebookCaptureUtteranceDTO)
    (leaders : List (String × NotebookCaptureUtteranceDTO)) : Prop where
  sorted : KeyMap.Sorted leaders
  leads : ∀ language utterance, KeyMap.get language leaders = some utterance →
    utterance ∈ placedRows placement language done ∧ ∃ reached, coverage utterance = some reached ∧
      ∀ other ∈ placedRows placement language done, ∀ c ∈ coverage other, c ≤ reached
  uncovered : ∀ language, KeyMap.get language leaders = none →
    ∀ other ∈ placedRows placement language done, coverage other = none

/-- What the pass holds behind the rows that are done. -/
structure Selected (placement : NotebookCaptureUtteranceDTO → Option String) (limit : Nat)
    (done : List NotebookCaptureUtteranceDTO) (state : CandidateState) : Prop where
  tail : state.globalTail = done.rtake limit
  visibleSorted : KeyMap.Sorted state.visibleSources
  visible : ∀ language, (KeyMap.get language state.visibleSources).getD [] =
    (sortOn sourceKey (placedRows placement language done)).rtake limit
  leaders : Led placement done state.coverageLeaders

theorem selected_start (placement : NotebookCaptureUtteranceDTO → Option String) (limit : Nat) :
    Selected placement limit [] .start := by
  refine ⟨by simp [CandidateState.start], KeyMap.sorted_nil, ?_, KeyMap.sorted_nil, ?_, ?_⟩
  · intro language
    simp [CandidateState.start, placedRows, sortOn]
  · intro language utterance hget
    cases hget
  · intro language _ other hother
    cases hother

/-- A row outside the column changes nothing there. -/
theorem placedRows_snoc_of_ne (h : placement utterance ≠ some language) :
    placedRows placement language (done ++ [utterance]) = placedRows placement language done := by
  rw [placedRows_snoc, if_neg h, List.append_nil]

theorem placedRows_snoc_of_eq (h : placement utterance = some language) :
    placedRows placement language (done ++ [utterance]) = placedRows placement language done ++ [utterance] := by
  rw [placedRows_snoc, if_pos h]

theorem lead_visibleSources : (state.lead language utterance).visibleSources = state.visibleSources := by
  unfold CandidateState.lead
  split
  · split <;> rfl
  · rfl

theorem lead_globalTail : (state.lead language utterance).globalTail = state.globalTail := by
  unfold CandidateState.lead
  split
  · split <;> rfl
  · rfl

/-- A row without coverage leads no column. -/
theorem Led.snoc {leaders : List (String × NotebookCaptureUtteranceDTO)} (h : Led placement done leaders)
    (hskip : placement utterance = none ∨ coverage utterance = none) : Led placement (done ++ [utterance]) leaders := by
  have hnew : ∀ language, ∀ other ∈ placedRows placement language (done ++ [utterance]),
      other ∈ placedRows placement language done ∨ coverage other = none := by
    intro language other hother
    obtain ⟨hmem, hplaced⟩ := mem_placedRows.mp hother
    rcases List.mem_append.mp hmem with hold | hlast
    · exact .inl (mem_placedRows.mpr ⟨hold, hplaced⟩)
    · obtain rfl := List.mem_singleton.mp hlast
      exact .inr (hskip.resolve_left (by simp [hplaced]))
  refine ⟨h.sorted, ?_, ?_⟩
  · intro language leader hget
    obtain ⟨hmem, reached, hreached, hall⟩ := h.leads language leader hget
    obtain ⟨hdone, hplaced⟩ := mem_placedRows.mp hmem
    refine ⟨mem_placedRows.mpr ⟨List.mem_append_left _ hdone, hplaced⟩, reached, hreached, ?_⟩
    intro other hother c hc
    rcases hnew language other hother with hold | hnone
    · exact hall other hold c hc
    · rw [hnone] at hc
      cases hc
  · intro language hget other hother
    rcases hnew language other hother with hold | hnone
    · exact h.uncovered language hget other hold
    · exact hnone

/-- The row of a column, when its leader does not reach less far. -/
theorem Led.keep {leaders : List (String × NotebookCaptureUtteranceDTO)} (h : Led placement done leaders)
    (hplacement : placement utterance = some language) {reached : Nat} (hreached : coverage utterance = some reached)
    {leader : NotebookCaptureUtteranceDTO} (hleader : KeyMap.get language leaders = some leader) {best : Nat}
    (hbest : coverage leader = some best) (hle : reached ≤ best) : Led placement (done ++ [utterance]) leaders := by
  refine ⟨h.sorted, ?_, ?_⟩
  · intro l other hget
    obtain ⟨hmem, most, hmost, hall⟩ := h.leads l other hget
    obtain ⟨hdone, hplaced⟩ := mem_placedRows.mp hmem
    refine ⟨mem_placedRows.mpr ⟨List.mem_append_left _ hdone, hplaced⟩, most, hmost, ?_⟩
    intro row hrow c hc
    obtain ⟨hmem, hplaced⟩ := mem_placedRows.mp hrow
    rcases List.mem_append.mp hmem with hold | hlast
    · exact hall row (mem_placedRows.mpr ⟨hold, hplaced⟩) c hc
    · obtain rfl := List.mem_singleton.mp hlast
      obtain rfl := Option.some.inj (hplaced.symm.trans hplacement)
      obtain rfl := Option.some.inj (hget.symm.trans hleader)
      obtain rfl := Option.some.inj (hmost.symm.trans hbest)
      obtain rfl := Option.some.inj (hc.symm.trans hreached)
      exact hle
  · intro l hget row hrow
    obtain ⟨hmem, hplaced⟩ := mem_placedRows.mp hrow
    rcases List.mem_append.mp hmem with hold | hlast
    · exact h.uncovered l hget row (mem_placedRows.mpr ⟨hold, hplaced⟩)
    · obtain rfl := List.mem_singleton.mp hlast
      obtain rfl := Option.some.inj (hplaced.symm.trans hplacement)
      rw [hleader] at hget
      cases hget

/-- The row of a column that reaches further than its leader. -/
theorem Led.insert {leaders : List (String × NotebookCaptureUtteranceDTO)} (h : Led placement done leaders)
    (hplacement : placement utterance = some language) {reached : Nat} (hreached : coverage utterance = some reached)
    (hfurther : ((KeyMap.get language leaders).bind coverage).all (· < reached)) :
    Led placement (done ++ [utterance]) (KeyMap.insert language utterance leaders) := by
  refine ⟨KeyMap.sorted_insert h.sorted _ _, ?_, ?_⟩
  · intro l other hget
    rw [KeyMap.get_insert] at hget
    by_cases hl : l = language
    · subst hl
      rw [if_pos rfl] at hget
      obtain rfl := Option.some.inj hget
      refine ⟨mem_placedRows.mpr ⟨by simp, hplacement⟩, reached, hreached, ?_⟩
      intro row hrow c hc
      obtain ⟨hmem, hplaced⟩ := mem_placedRows.mp hrow
      rcases List.mem_append.mp hmem with hold | hlast
      · have hrowDone := mem_placedRows.mpr ⟨hold, hplaced⟩
        cases hleader : KeyMap.get l leaders with
        | none =>
          rw [h.uncovered l hleader row hrowDone] at hc
          cases hc
        | some leader =>
          obtain ⟨-, best, hbest, hall⟩ := h.leads l leader hleader
          rw [hleader, Option.bind_some, hbest, Option.all_some, decide_eq_true_eq] at hfurther
          have := hall row hrowDone c hc
          omega
      · obtain rfl := List.mem_singleton.mp hlast
        obtain rfl := Option.some.inj (hc.symm.trans hreached)
        exact Nat.le_refl _
    · rw [if_neg hl] at hget
      have hne : placement utterance ≠ some l := by
        rw [hplacement]
        intro heq
        exact hl (Option.some.inj heq).symm
      rw [placedRows_snoc_of_ne hne]
      exact h.leads l other hget
  · intro l hget
    rw [KeyMap.get_insert] at hget
    by_cases hl : l = language
    · rw [if_pos hl] at hget
      cases hget
    · rw [if_neg hl] at hget
      have hne : placement utterance ≠ some l := by
        rw [hplacement]
        intro heq
        exact hl (Option.some.inj heq).symm
      rw [placedRows_snoc_of_ne hne]
      exact h.uncovered l hget

/-- The leaders, once the row of a column is counted. -/
theorem Led.lead (h : Led placement done state.coverageLeaders) (hplacement : placement utterance = some language) :
    Led placement (done ++ [utterance]) (state.lead language utterance).coverageLeaders := by
  unfold CandidateState.lead
  split
  next reached hreached =>
    split
    next hfurther => exact h.insert hplacement hreached hfurther
    next hbehind =>
      cases hleader : KeyMap.get language state.coverageLeaders with
      | none =>
        rw [hleader] at hbehind
        exact absurd rfl hbehind
      | some leader =>
        obtain ⟨-, best, hbest, -⟩ := h.leads language leader hleader
        rw [hleader, Option.bind_some, hbest, Option.all_some, decide_eq_true_eq] at hbehind
        exact h.keep hplacement hreached hleader hbest (by omega)
  next hnone => exact h.snoc (.inr hnone)

theorem placedRows_sublist : (placedRows placement language rows).Sublist rows := List.filter_sublist

theorem Selected.step (h : Selected placement limit done state)
    (hsequences : ((done ++ [utterance]).map (·.sequence)).Nodup) :
    Selected placement limit (done ++ [utterance]) (candidateStep placement limit state utterance) := by
  have htail : removeSurplus limit (state.globalTail ++ [utterance]) = (done ++ [utterance]).rtake limit := by
    rw [removeSurplus_eq, h.tail, rtake_snoc]
  unfold candidateStep
  dsimp only
  cases hplacement : placement utterance with
  | none =>
    refine ⟨htail, h.visibleSorted, ?_, h.leaders.snoc (.inl hplacement)⟩
    intro language
    rw [placedRows_snoc_of_ne (by simp [hplacement])]
    exact h.visible language
  | some language =>
    dsimp only
    refine ⟨?_, ?_, ?_, Led.lead h.leaders hplacement⟩
    · rw [lead_globalTail]
      exact htail
    · rw [lead_visibleSources]
      exact KeyMap.sorted_insert h.visibleSorted _ _
    · intro l
      rw [lead_visibleSources, KeyMap.get_insert]
      by_cases hl : l = language
      · subst hl
        rw [if_pos rfl, Option.getD_some, removeSurplus_eq, sortedBy_sourceComesBefore, h.visible,
          placedRows_snoc_of_eq hplacement, rtake_sortOn_snoc]
        rw [← placedRows_snoc_of_eq hplacement]
        exact nodup_sourceKey (hsequences.sublist (placedRows_sublist.map _))
      · rw [if_neg hl, placedRows_snoc_of_ne]
        · exact h.visible l
        · rw [hplacement]
          intro heq
          exact hl (Option.some.inj heq).symm

theorem selected_run (rows : List NotebookCaptureUtteranceDTO) (h : Selected placement limit done state)
    (hsequences : ((done ++ rows).map (·.sequence)).Nodup) :
    Selected placement limit (done ++ rows) (rows.foldl (candidateStep placement limit) state) := by
  induction rows generalizing done state with
  | nil =>
    rw [List.append_nil]
    exact h
  | cons utterance rows ih =>
    have hsplit : done ++ utterance :: rows = (done ++ [utterance]) ++ rows := by simp
    rw [hsplit] at hsequences ⊢
    apply ih (h.step _) hsequences
    rw [List.map_append] at hsequences
    exact hsequences.of_append_left

/-! ## The candidates -/

/-- The rows kept are rows of the session. -/
theorem Selected.kept_subset (h : Selected placement limit rows state) : state.kept ⊆ rows := by
  intro row hrow
  rcases List.mem_append.mp hrow with hrow | hleader
  · rcases List.mem_append.mp hrow with htail | hvisible
    · rw [h.tail] at htail
      exact mem_of_mem_rtake htail
    · obtain ⟨retained, hretained, hrow⟩ := List.mem_flatten.mp hvisible
      obtain ⟨⟨language, _⟩, hentry, rfl⟩ := List.mem_map.mp hretained
      have hget := h.visible language
      rw [h.visibleSorted.get_of_mem hentry, Option.getD_some] at hget
      dsimp only at hrow
      rw [hget] at hrow
      exact placedRows_sublist.subset (mem_sortOn.mp (mem_of_mem_rtake hrow))
  · obtain ⟨⟨language, leader⟩, hentry, rfl⟩ := List.mem_map.mp hleader
    exact placedRows_sublist.subset (h.leaders.leads language leader (h.leaders.sorted.get_of_mem hentry)).1

theorem Selected.tail_subset_kept (h : Selected placement limit rows state) : rows.rtake limit ⊆ state.kept := by
  intro row hrow
  rw [← h.tail] at hrow
  exact List.mem_append_left _ (List.mem_append_left _ hrow)

theorem Selected.visible_subset_kept (h : Selected placement limit rows state) (language : String) :
    (sortOn sourceKey (placedRows placement language rows)).rtake limit ⊆ state.kept := by
  intro row hrow
  rw [← h.visible language] at hrow
  cases hget : KeyMap.get language state.visibleSources with
  | none =>
    rw [hget] at hrow
    cases hrow
  | some retained =>
    rw [hget, Option.getD_some] at hrow
    apply List.mem_append_left
    apply List.mem_append_right
    exact List.mem_flatten.mpr ⟨retained, List.mem_map_of_mem (KeyMap.mem_of_get hget), hrow⟩

theorem Selected.leader_mem_kept {leader : NotebookCaptureUtteranceDTO}
    (hget : KeyMap.get language state.coverageLeaders = some leader) : leader ∈ state.kept :=
  List.mem_append_right _ (List.mem_map_of_mem (KeyMap.mem_of_get hget))

theorem get_foldl_insert {entries m : List (String × NotebookCaptureUtteranceDTO)} {id : String}
    (hmem : (id, utterance) ∈ entries ∨ KeyMap.get id m = some utterance)
    (hsame : ∀ entry ∈ entries, entry.1 = id → entry.2 = utterance) :
    KeyMap.get id (entries.foldl (fun m entry => KeyMap.insert entry.1 entry.2 m) m) = some utterance := by
  induction entries generalizing m with
  | nil => exact hmem.resolve_left List.not_mem_nil
  | cons entry entries ih =>
    apply ih
    · rw [KeyMap.get_insert]
      by_cases hid : id = entry.1
      · right
        rw [if_pos hid, hsame entry List.mem_cons_self hid.symm]
      · rw [if_neg hid]
        rcases hmem with hmem | hget
        · rcases List.mem_cons.mp hmem with rfl | hmem
          · exact absurd rfl hid
          · exact .inl hmem
        · exact .inr hget
    · intro other hother
      exact hsame other (List.mem_cons_of_mem _ hother)

/-- Rows of different ids all stay. -/
theorem mem_byID (hids : ∀ left ∈ rows, ∀ right ∈ rows, left.id = right.id → left = right) :
    utterance ∈ (byID rows).map (·.2) ↔ utterance ∈ rows := by
  constructor
  · intro hmem
    obtain ⟨entry, hentry, rfl⟩ := List.mem_map.mp hmem
    obtain ⟨row, hrow, rfl⟩ := List.mem_map.mp (KeyMap.mem_of_mem_ofList hentry)
    exact hrow
  · intro hmem
    have hget : KeyMap.get utterance.id (byID rows) = some utterance := by
      apply get_foldl_insert
      · exact .inl (List.mem_map.mpr ⟨utterance, hmem, rfl⟩)
      · intro entry hentry hid
        obtain ⟨row, hrow, rfl⟩ := List.mem_map.mp hentry
        exact hids row hrow utterance hmem hid
    exact List.mem_map.mpr ⟨_, KeyMap.mem_of_get hget, rfl⟩

theorem nodup_byID : ((byID rows).map (·.2)).Nodup := by
  apply List.Nodup.of_map NotebookCaptureUtteranceDTO.id
  rw [List.map_map]
  have hkeys : (byID rows).map (fun entry => entry.2.id) = (byID rows).map (·.1) := by
    apply List.map_congr_left
    intro entry hentry
    obtain ⟨row, -, rfl⟩ := List.mem_map.mp (KeyMap.mem_of_mem_ofList hentry)
    rfl
  exact hkeys ▸ (KeyMap.sorted_ofList _).keys_nodup

/-- The greatest coverage is that of the leader. -/
theorem greatestCoverage_eq (h : Led placement rows state.coverageLeaders)
    {candidates : List NotebookCaptureUtteranceDTO} (hpart : candidates ⊆ rows)
    (hleaders : ∀ leader, KeyMap.get language state.coverageLeaders = some leader → leader ∈ candidates) :
    greatestCoverage placement language candidates = greatestCoverage placement language rows := by
  unfold greatestCoverage
  cases hleader : KeyMap.get language state.coverageLeaders with
  | none =>
    have hnone : ∀ others ⊆ rows, (placedRows placement language others).filterMap coverage = [] := by
      intro others hothers
      apply List.filterMap_eq_nil_iff.mpr
      intro row hrow
      obtain ⟨hmem, hplaced⟩ := mem_placedRows.mp hrow
      exact h.uncovered language hleader row (mem_placedRows.mpr ⟨hothers hmem, hplaced⟩)
    rw [hnone candidates hpart, hnone rows (List.Subset.refl rows)]
  | some leader =>
    obtain ⟨hmem, reached, hreached, hall⟩ := h.leads language leader hleader
    have hmax : ∀ others ⊆ rows, leader ∈ others →
        ((placedRows placement language others).filterMap coverage).max? = some reached := by
      intro others hothers hin
      apply List.max?_eq_some_iff.mpr
      refine ⟨List.mem_filterMap.mpr ⟨leader, mem_placedRows.mpr ⟨hin, (mem_placedRows.mp hmem).2⟩, hreached⟩, ?_⟩
      intro c hc
      obtain ⟨row, hrow, hcoverage⟩ := List.mem_filterMap.mp hc
      obtain ⟨hrowMem, hplaced⟩ := mem_placedRows.mp hrow
      exact hall row (mem_placedRows.mpr ⟨hothers hrowMem, hplaced⟩) c hcoverage
    rw [hmax candidates hpart (hleaders leader hleader), hmax rows (List.Subset.refl rows) (mem_placedRows.mp hmem).1]

/-- The candidates show what all durable rows of the session show. -/
theorem audienceDurableCandidates_lose_nothing (lowercased : String → String)
    (durable : List NotebookCaptureUtteranceDTO) (sessionId : String) (selectedLanguages : List String)
    (lastIdentifiedSourceLanguage : Option String) (maximumRows : Int) (hpos : 1 ≤ maximumRows)
    (hids : (durable.map (·.id)).Nodup) (hordered : OrderedBySession durable) :
    let placement utterance := audienceSourcePlacement lowercased utterance selectedLanguages lastIdentifiedSourceLanguage
    let rows := sessionRows durable sessionId
    let candidates := audienceDurableCandidates lowercased durable sessionId selectedLanguages
      lastIdentifiedSourceLanguage maximumRows
    (∀ language, visibleRows placement maximumRows.toNat language candidates =
        visibleRows placement maximumRows.toNat language rows ∧
      greatestCoverage placement language candidates = greatestCoverage placement language rows) ∧
    lastRows maximumRows.toNat candidates = lastRows maximumRows.toNat rows := by
  intro placement rows candidates
  have hlimit : (max maximumRows 0).toNat = maximumRows.toNat := by omega
  have hascending : Ascending NotebookCaptureUtteranceDTO.sequence rows := hordered.ascending sessionId
  have hselected := selected_run rows (selected_start placement maximumRows.toNat) hascending.nodup_keys
  rw [List.nil_append] at hselected
  generalize hstate : rows.foldl (candidateStep placement maximumRows.toNat) .start = state at hselected
  have hcandidates : candidates = sortedBy sequenceComesBefore ((byID state.kept).map (·.2)) := by
    show audienceDurableCandidates lowercased durable sessionId selectedLanguages lastIdentifiedSourceLanguage
      maximumRows = _
    unfold audienceDurableCandidates
    rw [hlimit, ← hstate, if_neg (by omega)]
  have hsessionIds : ∀ left ∈ state.kept, ∀ right ∈ state.kept, left.id = right.id → left = right := by
    intro left hleft right hright
    have hmem : ∀ row ∈ state.kept, row ∈ durable := fun row hrow =>
      List.mem_of_mem_filter (hselected.kept_subset hrow)
    exact List.inj_on_of_nodup_map hids (hmem left hleft) (hmem right hright)
  have hmem : ∀ row, row ∈ candidates ↔ row ∈ state.kept := by
    intro row
    rw [hcandidates, sortedBy_sequenceComesBefore, mem_sortOn, mem_byID hsessionIds]
  have hpart : candidates ⊆ rows := fun row hrow => hselected.kept_subset ((hmem row).mp hrow)
  have hsequences : (candidates.map (·.sequence)).Nodup := by
    apply List.Nodup.map_on
    · intro left hleft right hright
      exact hascending.inj (hpart hleft) (hpart hright)
    · rw [hcandidates]
      exact (List.mergeSort_perm _ _).nodup_iff.mpr nodup_byID
  refine ⟨fun language => ⟨?_, ?_⟩, ?_⟩
  · unfold visibleRows
    rw [sortedBy_sourceComesBefore, sortedBy_sourceComesBefore]
    apply rtake_sortOn_of_subset
    · exact nodup_sourceKey (hascending.nodup_keys.sublist (placedRows_sublist.map _))
    · exact nodup_sourceKey (hsequences.sublist (placedRows_sublist.map _))
    · intro row hrow
      obtain ⟨hrow, hplaced⟩ := mem_placedRows.mp hrow
      exact mem_placedRows.mpr ⟨hpart hrow, hplaced⟩
    · intro row hrow
      have hplaced := (mem_placedRows.mp (mem_sortOn.mp (mem_of_mem_rtake hrow))).2
      exact mem_placedRows.mpr ⟨(hmem row).mpr (hselected.visible_subset_kept language hrow), hplaced⟩
  · exact greatestCoverage_eq hselected.leaders hpart fun leader hget => (hmem leader).mpr (Selected.leader_mem_kept hget)
  · have hsorted : sortOn sequenceKey rows = rows := by
      apply sortOn_of_ascending
      apply hascending.imp
      intro left right hlt
      exact sequenceComesBefore_iff.mp (by simp [sequenceComesBefore, ne_of_lt hlt, hlt])
    unfold lastRows
    rw [sortedBy_sequenceComesBefore, sortedBy_sequenceComesBefore]
    apply rtake_sortOn_of_subset (nodup_sequenceKey hascending.nodup_keys) (nodup_sequenceKey hsequences) hpart
    rw [hsorted]
    intro row hrow
    exact (hmem row).mpr (hselected.tail_subset_kept hrow)

/-- Two rows of one session, and room for one. -/
theorem audienceDurableCandidates_lose_nothing_two :
    let row (id : String) (sequence : Nat) (start : Option Nat) : NotebookCaptureUtteranceDTO :=
      ⟨id, "s", sequence, none, 1, "en", none, id, start, none, none, none, "complete", "", [], 0, 0⟩
    let rows := [row "a" 1 none, row "b" 2 (some 30)]
    lastRows 1 (audienceDurableCandidates id rows "s" ["en"] none 1) = lastRows 1 (sessionRows rows "s") := by
  intro row rows
  exact (audienceDurableCandidates_lose_nothing id rows "s" ["en"] none 1 (by decide) (by simp [rows, row])
    (by simp [rows, row, OrderedBySession])).2

end

end Zulangue.LivePresentation
