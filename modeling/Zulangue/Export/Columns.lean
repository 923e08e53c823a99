import Mathlib.Data.List.Count
import Zulangue.Export.Documents

/-!
# What language columns show

The table and the other part are read back from the documents with language columns, and
compared with the facts of the utterances.
-/

namespace Zulangue.Export

open Zulangue.Lib.Cells

/-! ## Reading a document -/

/-- The rows above the utterances, the rows of utterances, and the entries under the table. -/
structure Shown where
  header : List (List Text)
  rows : List (List Text)
  others : List Text
  deriving DecidableEq, Repr

def filled (line : Text) : Bool := line ≠ []

def readOthers : List Text → List Text
  | heading :: blank :: rest =>
    if heading = otherHeading ∧ blank = [] then rest.takeWhile filled else []
  | _ => []

def readMarkdown (languageColumns : List Text) (text : Text) : Shown :=
  let ls := text.splitOn '\n'
  if languageColumns = [] then ⟨[], [], readOthers ls⟩
  else
    { header := (ls.take 2).map readRow
      rows := ((ls.drop 2).takeWhile filled).map readRow
      others := readOthers ((ls.drop 2).dropWhile filled).tail }

/-- In plain text nothing stands between the table and the entries. -/
def readTxt (languageColumns : List Text) (rowCount : Nat) (text : Text) : Shown :=
  let ls := text.splitOn '\n'
  let top := if languageColumns = [] then 0 else 1
  { header := (ls.take top).map (List.splitOn '\t')
    rows := ((ls.drop top).take rowCount).map (List.splitOn '\t')
    others := ((ls.drop top).drop rowCount).takeWhile filled }

/-! ## Keeping the facts -/

/-- The texts in a row, each with its place. -/
def textsOf (row : List Text) : List (Text × Nat) := row.zipIdx.filter fun cell => filled cell.1

/-- The facts that a column matches, each at the place of its column. -/
def placed (languageColumns : List Text) (cell : Text → Text) (facts : List UtteranceFact) :
    List (Text × Nat) :=
  facts.filterMap fun fact =>
    (languageIndex languageColumns fact.language).map fun index => (cell fact.text, index)

/-- An utterance with a fact for one of the columns. -/
def hasRow (languageColumns : List Text) (utterance : ExportUtterance) : Bool :=
  (factsOf utterance).any fun fact => !isUnrepresented languageColumns fact

/-- A cell for each column, and in them every fact of the columns exactly once. -/
structure RowShows (languageColumns : List Text) (cell : Text → Text) (row : List Text)
    (utterance : ExportUtterance) : Prop where
  length : row.length = languageColumns.length
  texts : (textsOf row).Perm (placed languageColumns cell (factsOf utterance))

/-- Rows and entries show the facts of each utterance, and the utterances in their order. -/
structure KeepsFacts (languageColumns : List Text) (utterances : List ExportUtterance)
    (cell : Text → Text) (entry : ExportUtterance → UtteranceFact → Text) (shown : Shown) : Prop where
  header : ∀ row ∈ shown.header, row.length = languageColumns.length
  rows : List.Forall₂ (RowShows languageColumns cell) shown.rows
    (utterances.filter (hasRow languageColumns))
  others : ∃ entries : List (List Text), shown.others = entries.flatten ∧
    List.Forall₂ (fun ls utterance =>
      ls.Perm (((factsOf utterance).filter (isUnrepresented languageColumns)).map (entry utterance)))
      entries utterances

/-- No two facts of an utterance have the base language of one column. -/
def OneFactPerColumn (languageColumns : List Text) (utterances : List ExportUtterance) : Prop :=
  ∀ utterance ∈ utterances, ∀ column ∈ languageColumns,
    ((factsOf utterance).filter fun fact => sameLanguage column fact.language).length ≤ 1

/-! ## One row -/

theorem textsOf_set {row : List Text} {index : Nat} {text : Text} (hempty : row[index]? = some [])
    (htext : text ≠ []) : (textsOf (row.set index text)).Perm (textsOf row ++ [(text, index)]) := by
  obtain ⟨hlt, hindex⟩ := List.getElem?_eq_some_iff.mp hempty
  have hrow : row = row.take index ++ [] :: row.drop (index + 1) := by
    rw [← hindex, ← List.drop_eq_getElem_cons hlt, List.take_append_drop]
  have hlength : (row.take index).length = index := List.length_take_of_le (by omega)
  generalize row.take index = before, row.drop (index + 1) = behind at hrow hlength
  subst hrow hlength
  simp only [textsOf, List.set_append_right _ _ (Nat.le_refl before.length), Nat.sub_self,
    List.set_cons_zero, List.zipIdx_append, List.zipIdx_cons, List.filter_append]
  rw [List.filter_cons_of_pos (by simpa [filled] using htext),
    List.filter_cons_of_neg (by simp [filled]), List.append_assoc]
  apply List.Perm.append_left
  simpa using (List.perm_append_singleton _ _).symm

theorem textsOf_replicate (n : Nat) : textsOf (List.replicate n []) = [] := by
  rw [textsOf, List.filter_eq_nil_iff]
  intro cell hcell
  obtain ⟨-, hget⟩ := List.mem_zipIdx' hcell
  simp [filled, hget]

theorem textsOf_map {cell : Text → Text} (hcell : ∀ text, cell text = [] ↔ text = []) (row : List Text) :
    textsOf (row.map cell) = (textsOf row).map (Prod.map cell id) := by
  rw [textsOf, textsOf, List.zipIdx_map, List.filter_map]
  congr 2
  funext pair
  simp [filled, hcell]

theorem nodup_textsOf (row : List Text) : ((textsOf row).map Prod.snd).Nodup := by
  have hsub : ((textsOf row).map Prod.snd).Sublist (row.zipIdx.map Prod.snd) :=
    (List.filter_sublist).map _
  apply hsub.nodup
  rw [List.zipIdx_map_snd]
  exact List.nodup_range'

section
variable (languageColumns : List Text)

theorem languageIndex_lt {languageColumns : List Text} {language : Text} {index : Nat}
    (h : languageIndex languageColumns language = some index) : index < languageColumns.length :=
  (List.findIdx?_eq_some_iff_getElem.mp h).1

theorem placed_cons (cell : Text → Text) (fact : UtteranceFact) (facts : List UtteranceFact) :
    placed languageColumns cell (fact :: facts) =
      ((languageIndex languageColumns fact.language).map fun index => (cell fact.text, index)).toList ++
        placed languageColumns cell facts := by
  rw [placed, placed, List.filterMap_cons]
  cases languageIndex languageColumns fact.language <;> rfl

theorem length_placeFact (row : List Text × Bool) (facts : List UtteranceFact) :
    (facts.foldl (placeFact languageColumns) row).1.length = row.1.length := by
  induction facts generalizing row with
  | nil => rfl
  | cons fact facts ih =>
    rw [List.foldl_cons, ih, placeFact]
    split <;> simp

theorem represented_placeFact (row : List Text × Bool) (facts : List UtteranceFact) :
    (facts.foldl (placeFact languageColumns) row).2 =
      (row.2 || facts.any fun fact => !isUnrepresented languageColumns fact) := by
  induction facts generalizing row with
  | nil => simp
  | cons fact facts ih =>
    rw [List.foldl_cons, ih, placeFact, List.any_cons, isUnrepresented]
    cases languageIndex languageColumns fact.language <;> simp

/-- Facts of different columns are placed side by side. -/
theorem textsOf_placeFact {facts : List UtteranceFact} (hfacts : ∀ fact ∈ facts, fact.text ≠ [])
    (row : List Text × Bool) (hnodup : ((placed languageColumns id facts).map Prod.snd).Nodup)
    (hempty : ∀ cell ∈ placed languageColumns id facts, row.1[cell.2]? = some []) :
    (textsOf (facts.foldl (placeFact languageColumns) row).1).Perm
      (textsOf row.1 ++ placed languageColumns id facts) := by
  induction facts generalizing row with
  | nil => simp [placed]
  | cons fact facts ih =>
    obtain ⟨hfact, hfacts⟩ := List.forall_mem_cons.mp hfacts
    rw [placed_cons] at hnodup hempty ⊢
    rw [List.foldl_cons, placeFact]
    cases hindex : languageIndex languageColumns fact.language with
    | none =>
      simp only [hindex, Option.map_none, Option.toList_none, List.nil_append] at hnodup hempty ⊢
      exact ih hfacts row hnodup hempty
    | some index =>
      simp only [hindex, Option.map_some, Option.toList_some, List.singleton_append, List.map_cons,
        List.nodup_cons, List.forall_mem_cons] at hnodup hempty ⊢
      have hrest : ∀ cell ∈ placed languageColumns id facts, (row.1.set index fact.text)[cell.2]? = some [] := by
        intro cell hcell
        have hne : index ≠ cell.2 := by
          rintro rfl
          exact hnodup.1 (List.mem_map_of_mem hcell)
        rw [List.getElem?_set_ne hne]
        exact hempty.2 cell hcell
      have hset := (textsOf_set hempty.1 hfact).append_right (placed languageColumns id facts)
      rw [List.append_assoc] at hset
      exact (ih hfacts (row.1.set index fact.text, true) hnodup.2 hrest).trans hset

theorem placed_perm (cell : Text → Text) {facts others : List UtteranceFact} (h : facts.Perm others) :
    (placed languageColumns cell facts).Perm (placed languageColumns cell others) :=
  h.filterMap _

theorem placed_map (cell : Text → Text) (facts : List UtteranceFact) :
    placed languageColumns cell facts = (placed languageColumns id facts).map (Prod.map cell id) := by
  rw [placed, placed, List.map_filterMap]
  congr 1
  funext fact
  cases languageIndex languageColumns fact.language <;> rfl

/-- The cells that the facts of an utterance fill. -/
def cellsOf (utterance : ExportUtterance) : List Text :=
  ((utteranceFacts utterance).foldl (placeFact languageColumns)
    (List.replicate languageColumns.length [], false)).1

theorem orderedLanguageRow_eq (utterance : ExportUtterance) :
    orderedLanguageRow utterance languageColumns =
      if hasRow languageColumns utterance then some (cellsOf languageColumns utterance) else none := by
  rw [orderedLanguageRow, represented_placeFact, Bool.false_or, hasRow,
    (utteranceFacts_perm utterance).any_eq]
  rfl

/-- A row is right if its facts are placed in different cells. -/
theorem rowShows_iff {cell : Text → Text} (hcell : ∀ text, cell text = [] ↔ text = [])
    (utterance : ExportUtterance) :
    RowShows languageColumns cell ((cellsOf languageColumns utterance).map cell) utterance ↔
      ((placed languageColumns cell (factsOf utterance)).map Prod.snd).Nodup := by
  constructor
  · intro h
    exact (h.texts.map Prod.snd).nodup_iff.mp (nodup_textsOf _)
  · intro hnodup
    have hperm := utteranceFacts_perm utterance
    have hplaced : ((placed languageColumns id (utteranceFacts utterance)).map Prod.snd).Nodup := by
      rw [placed_map, List.map_map] at hnodup
      exact ((placed_perm languageColumns id hperm).map Prod.snd).nodup_iff.mpr hnodup
    have hempty : ∀ cell ∈ placed languageColumns id (utteranceFacts utterance),
        (List.replicate languageColumns.length ([] : Text))[cell.2]? = some [] := by
      intro cell hcell
      obtain ⟨fact, -, hfact⟩ := List.mem_filterMap.mp hcell
      obtain ⟨index, hindex, rfl⟩ := Option.map_eq_some_iff.mp hfact
      exact List.getElem?_replicate_of_lt (languageIndex_lt hindex)
    have htexts : (textsOf (cellsOf languageColumns utterance)).Perm
        (placed languageColumns id (utteranceFacts utterance)) := by
      have hcells := textsOf_placeFact languageColumns
        (fun fact hfact => text_factsOf (hperm.subset hfact)) (_, false) hplaced hempty
      rwa [textsOf_replicate, List.nil_append] at hcells
    constructor
    · rw [List.length_map, cellsOf, length_placeFact, List.length_replicate]
    · rw [textsOf_map hcell, placed_map languageColumns cell]
      exact (htexts.trans (placed_perm languageColumns id hperm)).map _

variable {languageColumns}

/-- A column matches what has its base language. -/
theorem languageIndex_eq_some_iff
    (hdistinct : languageColumns.Pairwise fun a b => sameLanguage a b = false) {language : Text} {index : Nat} :
    languageIndex languageColumns language = some index ↔
      ∃ h : index < languageColumns.length, sameLanguage languageColumns[index] language = true := by
  rw [languageIndex, List.findIdx?_eq_some_iff_getElem]
  constructor
  · rintro ⟨h, hsame, -⟩
    exact ⟨h, hsame⟩
  · rintro ⟨h, hsame⟩
    refine ⟨h, hsame, ?_⟩
    intro earlier hearlier hother
    have hapart := List.pairwise_iff_getElem.mp hdistinct earlier index (by omega) h hearlier
    rw [sameLanguage_comm] at hsame
    rw [sameLanguage_trans hother hsame] at hapart
    cases hapart

theorem nodup_placed_iff
    (hdistinct : languageColumns.Pairwise fun a b => sameLanguage a b = false) (cell : Text → Text) (facts : List UtteranceFact) :
    ((placed languageColumns cell facts).map Prod.snd).Nodup ↔
      ∀ column ∈ languageColumns, (facts.filter fun fact => sameLanguage column fact.language).length ≤ 1 := by
  have hindexes : (placed languageColumns cell facts).map Prod.snd =
      facts.filterMap fun fact => languageIndex languageColumns fact.language := by
    rw [placed, List.map_filterMap]
    congr 1
    funext fact
    cases languageIndex languageColumns fact.language <;> rfl
  have hcount : ∀ index (h : index < languageColumns.length),
      (facts.filterMap fun fact => languageIndex languageColumns fact.language).count index =
        (facts.filter fun fact => sameLanguage languageColumns[index] fact.language).length := by
    intro index h
    rw [List.count_filterMap, ← List.countP_eq_length_filter]
    apply List.countP_congr
    intro fact _
    simp [languageIndex_eq_some_iff hdistinct, h]
  rw [hindexes, List.nodup_iff_count]
  constructor
  · intro h column hcolumn
    obtain ⟨index, hindex, rfl⟩ := List.getElem_of_mem hcolumn
    rw [← hcount index hindex]
    exact h index
  · intro h index
    by_cases hlt : index < languageColumns.length
    · rw [hcount index hlt]
      exact h _ (List.getElem_mem hlt)
    · rw [List.count_eq_zero_of_not_mem]
      · exact Nat.zero_le 1
      · intro hmem
        obtain ⟨fact, -, hindex⟩ := List.mem_filterMap.mp hmem
        exact hlt (languageIndex_lt hindex)

end

/-! ## Cells and entries as they are written -/

theorem replaceChars_eq_nil {pattern : Char → Bool} {new : Text} (hnew : new ≠ []) (value : Text) :
    replaceChars pattern new value = [] ↔ value = [] := by
  cases value with
  | nil => simp [replaceChars]
  | cons c value =>
    rw [replaceChars, List.flatMap_cons]
    split <;> simp [hnew]

theorem mem_replaceChars {pattern : Char → Bool} {new value : Text} {c : Char}
    (h : c ∈ replaceChars pattern new value) : c ∈ new ∨ (c ∈ value ∧ pattern c = false) := by
  obtain ⟨d, hd, hc⟩ := List.mem_flatMap.mp h
  split at hc
  · exact .inl hc
  · next hkept =>
    obtain rfl := List.mem_singleton.mp hc
    exact .inr ⟨hd, by simpa using hkept⟩

theorem markdownCell_eq_nil (value : Text) : markdownCell value = [] ↔ value = [] := by
  rw [markdownCell, replaceChars_eq_nil (by decide), replaceChars_eq_nil (by decide),
    replaceChars_eq_nil (by decide)]

theorem txtCell_eq_nil (value : Text) : txtCell value = [] ↔ value = [] :=
  replaceChars_eq_nil (by decide) value

theorem feed_notMem_markdownCell (value : Text) : '\n' ∉ markdownCell value := by
  intro h
  rcases mem_replaceChars h with h | ⟨-, h⟩
  · exact absurd h (by decide)
  · exact absurd h (by decide)

theorem notMem_txtCell {c : Char} (hc : c = '\n' ∨ c = '\t') (value : Text) : c ∉ txtCell value := by
  intro h
  rcases mem_replaceChars h with h | ⟨-, h⟩ <;> rcases hc with rfl | rfl <;> exact absurd h (by decide)

theorem escaped_markdownCell (value : Text) : Escaped (markdownCell value) := by
  have hchars : markdownCell value = value.flatMap fun c => markdownCell [c] := by
    simp only [markdownCell, replaceChars, List.flatMap_assoc, List.flatMap_singleton]
  rw [hchars]
  apply Escaped.flatMap
  intro c
  have hbreak : Escaped "<br>".toList := by
    repeat' first | exact .nil | apply Escaped.plain
    all_goals decide
  by_cases hslash : c = '\\'
  · subst hslash
    exact .escape .nil
  by_cases hbar : c = '|'
  · subst hbar
    exact .escape .nil
  by_cases hfeed : c = '\r' ∨ c = '\n'
  · simpa [markdownCell, replaceChars, hslash, hbar, hfeed] using hbreak
  · simpa [markdownCell, replaceChars, hslash, hbar, hfeed] using Escaped.plain hslash hbar .nil

theorem feed_notMem_markdownEntry (utterance : ExportUtterance) (fact : UtteranceFact) :
    '\n' ∉ markdownEntry utterance fact := by
  have hcell := feed_notMem_markdownCell
  rw [markdownEntry]
  split_ifs <;> simp [hcell]

theorem feed_notMem_txtEntry (utterance : ExportUtterance) (fact : UtteranceFact) :
    '\n' ∉ txtEntry utterance fact := by
  have hcell : ∀ value, '\n' ∉ txtCell value := fun value => notMem_txtCell (.inl rfl) value
  rw [txtEntry]
  split_ifs <;> simp [hcell]

theorem filled_markdownEntry (utterance : ExportUtterance) (fact : UtteranceFact) :
    filled (markdownEntry utterance fact) = true := by
  simp [filled, markdownEntry]

theorem filled_txtEntry (utterance : ExportUtterance) (fact : UtteranceFact) :
    filled (txtEntry utterance fact) = true := by
  simp [filled, txtEntry]

section
variable (languageColumns : List Text)

/-- The entries of an utterance. -/
def entriesOf (entry : ExportUtterance → UtteranceFact → Text) (utterance : ExportUtterance) : List Text :=
  ((utteranceFacts utterance).filter (isUnrepresented languageColumns)).map (entry utterance)

theorem filterMap_orderedLanguageRow {α : Type*} (f : List Text → α) (utterances : List ExportUtterance) :
    (utterances.filterMap fun utterance => (orderedLanguageRow utterance languageColumns).map f) =
      (utterances.filter (hasRow languageColumns)).map fun utterance =>
        f (cellsOf languageColumns utterance) := by
  induction utterances with
  | nil => rfl
  | cons utterance utterances ih =>
    rw [List.filterMap_cons, ih, orderedLanguageRow_eq]
    cases hrow : hasRow languageColumns utterance <;> simp [hrow]

theorem hasUnrepresentedFact_eq (utterance : ExportUtterance)
    (entry : ExportUtterance → UtteranceFact → Text) :
    hasUnrepresentedFact utterance languageColumns = !(entriesOf languageColumns entry utterance).isEmpty := by
  rw [hasUnrepresentedFact, entriesOf, Bool.eq_iff_iff]
  simp [List.isEmpty_eq_false_iff]

/-- Lines that are filled stand before the first empty one. -/
theorem takeWhile_filled {ls : List Text} (h : ∀ line ∈ ls, filled line = true) (rest : List Text) :
    (ls ++ [] :: rest).takeWhile filled = ls ∧ (ls ++ [] :: rest).dropWhile filled = [] :: rest := by
  rw [List.takeWhile_append_of_pos h, List.dropWhile_append_of_pos h]
  simp [filled]

theorem splitOn_markdownSummary (summary : Option Text) :
    ∃ first rest, (markdownSummary summary).splitOn '\n' = first :: rest ∧ first ≠ otherHeading := by
  cases summary with
  | none => exact ⟨[], [], rfl, by decide⟩
  | some summary =>
    refine ⟨"## 总结".toList, ('\n' :: (summary ++ "\n".toList)).splitOn '\n', ?_, by decide⟩
    have hsummary : markdownSummary (some summary) =
        "## 总结".toList ++ '\n' :: '\n' :: (summary ++ "\n".toList) := by
      simp [markdownSummary]
    rw [hsummary, List.splitOn_append_cons_self_of_not_mem (by decide)]

/-- The entries are read back below their heading. -/
theorem readOthers_markdown (utterances : List ExportUtterance) (summary : Option Text) :
    readOthers (((if utterances.any fun utterance => hasUnrepresentedFact utterance languageColumns then
        unlines [otherHeading, []] ++
        (utterances.flatMap fun utterance => appendUnrepresentedMarkdown utterance languageColumns) ++
        "\n".toList
      else []) ++ markdownSummary summary).splitOn '\n') =
      utterances.flatMap (entriesOf languageColumns markdownEntry) := by
  split
  · have hlines : unlines [otherHeading, []] ++
        (utterances.flatMap fun utterance => appendUnrepresentedMarkdown utterance languageColumns) ++
        "\n".toList ++ markdownSummary summary =
        unlines (otherHeading :: [] :: (utterances.flatMap (entriesOf languageColumns markdownEntry) ++ [[]])) ++
          markdownSummary summary := by
      have happend : (utterances.flatMap fun utterance =>
          appendUnrepresentedMarkdown utterance languageColumns) =
          unlines (utterances.flatMap (entriesOf languageColumns markdownEntry)) :=
        (unlines_flatMap _ utterances).symm
      rw [happend]
      simp [unlines]
    have hfeed : ∀ line ∈ otherHeading :: [] ::
        (utterances.flatMap (entriesOf languageColumns markdownEntry) ++ [[]]), '\n' ∉ line := by
      simp only [List.mem_cons, List.mem_append, List.mem_flatMap, List.not_mem_nil, or_false]
      rintro line (rfl | rfl | ⟨utterance, -, hline⟩ | rfl)
      · decide
      · decide
      · obtain ⟨fact, -, rfl⟩ := List.mem_map.mp hline
        exact feed_notMem_markdownEntry utterance fact
      · decide
    have hfilled : ∀ line ∈ utterances.flatMap (entriesOf languageColumns markdownEntry),
        filled line = true := by
      intro line hline
      obtain ⟨utterance, -, hline⟩ := List.mem_flatMap.mp hline
      obtain ⟨fact, -, rfl⟩ := List.mem_map.mp hline
      exact filled_markdownEntry utterance fact
    rw [hlines, splitOn_unlines hfeed, List.cons_append, List.cons_append, readOthers,
      if_pos ⟨rfl, rfl⟩, List.append_assoc, List.singleton_append]
    exact (takeWhile_filled hfilled _).1
  · next hnone =>
    obtain ⟨first, rest, hsplit, hfirst⟩ := splitOn_markdownSummary summary
    have hempty : utterances.flatMap (entriesOf languageColumns markdownEntry) = [] := by
      rw [List.flatMap_eq_nil_iff]
      intro utterance hutterance
      simp only [List.any_eq_true, not_exists, not_and, Bool.not_eq_true,
        hasUnrepresentedFact_eq languageColumns _ markdownEntry] at hnone
      simpa using hnone utterance hutterance
    rw [List.nil_append, hsplit, hempty]
    cases rest with
    | nil => rfl
    | cons blank rest => rw [readOthers, if_neg fun h => hfirst h.1]

/-- What the documents show, read back. -/
def shownOf (header : List (List Text)) (cell : Text → Text)
    (entry : ExportUtterance → UtteranceFact → Text) (utterances : List ExportUtterance) : Shown where
  header := if languageColumns = [] then [] else header
  rows := (utterances.filter (hasRow languageColumns)).map fun utterance =>
    (cellsOf languageColumns utterance).map cell
  others := utterances.flatMap (entriesOf languageColumns entry)

theorem hasRow_nil : hasRow [] = fun _ => false := by
  funext utterance
  simp [hasRow, isUnrepresented, languageIndex]

theorem cellsOf_ne_nil {languageColumns : List Text} (h : languageColumns ≠ []) (cell : Text → Text)
    (utterance : ExportUtterance) : (cellsOf languageColumns utterance).map cell ≠ [] := by
  rw [← List.length_pos_iff, List.length_map, cellsOf, length_placeFact, List.length_replicate]
  exact List.length_pos_iff.mpr h

theorem readMarkdown_columns (utterances : List ExportUtterance) (summary : Option Text) :
    readMarkdown languageColumns (markdownColumns languageColumns utterances ++ markdownSummary summary) =
      shownOf languageColumns
        [languageColumns.map markdownCell, List.replicate languageColumns.length "---".toList]
        markdownCell markdownEntry utterances := by
  have hothers := readOthers_markdown languageColumns utterances summary
  rw [readMarkdown, markdownColumns, shownOf]
  by_cases hcolumns : languageColumns = []
  · simp only [hcolumns, if_true, List.nil_append, hasRow_nil, List.filter_false, List.map_nil] at hothers ⊢
    rw [hothers]
  simp only [if_neg hcolumns, filterMap_orderedLanguageRow]
  have hwritten : ∀ cells : List Text, cells ≠ [] → readRow (tableRow (cells.map markdownCell)) =
      cells.map markdownCell ∧ '\n' ∉ tableRow (cells.map markdownCell) := by
    intro cells hcells
    constructor
    · apply readRow_tableRow (by simpa using hcells)
      simp [escaped_markdownCell]
    · apply notMem_tableRow (by decide) (by decide)
      simp [feed_notMem_markdownCell]
  have hdashes : List.replicate languageColumns.length "---".toList =
      (List.replicate languageColumns.length "---".toList).map markdownCell := by
    rw [List.map_replicate]
    rfl
  have hcolumnNames := hwritten languageColumns hcolumns
  have hseparators := hwritten (List.replicate languageColumns.length "---".toList) (by simpa using hcolumns)
  rw [← hdashes] at hseparators
  have hrows := fun utterance => hwritten (cellsOf languageColumns utterance)
    (by simpa using cellsOf_ne_nil hcolumns id utterance)
  generalize hrest : (if utterances.any fun utterance => hasUnrepresentedFact utterance languageColumns then
    unlines [otherHeading, []] ++
    (utterances.flatMap fun utterance => appendUnrepresentedMarkdown utterance languageColumns) ++
    "\n".toList else []) ++ markdownSummary summary = rest at hothers
  have htable : ∀ rows : List Text, unlines [tableRow (languageColumns.map markdownCell),
      tableRow (List.replicate languageColumns.length "---".toList)] ++ unlines rows ++ "\n".toList ++ rest =
      unlines (tableRow (languageColumns.map markdownCell) ::
        tableRow (List.replicate languageColumns.length "---".toList) :: (rows ++ [[]])) ++ rest := by
    intro rows
    simp [unlines]
  rw [List.append_assoc, hrest, htable, splitOn_unlines]
  · have hfilled : ∀ line ∈ (utterances.filter (hasRow languageColumns)).map fun utterance =>
        tableRow ((cellsOf languageColumns utterance).map markdownCell), filled line = true := by
      intro line hline
      obtain ⟨utterance, -, rfl⟩ := List.mem_map.mp hline
      simpa [filled] using tableRow_ne_nil _
    have hwhile := takeWhile_filled hfilled (rest.splitOn '\n')
    simp only [List.cons_append, List.append_assoc, List.nil_append, List.take_succ_cons, List.take_zero,
      List.drop_succ_cons, List.drop_zero, hwhile.1, hwhile.2, List.tail_cons, hothers, List.map_map,
      List.map_cons, List.map_nil, hcolumnNames.1, hseparators.1, Function.comp_def, (hrows _).1]
  · simp only [List.mem_cons, List.mem_append, List.mem_map, List.not_mem_nil, or_false]
    rintro line (rfl | rfl | ⟨utterance, -, rfl⟩ | rfl)
    · exact hcolumnNames.2
    · exact hseparators.2
    · exact (hrows utterance).2
    · decide

theorem splitOn_txtSummary (summary : Option Text) :
    ∃ rest, (txtSummary summary).splitOn '\n' = [] :: rest := by
  cases summary with
  | none => exact ⟨[], rfl⟩
  | some summary =>
    have hsummary : txtSummary (some summary) =
        ([] : Text) ++ '\n' :: ("---\n\n".toList ++ summary ++ "\n".toList) := by
      simp [txtSummary]
    exact ⟨_, by rw [hsummary, List.splitOn_append_cons_self_of_not_mem (by simp)]⟩

theorem splitOn_tabRow {cells : List Text} (hne : cells ≠ []) :
    (tabRow cells).splitOn '\t' = cells.map txtCell := by
  apply splitOn_cells (by simpa using hne)
  simp [notMem_txtCell]

theorem feed_notMem_tabRow (cells : List Text) : '\n' ∉ tabRow cells := by
  apply notMem_intercalate (by decide)
  simp [notMem_txtCell]

theorem readTxt_columns (utterances : List ExportUtterance) (summary : Option Text) :
    readTxt languageColumns (utterances.filter (hasRow languageColumns)).length
      (txtColumns languageColumns utterances ++ txtSummary summary) =
      shownOf languageColumns [languageColumns.map txtCell] txtCell txtEntry utterances := by
  have hentries : (utterances.flatMap fun utterance => appendUnrepresentedTxt utterance languageColumns) =
      unlines (utterances.flatMap (entriesOf languageColumns txtEntry)) :=
    (unlines_flatMap _ utterances).symm
  have hentry : ∀ line ∈ utterances.flatMap (entriesOf languageColumns txtEntry),
      '\n' ∉ line ∧ filled line = true := by
    intro line hline
    obtain ⟨utterance, -, hline⟩ := List.mem_flatMap.mp hline
    obtain ⟨fact, -, rfl⟩ := List.mem_map.mp hline
    exact ⟨feed_notMem_txtEntry utterance fact, filled_txtEntry utterance fact⟩
  obtain ⟨rest, hsummary⟩ := splitOn_txtSummary summary
  have hwhile := (takeWhile_filled (fun line hline => (hentry line hline).2) rest).1
  rw [readTxt, txtColumns, shownOf, hentries]
  by_cases hcolumns : languageColumns = []
  · subst hcolumns
    simp only [if_true, List.nil_append, hasRow_nil, List.filter_false, List.map_nil, List.length_nil,
      List.take_zero, List.drop_zero, splitOn_unlines fun line hline => (hentry line hline).1, hsummary,
      hwhile]
  simp only [if_neg hcolumns, filterMap_orderedLanguageRow, ← unlines_append]
  rw [splitOn_unlines, hsummary]
  · have hlength : ((utterances.filter (hasRow languageColumns)).map fun utterance =>
        tabRow (cellsOf languageColumns utterance)).length =
        (utterances.filter (hasRow languageColumns)).length := List.length_map _
    simp only [List.cons_append, List.nil_append, List.append_assoc, List.take_succ_cons,
      List.take_zero, List.drop_succ_cons, List.drop_zero, List.map_cons, List.map_nil,
      List.take_left' hlength, List.drop_left' hlength, hwhile, List.map_map, Function.comp_def,
      splitOn_tabRow hcolumns]
    have hcells : ∀ utterance, (tabRow (cellsOf languageColumns utterance)).splitOn '\t' =
        (cellsOf languageColumns utterance).map txtCell := fun utterance =>
      splitOn_tabRow (by simpa using cellsOf_ne_nil hcolumns id utterance)
    simp only [hcells]
  · simp only [List.mem_append, List.mem_cons, List.mem_map, List.not_mem_nil, or_false]
    rintro line ((rfl | ⟨utterance, -, rfl⟩) | hline)
    · exact feed_notMem_tabRow languageColumns
    · exact feed_notMem_tabRow _
    · exact (hentry line hline).1

theorem isUnrepresented_iff {languageColumns : List Text} {fact : UtteranceFact} :
    isUnrepresented languageColumns fact = true ↔
      ∀ column ∈ languageColumns, sameLanguage column fact.language = false := by
  simp [isUnrepresented, languageIndex]

/-- What is read back keeps the facts if no column has two of them. -/
theorem keepsFacts_shownOf_iff {languageColumns : List Text}
    (hdistinct : languageColumns.Pairwise fun a b => sameLanguage a b = false)
    {cell : Text → Text} (hcell : ∀ text, cell text = [] ↔ text = [])
    {header : List (List Text)} (hheader : ∀ row ∈ header, row.length = languageColumns.length)
    (entry : ExportUtterance → UtteranceFact → Text) (utterances : List ExportUtterance) :
    KeepsFacts languageColumns utterances cell entry (shownOf languageColumns header cell entry utterances) ↔
      OneFactPerColumn languageColumns utterances := by
  have hrow := fun utterance => (rowShows_iff languageColumns hcell utterance).trans
    (nodup_placed_iff hdistinct cell (factsOf utterance))
  constructor
  · intro h utterance hutterance column hcolumn
    cases hmatched : hasRow languageColumns utterance with
    | true =>
      have hrows := h.rows
      rw [shownOf, List.forall₂_map_left_iff, List.forall₂_same] at hrows
      exact (hrow utterance).mp (hrows utterance (List.mem_filter.mpr ⟨hutterance, hmatched⟩)) column hcolumn
    | false =>
      have hnone : ((factsOf utterance).filter fun fact => sameLanguage column fact.language) = [] := by
        rw [List.filter_eq_nil_iff]
        intro fact hfact
        have houtside := List.any_eq_false.mp hmatched fact hfact
        rw [Bool.not_eq_true, Bool.not_eq_false', isUnrepresented_iff] at houtside
        simpa using houtside column hcolumn
      rw [hnone]
      exact Nat.zero_le 1
  · intro h
    constructor
    · intro row hmem
      rw [shownOf] at hmem
      split at hmem
      · cases hmem
      · exact hheader row hmem
    · rw [shownOf, List.forall₂_map_left_iff, List.forall₂_same]
      intro utterance hutterance
      exact (hrow utterance).mpr (h utterance (List.mem_filter.mp hutterance).1)
    · refine ⟨utterances.map (entriesOf languageColumns entry), List.flatMap_def, ?_⟩
      rw [List.forall₂_map_left_iff, List.forall₂_same]
      intro utterance _
      exact ((utteranceFacts_perm utterance).filter _).map _

end

/-- A column whose base language is known has at most one fact of an utterance. -/
theorem oneFactPerColumn_of_known {languageColumns : List Text}
    (h : ∀ column ∈ languageColumns, isUnknownLanguage (baseLanguage column) = false)
    (utterances : List ExportUtterance) : OneFactPerColumn languageColumns utterances := by
  intro utterance _ column hcolumn
  have hknown : ∀ fact : UtteranceFact, sameLanguage column fact.language = true →
      isUnknownLanguage fact.language = false := by
    intro fact hsame
    have hcolumn := h column hcolumn
    rw [sameLanguage_iff] at hsame
    simp only [isUnknownLanguage, Bool.or_eq_false_iff, decide_eq_false_iff_not] at hcolumn ⊢
    constructor
    · intro hblank
      have hbase : baseLanguage fact.language = [] := by
        rw [baseLanguage, hblank]
        rfl
      rw [hbase, List.map_nil, List.map_eq_nil_iff] at hsame
      exact hcolumn.1 (by rw [hsame]; rfl)
    · cases hund : eqIgnoreAsciiCase fact.language "und".toList with
      | false => rfl
      | true =>
        rw [baseLanguage_und hund] at hsame
        rw [eqIgnoreAsciiCase, decide_eq_true_eq] at hund
        rw [eqIgnoreAsciiCase, hsame, hund] at hcolumn
        simp at hcolumn
  have hnodup : ((factsOf utterance).filter fun fact => sameLanguage column fact.language).Pairwise
      fun _ _ => False := by
    have hapart := (apart_factsOf utterance).filter fun fact => sameLanguage column fact.language
    apply hapart.imp_of_mem
    intro a b ha hb hab
    have hsameA := (List.mem_filter.mp ha).2
    have hsameB := (List.mem_filter.mp hb).2
    have hsame : sameKnown a b = true := by
      rw [sameKnown_iff]
      rw [sameLanguage_comm] at hsameA
      exact ⟨hknown a (by rwa [sameLanguage_comm]), hknown b hsameB, sameLanguage_trans hsameA hsameB⟩
    rw [hsame] at hab
    cases hab
  cases hfacts : (factsOf utterance).filter fun fact => sameLanguage column fact.language with
  | nil => exact Nat.zero_le 1
  | cons a facts =>
    rw [hfacts] at hnodup
    cases facts with
    | nil => exact Nat.le_refl 1
    | cons b facts => exact ((List.pairwise_cons.mp hnodup).1 b List.mem_cons_self).elim

theorem oneFactPerColumn_of_known_english : OneFactPerColumn ["en".toList]
    [⟨"en".toList, "a".toList, none, none, none, some "b".toList, []⟩] :=
  oneFactPerColumn_of_known (by decide) _

end Zulangue.Export
