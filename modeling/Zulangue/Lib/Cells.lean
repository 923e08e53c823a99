import Mathlib.Algebra.GroupWithZero.Nat
import Mathlib.Data.List.Basic

/-!
# Rows of cells

A row is split into cells at bars that no backslash escapes, or at a character that stands in
no cell. Texts of several lines are written line by line.
-/

namespace Zulangue.Lib.Cells

/-- The first cell begins with `text`. -/
def prepend (text : List Char) : List (List Char) → List (List Char)
  | [] => [text]
  | cell :: cells => (text ++ cell) :: cells

/-- The cells between bars; `escaped` right behind a backslash that is not escaped itself. -/
def splitCells (escaped : Bool) : List Char → List (List Char)
  | [] => [[]]
  | c :: rest =>
    if escaped then prepend [c] (splitCells false rest)
    else if c = '\\' then prepend [c] (splitCells true rest)
    else if c = '|' then [] :: splitCells false rest
    else prepend [c] (splitCells false rest)

/-- A text in which every bar and every backslash is escaped. -/
inductive Escaped : List Char → Prop
  | nil : Escaped []
  | plain {c : Char} {rest : List Char} : c ≠ '\\' → c ≠ '|' → Escaped rest → Escaped (c :: rest)
  | escape {c : Char} {rest : List Char} : Escaped rest → Escaped ('\\' :: c :: rest)

theorem Escaped.append {text rest : List Char} (h : Escaped text) (hrest : Escaped rest) :
    Escaped (text ++ rest) := by
  induction h with
  | nil => exact hrest
  | plain hslash hbar _ ih => exact .plain hslash hbar ih
  | escape _ ih => exact .escape ih

theorem Escaped.flatMap {f : Char → List Char} (h : ∀ c, Escaped (f c)) (text : List Char) :
    Escaped (text.flatMap f) := by
  induction text with
  | nil => exact .nil
  | cons c text ih =>
    rw [List.flatMap_cons]
    exact (h c).append ih

theorem splitCells_ne_nil (escaped : Bool) (text : List Char) : splitCells escaped text ≠ [] := by
  have hprepend : ∀ (front : List Char) (cells : List (List Char)), prepend front cells ≠ [] := by
    intro front cells
    cases cells <;> simp [prepend]
  cases text with
  | nil => simp [splitCells]
  | cons c rest =>
    rw [splitCells]
    split_ifs <;> simp [hprepend]

theorem prepend_nil {cells : List (List Char)} (h : cells ≠ []) : prepend [] cells = cells := by
  cases cells with
  | nil => exact absurd rfl h
  | cons cell cells => rfl

theorem prepend_prepend (front text : List Char) (cells : List (List Char)) :
    prepend front (prepend text cells) = prepend (front ++ text) cells := by
  cases cells <;> simp [prepend]

/-- An escaped text stays in one cell. -/
theorem splitCells_escaped {text : List Char} (h : Escaped text) (rest : List Char) :
    splitCells false (text ++ rest) = prepend text (splitCells false rest) := by
  induction h with
  | nil => exact (prepend_nil (splitCells_ne_nil false rest)).symm
  | plain hslash hbar _ ih => simp [splitCells, hslash, hbar, ih, prepend_prepend]
  | escape _ ih => simp [splitCells, ih, prepend_prepend]

/-- A row of cells with a blank on either side of each, and bars around them. -/
def tableRow (cells : List (List Char)) : List Char :=
  "| ".toList ++ " | ".toList.intercalate cells ++ " |".toList

theorem tableRow_cons (cell : List Char) (cells : List (List Char)) (h : cells ≠ []) :
    tableRow (cell :: cells) = '|' :: ' ' :: (cell ++ ' ' :: tableRow cells) := by
  obtain ⟨next, cells, rfl⟩ := List.exists_cons_of_ne_nil h
  simp [tableRow, List.intercalate_cons_cons]

/-- Between bars, each cell with its blanks. -/
theorem splitCells_tableRow {cells : List (List Char)} (hne : cells ≠ []) (h : ∀ cell ∈ cells, Escaped cell) :
    splitCells false (tableRow cells) = [] :: ((cells.map fun cell => ' ' :: (cell ++ [' '])) ++ [[]]) := by
  induction cells with
  | nil => exact absurd rfl hne
  | cons cell cells ih =>
    obtain ⟨hcell, hcells⟩ := List.forall_mem_cons.mp h
    have hpadded : Escaped (' ' :: (cell ++ [' '])) :=
      .plain (by decide) (by decide) (hcell.append (.plain (by decide) (by decide) .nil))
    have hbar : ∀ rest, splitCells false ('|' :: rest) = [] :: splitCells false rest := by
      intro rest
      simp [splitCells]
    cases cells with
    | nil =>
      have hrow : tableRow [cell] = '|' :: ((' ' :: (cell ++ [' '])) ++ ['|']) := by
        simp [tableRow]
      rw [hrow, hbar, splitCells_escaped hpadded, hbar]
      simp [splitCells, prepend]
    | cons next cells =>
      have hrow : tableRow (cell :: next :: cells) =
          '|' :: ((' ' :: (cell ++ [' '])) ++ tableRow (next :: cells)) := by
        rw [tableRow_cons _ _ (by simp)]
        simp
      rw [hrow, hbar, splitCells_escaped hpadded, ih (by simp) hcells]
      simp [prepend]

/-- The cells of a row, without the bars around them and the blanks in them. -/
def readRow (row : List Char) : List (List Char) :=
  (splitCells false row).tail.dropLast.map fun cell => cell.tail.dropLast

theorem readRow_tableRow {cells : List (List Char)} (hne : cells ≠ []) (h : ∀ cell ∈ cells, Escaped cell) :
    readRow (tableRow cells) = cells := by
  rw [readRow, splitCells_tableRow hne h, List.tail_cons, List.dropLast_concat, List.map_map]
  simp [Function.comp_def]

/-- Cells without the separator are read back. -/
theorem splitOn_cells {separator : Char} {cells : List (List Char)} (hne : cells ≠ [])
    (h : ∀ cell ∈ cells, separator ∉ cell) : ([separator].intercalate cells).splitOn separator = cells :=
  List.splitOn_intercalate separator h hne

theorem notMem_intercalate {c : Char} {separator : List Char} (hc : c ∉ separator) {cells : List (List Char)}
    (h : ∀ cell ∈ cells, c ∉ cell) : c ∉ separator.intercalate cells := by
  induction cells with
  | nil => simp
  | cons cell cells ih =>
    obtain ⟨hcell, hcells⟩ := List.forall_mem_cons.mp h
    cases cells with
    | nil => simpa using hcell
    | cons next cells =>
      rw [List.intercalate_cons_cons]
      simp [hc, hcell, ih hcells]

theorem length_intercalate {α : Type*} (separator : α) (items : List (List α)) :
    ([separator].intercalate items).length = (items.map List.length).sum + (items.length - 1) := by
  induction items with
  | nil => rfl
  | cons item items ih =>
    cases items with
    | nil => simp
    | cons next items =>
      rw [List.intercalate_cons_cons, List.length_append, List.length_append, ih]
      simp only [List.map_cons, List.sum_cons, List.length_cons, List.length_nil]
      omega

theorem notMem_tableRow {c : Char} (hblank : c ≠ ' ') (hbar : c ≠ '|') {cells : List (List Char)}
    (h : ∀ cell ∈ cells, c ∉ cell) : c ∉ tableRow cells := by
  have hcells : c ∉ " | ".toList.intercalate cells :=
    notMem_intercalate (by simp [hblank, hbar]) h
  simpa [tableRow, hblank, hbar] using hcells

theorem tableRow_ne_nil (cells : List (List Char)) : tableRow cells ≠ [] := by
  simp [tableRow]

/-! ## Lines -/

/-- Every line with its break. -/
def unlines (ls : List (List Char)) : List Char := ls.flatMap fun line => line ++ ['\n']

@[simp] theorem unlines_nil : unlines [] = [] := rfl

theorem unlines_append (ls more : List (List Char)) : unlines (ls ++ more) = unlines ls ++ unlines more :=
  List.flatMap_append

theorem unlines_flatMap {α : Type*} (f : α → List (List Char)) (as : List α) :
    unlines (as.flatMap f) = as.flatMap fun a => unlines (f a) := by
  rw [unlines, List.flatMap_assoc]
  rfl

theorem splitOn_unlines {ls : List (List Char)} (h : ∀ line ∈ ls, '\n' ∉ line) (rest : List Char) :
    (unlines ls ++ rest).splitOn '\n' = ls ++ rest.splitOn '\n' := by
  induction ls with
  | nil => rfl
  | cons line ls ih =>
    obtain ⟨hline, hls⟩ := List.forall_mem_cons.mp h
    have hcons : unlines (line :: ls) ++ rest = line ++ '\n' :: (unlines ls ++ rest) := by
      simp [unlines]
    rw [hcons, List.splitOn_append_cons_self_of_not_mem hline, ih hls, List.cons_append]

end Zulangue.Lib.Cells
