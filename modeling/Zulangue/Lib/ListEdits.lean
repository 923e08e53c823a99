import Mathlib.Data.List.InsertIdx

/-!
# Edit scripts on lists

A script names positions of the list as it is when the edit's turn comes. An edit outside the list
fails, and the script with it.
-/

namespace Zulangue.Lib

inductive ListEdit (α : Type) where
  | insert (index : Nat) (item : α)
  | delete (index : Nat)
  | move (fromIndex toIndex : Nat)

namespace ListEdit

variable {α : Type}

def run (items : List α) : ListEdit α → Option (List α)
  | insert index item => if index ≤ items.length then some (items.insertIdx index item) else none
  | delete index => if index < items.length then some (items.eraseIdx index) else none
  | move fromIndex toIndex =>
    if toIndex < items.length then
      items[fromIndex]?.map fun item => (items.eraseIdx fromIndex).insertIdx toIndex item
    else none

def runAll : List (ListEdit α) → List α → Option (List α)
  | [], items => some items
  | edit :: edits, items => (edit.run items).bind (runAll edits)

@[simp] theorem runAll_nil (items : List α) : runAll [] items = some items := rfl

@[simp] theorem runAll_cons (edit : ListEdit α) (edits : List (ListEdit α)) (items : List α) :
    runAll (edit :: edits) items = (edit.run items).bind (runAll edits) := rfl

theorem runAll_append (first second : List (ListEdit α)) (items : List α) :
    runAll (first ++ second) items = (runAll first items).bind (runAll second) := by
  induction first generalizing items with
  | nil => rfl
  | cons edit first ih =>
    cases h : edit.run items with
    | none => simp [h]
    | some next => simp [h, ih]

/-! ## Edits at a place where the list is cut in two -/

theorem insertIdx_append_length (before after : List α) (item : α) :
    (before ++ after).insertIdx before.length item = before ++ item :: after := by
  induction before with
  | nil => rfl
  | cons first before ih => simp [ih]

theorem run_insert (before after : List α) (item : α) :
    (insert before.length item).run (before ++ after) = some (before ++ item :: after) := by
  simp [run, insertIdx_append_length]

theorem run_delete (before after : List α) (item : α) :
    (delete before.length).run (before ++ item :: after) = some (before ++ after) := by
  simp [run, List.eraseIdx_append_of_length_le]

theorem run_delete_of_le {items : List α} {index : Nat} (h : items.length ≤ index) :
    (delete index).run items = none := by
  simp [run, h]

theorem length_of_run_delete {items next : List α} {index : Nat}
    (h : (delete index).run items = some next) : next.length + 1 = items.length := by
  by_cases hlt : index < items.length
  · simp only [run, if_pos hlt, Option.some.injEq] at h
    rw [← h, List.length_eraseIdx_of_lt hlt]
    omega
  · simp [run, hlt] at h

/-- Items put behind the end, one after the other. -/
theorem runAll_inserts (items more : List α) :
    runAll (more.mapIdx fun i item => insert (items.length + i) item) items = some (items ++ more) := by
  induction more generalizing items with
  | nil => simp
  | cons item more ih =>
    have hfirst : (insert items.length item).run items = some (items ++ [item]) := by
      simpa using run_insert items [] item
    have hrest := ih (items ++ [item])
    simp only [List.length_append, List.length_singleton, List.append_assoc,
      List.singleton_append] at hrest
    simp only [List.mapIdx_cons, Nat.add_zero, runAll_cons, hfirst, Option.bind_some]
    rw [← hrest]
    congr 2
    funext i item
    rw [Nat.add_assoc, Nat.add_comm 1 i]

/-- Deletions at ascending positions leave the list before they are all done: each shortens the list
by one while the next one aims one further. -/
theorem runAll_ascending_deletes {items : List α} {start count : Nat} (hcount : 0 < count)
    (h : items.length + 1 < start + 2 * count) :
    runAll ((List.range' start count).map delete) items = none := by
  induction count generalizing items start with
  | zero => omega
  | succ count ih =>
    rw [List.range'_succ, List.map_cons, runAll_cons]
    cases hrun : (delete start).run items with
    | none => rfl
    | some next =>
      have hlen := length_of_run_delete hrun
      rw [Option.bind_some]
      cases count with
      | zero =>
        have hnone := @run_delete_of_le _ items start (by omega)
        rw [hnone] at hrun
        cases hrun
      | succ count => exact ih (by omega) (by omega)

end ListEdit

end Zulangue.Lib
