import Mathlib.Data.List.Perm.Basic

/-!
# Interleavings of two lists

`Interleaves a b c`: `c` takes each item of `a` and of `b` exactly once, and keeps the
order of either list. Two senders into one queue leave such a list.
-/

namespace Zulangue.Lib

variable {α : Type*}

inductive Interleaves : List α → List α → List α → Prop
  | nil : Interleaves [] [] []
  | left (x : α) {a b c : List α} : Interleaves a b c → Interleaves (x :: a) b (x :: c)
  | right (x : α) {a b c : List α} : Interleaves a b c → Interleaves a (x :: b) (x :: c)

theorem Interleaves.snoc_left {a b c : List α} (h : Interleaves a b c) (x : α) :
    Interleaves (a ++ [x]) b (c ++ [x]) := by
  induction h with
  | nil => exact .left x .nil
  | left y _ ih => exact .left y ih
  | right y _ ih => exact .right y ih

theorem Interleaves.snoc_right {a b c : List α} (h : Interleaves a b c) (x : α) :
    Interleaves a (b ++ [x]) (c ++ [x]) := by
  induction h with
  | nil => exact .right x .nil
  | left y _ ih => exact .left y ih
  | right y _ ih => exact .right y ih

/-- Each item once: nothing is lost and nothing is doubled. -/
theorem Interleaves.perm {a b c : List α} (h : Interleaves a b c) : c.Perm (a ++ b) := by
  induction h with
  | nil => exact .refl _
  | left x _ ih => exact ih.cons x
  | right x _ ih => exact (ih.cons x).trans List.perm_middle.symm

end Zulangue.Lib
