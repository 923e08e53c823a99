import Mathlib.Tactic.Common

/-!
# Slices of a list

`data[a..b]`, and a slice put together from its parts in windows of one length.
-/

namespace Zulangue.Lib

variable {α : Type}

def slice (l : List α) (a b : Nat) : List α := (l.take b).drop a

theorem length_slice (l : List α) (a b : Nat) : (slice l a b).length = min b l.length - a := by
  unfold slice
  rw [List.length_drop, List.length_take]

theorem slice_of_le (l : List α) {a b : Nat} (h : b ≤ a) : slice l a b = [] := by
  apply List.eq_nil_of_length_eq_zero
  rw [length_slice]
  omega

/-- Bounds behind the end may be moved to it. -/
theorem slice_clip (l : List α) (a b : Nat) : slice l (min a l.length) (min b l.length) = slice l a b := by
  unfold slice
  rw [List.take_eq_take_min, Nat.min_assoc, Nat.min_self, ← List.take_eq_take_min]
  by_cases h : a ≤ l.length
  · rw [Nat.min_eq_left h]
  · rw [Nat.min_eq_right (by omega), List.drop_of_length_le, List.drop_of_length_le]
    · rw [List.length_take]
      omega
    · rw [List.length_take]
      omega

theorem slice_append (l : List α) {a m b : Nat} (hfirst : a ≤ m) (hsecond : m ≤ b) :
    slice l a m ++ slice l m b = slice l a b := by
  unfold slice
  have hsplit : l.take b = l.take m ++ (l.take b).drop m := by
    have htake : l.take m = (l.take b).take m := by rw [List.take_take, Nat.min_eq_left hsecond]
    rw [htake, List.take_append_drop]
  by_cases h : m ≤ l.length
  · have hlength : (l.take m).length = m := by simp [h]
    conv_rhs => rw [hsplit]
    rw [List.drop_append_of_le_length (by omega)]
  · have hbeyond : (l.take b).drop m = [] := by
      apply List.drop_of_length_le
      rw [List.length_take]
      omega
    conv_rhs => rw [hsplit]
    rw [hbeyond, List.append_nil, List.append_nil]

/-- A slice of a window. -/
theorem slice_window (l : List α) (start : Nat) {len a b : Nat} (h : b ≤ len) :
    slice ((l.drop start).take len) a b = slice l (start + a) (start + b) := by
  unfold slice
  rw [List.take_take, Nat.min_eq_left h, List.take_drop, List.drop_drop]

/-- What lies of a slice in each of the windows, one after another. -/
theorem flatten_windows (l : List α) (len a b n : Nat) :
    ((List.range n).map fun i => slice l (max a (i * len)) (min b ((i + 1) * len))).flatten =
      slice l a (min b (n * len)) := by
  induction n with
  | zero =>
    rw [Nat.zero_mul, Nat.min_zero, slice_of_le l (Nat.zero_le a)]
    rfl
  | succ n ih =>
    have hgrow : (n + 1) * len = n * len + len := by rw [Nat.add_mul, Nat.one_mul]
    rw [List.range_succ, List.map_append, List.flatten_append, ih, List.map_singleton, List.flatten_singleton, hgrow]
    obtain hb | hb := Nat.le_total b (n * len)
    · have hmore : b ≤ n * len + len := by omega
      rw [Nat.min_eq_left hb, Nat.min_eq_left hmore, slice_of_le l (Nat.le_trans hb (Nat.le_max_right _ _)), List.append_nil]
    · rw [Nat.min_eq_right hb]
      obtain ha | ha := Nat.le_total a (n * len)
      · rw [Nat.max_eq_right ha, slice_append l ha (by omega)]
      · rw [Nat.max_eq_left ha, slice_of_le l ha, List.nil_append]

end Zulangue.Lib
