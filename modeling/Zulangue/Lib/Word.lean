import Mathlib.Tactic.Common

/-!
# Saturating 64-bit arithmetic

Values of `u64` are natural numbers; `saturating_sub` is the subtraction of `Nat`.
-/

namespace Zulangue.Lib.Word

/-- `u64::MAX`. -/
def u64Max : Nat := 18446744073709551615

/-- `u64::saturating_add`. -/
def saturatingAdd (a b : Nat) : Nat := min (a + b) u64Max

/-- `u64::abs_diff`. -/
def absDiff (a b : Nat) : Nat := (a - b) + (b - a)

theorem saturatingAdd_le_max (a b : Nat) : saturatingAdd a b ≤ u64Max := Nat.min_le_right _ _

theorem le_saturatingAdd {a : Nat} (h : a ≤ u64Max) (b : Nat) : a ≤ saturatingAdd a b :=
  Nat.le_min.mpr ⟨Nat.le_add_right a b, h⟩

theorem saturatingAdd_eq {a b : Nat} (h : a + b ≤ u64Max) : saturatingAdd a b = a + b :=
  Nat.min_eq_left h

end Zulangue.Lib.Word
