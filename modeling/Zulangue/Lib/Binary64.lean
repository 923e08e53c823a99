import Mathlib.Data.Int.Log
import Mathlib.Data.Rat.Floor

/-!
# Doubles

A double is the rational it stands for. Numbers are nonnegative here, far below the overflow and
above the subnormals, so that only the rounding of the last of 53 bits is left.
-/

namespace Zulangue.Lib.Binary64

/-- The nearest integer, and of two the even one. -/
def roundHalfEven (q : ℚ) : ℤ :=
  if Int.fract q < 1 / 2 then ⌊q⌋
  else if 1 / 2 < Int.fract q then ⌊q⌋ + 1
  else if ⌊q⌋ % 2 = 0 then ⌊q⌋
  else ⌊q⌋ + 1

/-- The unit in the last place. -/
def ulp (q : ℚ) : ℚ := 2 ^ (Int.log 2 q - 52)

/-- The double nearest to a rational. -/
def nearest (q : ℚ) : ℚ := roundHalfEven (q / ulp q) * ulp q

/-- `n as f64`. -/
def ofNat (n : Nat) : ℚ := nearest n

def mul (a b : ℚ) : ℚ := nearest (a * b)

def div (a b : ℚ) : ℚ := nearest (a / b)

/-- `a as usize`, which saturates. -/
def toUsize (a : ℚ) : Nat := min ⌊a⌋₊ 18446744073709551615

theorem roundHalfEven_intCast (n : ℤ) : roundHalfEven n = n := by
  unfold roundHalfEven
  simp

theorem abs_roundHalfEven_sub_le (q : ℚ) : |(roundHalfEven q : ℚ) - q| ≤ 1 / 2 := by
  have hsplit := Int.floor_add_fract q
  have hlow := Int.fract_nonneg q
  have hhigh := Int.fract_lt_one q
  unfold roundHalfEven
  rw [abs_le]
  split_ifs <;> push_cast <;> constructor <;> linarith

theorem ulp_pos (q : ℚ) : 0 < ulp q := by
  unfold ulp
  exact zpow_pos two_pos _

/-- A number has at most 53 bits in front of half a unit. -/
theorem ulp_le {q : ℚ} (h : 0 < q) : ulp q * 4503599627370496 ≤ q := by
  have hlog := Int.zpow_log_le_self (b := 2) (by decide) h
  unfold ulp
  rw [zpow_sub₀ (by decide)]
  norm_num at hlog ⊢
  linarith

theorem abs_nearest_sub_le {q : ℚ} (h : 0 ≤ q) : |nearest q - q| ≤ q / 9007199254740992 := by
  obtain rfl | hpos := h.eq_or_lt
  · unfold nearest
    simp [roundHalfEven]
  have hulp := ulp_pos q
  have hround := abs_roundHalfEven_sub_le (q / ulp q)
  have hscaled : nearest q - q = (roundHalfEven (q / ulp q) - q / ulp q) * ulp q := by
    unfold nearest
    field_simp
  calc |nearest q - q| = |(roundHalfEven (q / ulp q) : ℚ) - q / ulp q| * ulp q := by
        rw [hscaled, abs_mul, abs_of_pos hulp]
    _ ≤ 1 / 2 * ulp q := mul_le_mul_of_nonneg_right hround hulp.le
    _ ≤ q / 9007199254740992 := by linarith [ulp_le hpos]

/-- Integers of up to 53 bits are doubles. -/
theorem nearest_natCast {n : Nat} (h : n < 9007199254740992) : nearest n = n := by
  have hlog : Nat.log 2 n ≤ 52 := by
    apply Nat.lt_succ_iff.mp
    apply Nat.log_lt_of_lt_pow' (by decide)
    simpa using h
  have hunit : (ulp n)⁻¹ = ((2 ^ (52 - Nat.log 2 n) : Nat) : ℚ) := by
    unfold ulp
    rw [Int.log_natCast, ← zpow_neg, neg_sub]
    have hexp : (52 : ℤ) - (Nat.log 2 n : ℤ) = ((52 - Nat.log 2 n : Nat) : ℤ) := by omega
    rw [hexp, zpow_natCast]
    push_cast
    rfl
  have hwhole : (n : ℚ) / ulp n = ((n * 2 ^ (52 - Nat.log 2 n) : Nat) : ℤ) := by
    rw [div_eq_mul_inv, hunit]
    push_cast
    rfl
  unfold nearest
  rw [hwhole, roundHalfEven_intCast, ← hwhole, div_mul_cancel₀ _ (ulp_pos n).ne']

theorem nearest_nonneg {q : ℚ} (h : 0 ≤ q) : 0 ≤ nearest q := by
  have herror := abs_nearest_sub_le h
  rw [abs_le] at herror
  linarith

theorem ofNat_eq {n : Nat} (h : n < 9007199254740992) : ofNat n = n := nearest_natCast h

/-- Two roundings, of a factor and of the product. -/
theorem abs_mul_nearest_sub_le {a x : ℚ} (ha : 0 ≤ a) (hx : 0 ≤ x) :
    |mul a (nearest x) - a * x| ≤ a * x / 2251799813685248 := by
  have hfactor := abs_nearest_sub_le hx
  have hproduct := abs_nearest_sub_le (mul_nonneg ha (nearest_nonneg hx))
  have hscaled : |a * nearest x - a * x| ≤ a * x / 9007199254740992 := by
    rw [← mul_sub, abs_mul, abs_of_nonneg ha, mul_div_assoc]
    exact mul_le_mul_of_nonneg_left hfactor ha
  have hmass := mul_nonneg ha hx
  unfold mul
  rw [abs_le] at hproduct hscaled ⊢
  constructor <;> linarith

/-- A product of thousandths, truncated: within one of the exact one, and exact where it is no
whole number. -/
theorem toUsize_mul_thousandths {a x : Nat} (ha : a < 9007199254740992) (h : a * x < 2199023255552000) :
    a * x / 1000 ≤ toUsize (mul (ofNat a) (nearest (x / 1000))) + 1 ∧
      (a * x % 1000 ≠ 0 → toUsize (mul (ofNat a) (nearest (x / 1000))) = a * x / 1000) := by
  rw [ofNat_eq ha]
  have hexact : (a : ℚ) * (x / 1000) = (a * x : Nat) / 1000 := by
    push_cast
    ring
  have herror := abs_mul_nearest_sub_le (Nat.cast_nonneg a) (div_nonneg (Nat.cast_nonneg x) (by norm_num : (0 : ℚ) ≤ 1000))
  rw [hexact] at herror
  generalize mul (a : ℚ) (nearest (x / 1000)) = product at herror ⊢
  generalize a * x = whole at h herror ⊢
  have hsmall : (whole : ℚ) < 2199023255552000 := by exact_mod_cast h
  have hsplit : (whole : ℚ) = 1000 * (whole / 1000 : Nat) + (whole % 1000 : Nat) := by
    exact_mod_cast (Nat.div_add_mod whole 1000).symm
  have hrest : ((whole % 1000 : Nat) : ℚ) ≤ 999 := by
    exact_mod_cast Nat.le_of_lt_succ (Nat.mod_lt whole (by decide))
  rw [abs_le] at herror
  have hbelow : (whole : ℚ) / 1000 - 1 / 1000 < product := by linarith
  have habove : product < (whole : ℚ) / 1000 + 1 / 1000 := by linarith
  have hrest0 : (0 : ℚ) ≤ (whole % 1000 : Nat) := Nat.cast_nonneg _
  have hfits : ⌊product⌋₊ < 18446744073709551615 := by
    rw [Nat.floor_lt' (by decide)]
    push_cast
    linarith
  unfold toUsize
  rw [Nat.min_eq_left hfits.le]
  constructor
  · obtain hzero | hpos := Nat.eq_zero_or_pos (whole / 1000)
    · omega
    · have hfloor : whole / 1000 - 1 ≤ ⌊product⌋₊ := by
        apply Nat.le_floor
        rw [Nat.cast_sub hpos]
        push_cast
        linarith
      omega
  · intro hne
    have hone : (1 : ℚ) ≤ (whole % 1000 : Nat) := by exact_mod_cast Nat.one_le_iff_ne_zero.mpr hne
    have hzero : (0 : ℚ) ≤ (whole / 1000 : Nat) := Nat.cast_nonneg _
    rw [Nat.floor_eq_iff (by linarith)]
    constructor <;> linarith

/-- The product of whole numbers is the exact one. -/
theorem toUsize_mul_ofNat {a x : Nat} (ha : a < 9007199254740992) (hx : x < 9007199254740992)
    (h : a * x < 9007199254740992) : toUsize (mul (ofNat a) (nearest x)) = a * x := by
  unfold mul toUsize
  rw [ofNat_eq ha, nearest_natCast hx, ← Nat.cast_mul, nearest_natCast h, Nat.floor_natCast]
  omega

end Zulangue.Lib.Binary64
