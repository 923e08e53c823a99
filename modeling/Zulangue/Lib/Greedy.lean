import Mathlib.Data.List.Basic

/-!
# Filling a budget in order

What a first come, first served pass takes from a list of entries, with and without cutting
the ones that are too long, and the bisection that finds where to cut.
-/

namespace Zulangue.Lib.Greedy

/-! ## Passes -/

section
variable {α : Type} {fits : List α → Prop}

/-- `Picks fits tried taken`: of the entries `tried` in this order, the first occurrences that
fitted behind those already `taken`. -/
inductive Picks (fits : List α → Prop) : List α → List α → Prop
  | nil : Picks fits [] []
  | take {tried taken : List α} {a : α} :
    Picks fits tried taken → a ∉ tried → fits (taken ++ [a]) → Picks fits (tried ++ [a]) (taken ++ [a])
  | again {tried taken : List α} {a : α} :
    Picks fits tried taken → a ∈ tried → Picks fits (tried ++ [a]) taken
  | skip {tried taken : List α} {a : α} :
    Picks fits tried taken → ¬ fits (taken ++ [a]) → Picks fits (tried ++ [a]) taken

theorem Picks.fits_taken {tried taken : List α} (h : Picks fits tried taken) (hnil : fits []) : fits taken := by
  induction h with
  | nil => exact hnil
  | take _ _ hfits _ => exact hfits
  | again _ _ ih => exact ih
  | skip _ _ ih => exact ih

end

section
variable {β : Type} {fits : List (List β) → Prop}

/-- The same pass over texts. One that is too long is cut to the longest part that fits, if any
part does. -/
inductive PicksCut (fits : List (List β) → Prop) : List (List β) → List (List β) → Prop
  | nil : PicksCut fits [] []
  | take {tried taken : List (List β)} {a : List β} :
    PicksCut fits tried taken → a ∉ tried → fits (taken ++ [a]) →
    PicksCut fits (tried ++ [a]) (taken ++ [a])
  | cut {tried taken : List (List β)} {a : List β} {n : Nat} :
    PicksCut fits tried taken → a ∉ tried → 0 < n → n < a.length → fits (taken ++ [a.take n]) →
    (∀ m, n < m → m ≤ a.length → ¬ fits (taken ++ [a.take m])) →
    PicksCut fits (tried ++ [a]) (taken ++ [a.take n])
  | again {tried taken : List (List β)} {a : List β} :
    PicksCut fits tried taken → a ∈ tried → PicksCut fits (tried ++ [a]) taken
  | skip {tried taken : List (List β)} {a : List β} :
    PicksCut fits tried taken → (∀ m, 0 < m → m ≤ a.length → ¬ fits (taken ++ [a.take m])) →
    PicksCut fits (tried ++ [a]) taken

theorem PicksCut.fits_taken {tried taken : List (List β)} (h : PicksCut fits tried taken) (hnil : fits []) :
    fits taken := by
  induction h with
  | nil => exact hnil
  | take _ _ hfits _ => exact hfits
  | cut _ _ _ _ hfits _ _ => exact hfits
  | again _ _ ih => exact ih
  | skip _ _ ih => exact ih

end

/-! ## Bisection -/

/-- Halves the range between a size that fits and the largest one there is. -/
def bisect (fits : Nat → Bool) (low high : Nat) : Nat :=
  if low < high then
    let middle := (low + high + 1) / 2
    if fits middle then bisect fits middle high else bisect fits low (middle - 1)
  else low
termination_by high - low
decreasing_by all_goals omega

/-- Where smaller sizes fit as well, the largest size that fits is found. -/
theorem bisect_spec {fits : Nat → Bool}
    (hsmaller : ∀ m n, 0 < m → m ≤ n → fits n = true → fits m = true) {low high : Nat} (hle : low ≤ high)
    (hlow : low = 0 ∨ fits low = true) (hhigh : ∀ m, high < m → fits m = false) :
    low ≤ bisect fits low high ∧ bisect fits low high ≤ high ∧
      (bisect fits low high = 0 ∨ fits (bisect fits low high) = true) ∧
      ∀ m, bisect fits low high < m → fits m = false := by
  fun_induction bisect fits low high with
  | case1 low high hlt middle hfits ih =>
    obtain ⟨hlower, hupper, hfound, hbeyond⟩ := ih (by omega) (.inr hfits) hhigh
    exact ⟨by omega, hupper, hfound, hbeyond⟩
  | case2 low high hlt middle hfits ih =>
    have hbeyond : ∀ m, middle - 1 < m → fits m = false := by
      intro m hm
      cases hm' : fits m with
      | false => rfl
      | true => exact absurd (hsmaller middle m (by omega) (by omega) hm') hfits
    obtain ⟨hlower, hupper, hfound, hlarger⟩ := ih (by omega) hlow hbeyond
    exact ⟨hlower, by omega, hfound, hlarger⟩
  | case3 low high hlt =>
    have heq : low = high := by omega
    subst heq
    exact ⟨Nat.le_refl _, Nat.le_refl _, hlow, hhigh⟩

end Zulangue.Lib.Greedy
