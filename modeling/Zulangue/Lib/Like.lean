import Mathlib.Data.List.Infix

/-!
# The LIKE operator

`%` stands for any text and `_` for one character; letters of ASCII are the same in both cases.
-/

namespace Zulangue.Lib.Like

def like : List Char → List Char → Bool
  | [], text => text.isEmpty
  | char :: pattern, text =>
    if char = '%' then text.tails.any (like pattern)
    else
      match text with
      | [] => false
      | head :: rest => (char = '_' || char.toLower = head.toLower) && like pattern rest

/-- A longer pattern is an error. -/
def maxPatternBytes : Nat := 50000

/-- `text LIKE pattern`. -/
def isLike (pattern text : String) : Bool :=
  pattern.utf8ByteSize ≤ maxPatternBytes && like pattern.toList text.toList

/-- A character that a pattern takes for itself. -/
def Plain (char : Char) : Prop := char ≠ '%' ∧ char ≠ '_' ∧ char.isAlpha = false

instance : DecidablePred Plain := fun _ => inferInstanceAs (Decidable (_ ∧ _ ∧ _))

/-! ## Letters -/

section
variable {char other : Char}

theorem toNat_toLower (char : Char) :
    char.toLower.toNat = if 65 ≤ char.toNat ∧ char.toNat ≤ 90 then char.toNat + 32 else char.toNat := by
  have hupper : (char.val ≥ 'A'.val ∧ char.val ≤ 'Z'.val) ↔ 65 ≤ char.toNat ∧ char.toNat ≤ 90 := Iff.rfl
  unfold Char.toLower
  split
  next h =>
    rw [if_pos (hupper.mp h)]
    show (char.val + 32).toNat = char.val.toNat + 32
    have hbound : char.val.toNat ≤ 90 := (hupper.mp h).2
    rw [UInt32.toNat_add]
    show (char.val.toNat + 32) % 4294967296 = char.val.toNat + 32
    omega
  next h => rw [if_neg (fun hnat => h (hupper.mpr hnat))]

theorem toNat_toUpper (char : Char) :
    char.toUpper.toNat = if 97 ≤ char.toNat ∧ char.toNat ≤ 122 then char.toNat - 32 else char.toNat := by
  have hlower : ('a'.val ≤ char.val ∧ char.val ≤ 'z'.val) ↔ 97 ≤ char.toNat ∧ char.toNat ≤ 122 := Iff.rfl
  unfold Char.toUpper
  split
  next h =>
    rw [if_pos (hlower.mp h)]
    show (char.val + 4294967264).toNat = char.val.toNat - 32
    have hbounds : 97 ≤ char.val.toNat ∧ char.val.toNat ≤ 122 := hlower.mp h
    rw [UInt32.toNat_add]
    show (char.val.toNat + 4294967264) % 4294967296 = char.val.toNat - 32
    omega
  next h => rw [if_neg (fun hnat => h (hlower.mpr hnat))]

theorem isAlpha_eq_false_iff :
    char.isAlpha = false ↔ ¬ (65 ≤ char.toNat ∧ char.toNat ≤ 90) ∧ ¬ (97 ≤ char.toNat ∧ char.toNat ≤ 122) := by
  unfold Char.isAlpha Char.isUpper Char.isLower
  rw [Bool.or_eq_false_iff, decide_eq_false_iff_not, ← Bool.decide_and, decide_eq_false_iff_not]
  rfl

theorem isLower_iff : char.isLower = true ↔ 97 ≤ char.toNat ∧ char.toNat ≤ 122 := by
  unfold Char.isLower
  rw [← Bool.decide_and, decide_eq_true_iff]
  rfl

theorem toLower_eq_iff (h : char.isAlpha = false) : char.toLower = other.toLower ↔ char = other := by
  rw [isAlpha_eq_false_iff] at h
  rw [← Char.toNat_inj, ← Char.toNat_inj, toNat_toLower, toNat_toLower]
  split <;> split <;> omega

/-- Another character that the pattern `char` takes, where there is one. -/
def swapped (char : Char) : Char :=
  if char = '%' ∨ char = '_' then 'x' else if char.isLower then char.toUpper else char.toLower

theorem swapped_taken (char : Char) : char = '%' ∨ char = '_' ∨ char.toLower = (swapped char).toLower := by
  unfold swapped
  split
  next h => exact h.elim .inl (.inr ∘ .inl)
  · right
    right
    by_cases hlower : char.isLower = true
    · rw [if_pos hlower, ← Char.toNat_inj, toNat_toLower, toNat_toLower, toNat_toUpper]
      rw [isLower_iff] at hlower
      rw [if_pos hlower]
      split <;> split <;> omega
    · rw [if_neg hlower, ← Char.toNat_inj, toNat_toLower, toNat_toLower, toNat_toLower]
      split
      · split <;> omega
      · rfl

theorem plain_of_swapped (h : swapped char = char) : Plain char := by
  unfold swapped at h
  split at h
  next hwild =>
    rcases hwild with rfl | rfl <;> cases h
  next hwild =>
    rw [not_or] at hwild
    refine ⟨hwild.1, hwild.2, isAlpha_eq_false_iff.mpr ?_⟩
    split at h
    next hlower =>
      rw [isLower_iff] at hlower
      rw [← Char.toNat_inj, toNat_toUpper, if_pos hlower] at h
      omega
    next hlower =>
      rw [isLower_iff] at hlower
      refine ⟨fun hupper => ?_, hlower⟩
      rw [← Char.toNat_inj, toNat_toLower, if_pos hupper] at h
      omega

end

/-! ## What a pattern takes -/

section
variable {pattern text : List Char}

theorem like_any (pattern text : List Char) : like ('%' :: pattern) text = text.tails.any (like pattern) := by
  cases text <;> rfl

theorem like_rest (text : List Char) : like ['%'] text = true := by
  simp [like]

/-- A plain pattern takes itself. -/
theorem like_prefix_iff (h : ∀ char ∈ pattern, Plain char) : like (pattern ++ ['%']) text = true ↔ pattern <+: text := by
  induction pattern generalizing text with
  | nil => simp [like_rest]
  | cons char pattern ih =>
    obtain ⟨hany, hone, halpha⟩ := h char List.mem_cons_self
    have ih : ∀ text, like (pattern ++ ['%']) text = true ↔ pattern <+: text := fun _ =>
      ih fun other hother => h other (List.mem_cons_of_mem _ hother)
    cases text with
    | nil => simp [like, hany]
    | cons head rest =>
      simp [like, hany, hone, toLower_eq_iff halpha, ih, List.cons_prefix_cons]

theorem like_infix_iff (h : ∀ char ∈ pattern, Plain char) :
    like ('%' :: (pattern ++ ['%'])) text = true ↔ pattern <:+: text := by
  rw [like_any, List.any_eq_true, List.infix_iff_prefix_suffix]
  simp only [List.mem_tails, like_prefix_iff h]
  exact ⟨fun ⟨rest, hsuffix, hstart⟩ => ⟨rest, hstart, hsuffix⟩, fun ⟨rest, hstart, hsuffix⟩ => ⟨rest, hsuffix, hstart⟩⟩

theorem like_swapped (pattern : List Char) : like (pattern ++ ['%']) (pattern.map swapped) = true := by
  induction pattern with
  | nil => exact like_rest []
  | cons char pattern ih =>
    rw [List.cons_append, List.map_cons, like]
    split
    · apply List.any_eq_true.mpr
      exact ⟨pattern.map swapped, (List.mem_tails _ _).mpr (List.suffix_cons _ _), ih⟩
    next hany =>
      rw [ih, Bool.and_true]
      rcases swapped_taken char with h | h | h
      · exact absurd h hany
      · simp [h]
      · simp [h]

/-- Only a plain pattern takes exactly the texts it stands in. -/
theorem like_infix_forall_iff :
    (∀ text, like ('%' :: (pattern ++ ['%'])) text = true ↔ pattern <:+: text) ↔ ∀ char ∈ pattern, Plain char := by
  refine ⟨fun h char hchar => ?_, fun h text => like_infix_iff h⟩
  have htaken : like ('%' :: (pattern ++ ['%'])) (pattern.map swapped) = true := by
    rw [like_any]
    exact List.any_eq_true.mpr ⟨_, (List.mem_tails _ _).mpr (List.suffix_refl _), like_swapped pattern⟩
  have hsame := ((h _).mp htaken).eq_of_length (List.length_map swapped).symm
  apply plain_of_swapped
  obtain ⟨i, hi⟩ := List.mem_iff_getElem?.mp hchar
  have hget : pattern[i]? = (pattern.map swapped)[i]? := by rw [← hsame]
  rw [List.getElem?_map, hi, Option.map_some] at hget
  exact (Option.some.inj hget).symm

end
end Zulangue.Lib.Like
