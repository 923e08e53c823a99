import Mathlib.Data.List.Basic

/-!
# Encodings that end by themselves

An encoding is prefix free when a word of it can be cut off the front of a text in one way
only. Such encodings compose, and UTF-8 is one.
-/

namespace Zulangue.Lib.PrefixCode

variable {α β γ : Type}

def PrefixFree (encode : α → List β) : Prop :=
  ∀ a b r r', encode a ++ r = encode b ++ r' → a = b ∧ r = r'

/-- Whatever reads a word back makes its encoding prefix free. -/
theorem prefixFree_of_decode {encode : α → List β} (decode : List β → Option (α × List β))
    (h : ∀ a r, decode (encode a ++ r) = some (a, r)) : PrefixFree encode := by
  intro a b r r' heq
  have hdecoded : some (a, r) = some (b, r') := by rw [← h a r, ← h b r', heq]
  exact Prod.mk.inj (Option.some.inj hdecoded)

theorem PrefixFree.flatMap_comparable {code : β → List γ} (h : PrefixFree code) (xs ys : List β)
    {r r' : List γ} (heq : xs.flatMap code ++ r = ys.flatMap code ++ r') :
    xs <+: ys ∨ ys <+: xs := by
  induction xs generalizing ys with
  | nil => exact .inl (List.nil_prefix)
  | cons x xs ih =>
    cases ys with
    | nil => exact .inr (List.nil_prefix)
    | cons y ys =>
      simp only [List.flatMap_cons, List.append_assoc] at heq
      obtain ⟨rfl, hrest⟩ := h x y _ _ heq
      rcases ih ys hrest with hle | hle
      · exact .inl (List.cons_prefix_cons.mpr ⟨rfl, hle⟩)
      · exact .inr (List.cons_prefix_cons.mpr ⟨rfl, hle⟩)

/-- Words of words. -/
theorem PrefixFree.flatMap {encode : α → List β} {code : β → List γ} (hencode : PrefixFree encode)
    (hcode : PrefixFree code) : PrefixFree fun a => (encode a).flatMap code := by
  intro a b r r' heq
  have hsame : a = b := by
    rcases hcode.flatMap_comparable _ _ heq with ⟨rest, hrest⟩ | ⟨rest, hrest⟩
    · exact (hencode a b rest [] (by rw [hrest, List.append_nil])).1
    · exact (hencode b a rest [] (by rw [hrest, List.append_nil])).1.symm
  subst hsame
  exact ⟨rfl, List.append_cancel_left heq⟩

/-- A text of words and behind it a word that none of them begins with. -/
theorem PrefixFree.terminated {encode : α → List β} (hencode : PrefixFree encode) {stop : List β}
    (hstop : ∀ a r r', encode a ++ r ≠ stop ++ r') :
    PrefixFree fun xs : List α => xs.flatMap encode ++ stop := by
  intro xs
  induction xs with
  | nil =>
    intro ys r r' heq
    cases ys with
    | nil => exact ⟨rfl, List.append_cancel_left heq⟩
    | cons y ys =>
      simp only [List.flatMap_nil, List.nil_append, List.flatMap_cons, List.append_assoc] at heq
      exact absurd heq.symm (hstop y _ _)
  | cons x xs ih =>
    intro ys r r' heq
    cases ys with
    | nil =>
      simp only [List.flatMap_nil, List.nil_append, List.flatMap_cons, List.append_assoc] at heq
      exact absurd heq (hstop x _ _)
    | cons y ys =>
      simp only [List.flatMap_cons, List.append_assoc] at heq
      obtain ⟨rfl, hrest⟩ := hencode x y _ _ heq
      obtain ⟨rfl, hr⟩ := ih ys r r' (by simpa only [List.append_assoc] using hrest)
      exact ⟨rfl, hr⟩

theorem toByteArray_append (xs ys : List UInt8) :
    (xs ++ ys).toByteArray = xs.toByteArray ++ ys.toByteArray := by
  simp

/-- UTF-8 reads its first character back. -/
theorem prefixFree_utf8 : PrefixFree String.utf8EncodeChar := by
  intro a b r r' heq
  have hread : ∀ (c : Char) (rest : List UInt8),
      ByteArray.utf8DecodeChar? (String.utf8EncodeChar c ++ rest).toByteArray 0 = some c := by
    intro c rest
    rw [toByteArray_append]
    exact ByteArray.utf8DecodeChar?_utf8EncodeChar_append
  have hsame : a = b := by
    have hsome : some a = some b := by rw [← hread a r, ← hread b r', heq]
    exact Option.some.inj hsome
  subst hsame
  exact ⟨rfl, List.append_cancel_left heq⟩

end Zulangue.Lib.PrefixCode
