import Mathlib.Data.List.DropRight

/-!
# Text as the standard library sees it

Strings are read as their lists of Unicode scalar values. Only what the programs
verified here use of `char` and `str` is defined.
-/

namespace Zulangue.Lib.Text

/-- Byte strings. -/
abbrev Bytes := List UInt8

/-- The UTF-8 bytes of a string. -/
def utf8 (s : String) : Bytes := s.toList.flatMap String.utf8EncodeChar

/-- `char::is_control`: general category Cc. -/
def isControl (c : Char) : Bool :=
  c.toNat < 0x20 || (0x7f ≤ c.toNat && c.toNat < 0xa0)

/-- `char::is_whitespace`: the `White_Space` property. -/
def isWhitespace (c : Char) : Bool :=
  (0x9 ≤ c.toNat && c.toNat ≤ 0xd) || c.toNat = 0x20 || c.toNat = 0x85 || c.toNat = 0xa0 ||
    c.toNat = 0x1680 || (0x2000 ≤ c.toNat && c.toNat ≤ 0x200a) || c.toNat = 0x2028 ||
    c.toNat = 0x2029 || c.toNat = 0x202f || c.toNat = 0x205f || c.toNat = 0x3000

/-- `str::trim_start`. -/
def trimStart (cs : List Char) : List Char := cs.dropWhile isWhitespace

/-- `str::trim_end`. -/
def trimEnd (cs : List Char) : List Char := (cs.reverse.dropWhile isWhitespace).reverse

/-- `str::trim`. -/
def trim (cs : List Char) : List Char := trimEnd (trimStart cs)

theorem trimEnd_append {cs ws : List Char} (h : ∀ c ∈ ws, isWhitespace c = true) :
    trimEnd (cs ++ ws) = trimEnd cs := by
  rw [trimEnd, List.reverse_append, List.dropWhile_append_of_pos, trimEnd]
  intro c hc
  exact h c (List.mem_reverse.mp hc)

theorem trim_append {cs ws : List Char} (h : ∀ c ∈ ws, isWhitespace c = true) :
    trim (cs ++ ws) = trim cs := by
  rw [trim, trimStart, List.dropWhile_append]
  split
  · next hempty =>
    have hws : ws.dropWhile isWhitespace = [] := List.dropWhile_eq_nil_iff.mpr h
    rw [hws, trim, trimStart, List.isEmpty_iff.mp hempty]
  · exact trimEnd_append h

/-- What `trim_end` takes away is white space. -/
theorem trimEnd_spec (cs : List Char) :
    ∃ ws, cs = trimEnd cs ++ ws ∧ ∀ c ∈ ws, isWhitespace c = true := by
  refine ⟨(cs.reverse.takeWhile isWhitespace).reverse, ?_, fun c hc => ?_⟩
  · rw [trimEnd, ← List.reverse_append, List.takeWhile_append_dropWhile, List.reverse_reverse]
  · exact List.mem_takeWhile_imp (List.mem_reverse.mp hc)

/-- Trimming before a cut at a character that is not white space changes nothing that
trimming afterwards does not. -/
theorem trim_takeWhile_trim {p : Char → Bool} (h : ∀ c, isWhitespace c = true → p c = true)
    (cs : List Char) : trim ((trim cs).takeWhile p) = trim (cs.takeWhile p) := by
  have hstart : trim ((trimStart cs).takeWhile p) = trim (cs.takeWhile p) := by
    induction cs with
    | nil => rfl
    | cons c cs ih =>
      by_cases hc : isWhitespace c = true
      · rw [trimStart, List.dropWhile_cons_of_pos hc, List.takeWhile_cons_of_pos (h c hc), ← trimStart,
          ih, trim, trim, trimStart, trimStart, List.dropWhile_cons_of_pos hc]
      · rw [trimStart, List.dropWhile_cons_of_neg hc]
  obtain ⟨ws, heq, hws⟩ := trimEnd_spec (trimStart cs)
  rw [← hstart, heq, ← trim, List.takeWhile_append]
  split
  · next hall =>
    have htake : (trim cs).takeWhile p = trim cs := by
      exact (List.takeWhile_prefix p).eq_of_length hall
    have hwhole : ws.takeWhile p = ws :=
      List.takeWhile_eq_self_iff.mpr fun c hc => h c (hws c hc)
    rw [htake, hwhole, trim_append hws]
  · rfl

theorem prefix_trimEnd (cs : List Char) : trimEnd cs <+: cs := by
  obtain ⟨ws, heq, -⟩ := trimEnd_spec cs
  exact ⟨ws, heq.symm⟩

theorem trimEnd_trimEnd (cs : List Char) : trimEnd (trimEnd cs) = trimEnd cs := by
  rw [trimEnd, trimEnd, List.reverse_reverse, List.dropWhile_idempotent]

theorem trimStart_of_prefix {cs ds : List Char} (h : ds <+: trimStart cs) : trimStart ds = ds := by
  cases ds with
  | nil => rfl
  | cons d rest =>
    obtain ⟨more, hmore⟩ := h
    have hd : isWhitespace d ≠ true := by
      intro hws
      have hhead := List.head?_dropWhile_not isWhitespace cs
      rw [← trimStart, ← hmore] at hhead
      simp [hws] at hhead
    rw [trimStart, List.dropWhile_cons_of_neg hd]

theorem trim_trim (cs : List Char) : trim (trim cs) = trim cs := by
  have hstart : trimStart (trim cs) = trim cs := trimStart_of_prefix (prefix_trimEnd _)
  rw [trim, hstart, trim, trimEnd_trimEnd]

theorem trim_eq_self {cs : List Char} (h : ∀ c ∈ cs, isWhitespace c = false) : trim cs = cs := by
  have hstart : trimStart cs = cs := by
    rw [trimStart]
    cases cs with
    | nil => rfl
    | cons c cs => rw [List.dropWhile_cons_of_neg (by simp [h c List.mem_cons_self])]
  rw [trim, hstart, trimEnd]
  cases hreverse : cs.reverse with
  | nil => rw [List.dropWhile_nil, ← hreverse, List.reverse_reverse]
  | cons c rest =>
    have hc : isWhitespace c = false := by
      apply h
      rw [← List.mem_reverse, hreverse]
      exact List.mem_cons_self
    rw [List.dropWhile_cons_of_neg (by simp [hc]), ← hreverse, List.reverse_reverse]

section
variable {f : Char → Char} 

theorem trimStart_map (hf : ∀ c, isWhitespace (f c) = isWhitespace c) (cs : List Char) :
    trimStart (cs.map f) = (trimStart cs).map f := by
  have hcomp : isWhitespace ∘ f = isWhitespace := funext hf
  rw [trimStart, List.dropWhile_map, hcomp, trimStart]

theorem trim_map (hf : ∀ c, isWhitespace (f c) = isWhitespace c) (cs : List Char) :
    trim (cs.map f) = (trim cs).map f := by
  have hcomp : isWhitespace ∘ f = isWhitespace := funext hf
  rw [trim, trim, trimStart_map hf, trimEnd, trimEnd, ← List.map_reverse, List.dropWhile_map, hcomp,
    List.map_reverse]
end

theorem toNat_toLower (c : Char) :
    c.toLower.toNat = if 65 ≤ c.toNat ∧ c.toNat ≤ 90 then c.toNat + 32 else c.toNat := by
  unfold Char.toLower
  split
  · next h =>
    have hlow : 65 ≤ c.toNat := UInt32.le_iff_toNat_le.mp h.1
    have hhigh : c.toNat ≤ 90 := UInt32.le_iff_toNat_le.mp h.2
    rw [if_pos ⟨hlow, hhigh⟩]
    have hval : c.val.toNat = c.toNat := rfl
    show (c.val + 32).toNat = _
    rw [UInt32.toNat_add]
    simp
    omega
  · next h =>
    rw [if_neg]
    intro hboth
    exact h ⟨UInt32.le_iff_toNat_le.mpr hboth.1, UInt32.le_iff_toNat_le.mpr hboth.2⟩

theorem isWhitespace_toLower (c : Char) : isWhitespace c.toLower = isWhitespace c := by
  have h := toNat_toLower c
  rw [Bool.eq_iff_iff]
  simp only [isWhitespace, Bool.or_eq_true, Bool.and_eq_true, decide_eq_true_eq, h]
  split <;> omega

theorem toLower_toLower (c : Char) : c.toLower.toLower = c.toLower := by
  have h := toNat_toLower c
  have h' := toNat_toLower c.toLower
  apply Char.toNat_inj.mp
  rw [h', h]
  split
  · rw [if_neg (by omega)]
  · rfl

theorem toLower_eq_hyphen (c : Char) : c.toLower = '-' ↔ c = '-' := by
  have h := toNat_toLower c
  have hy : '-'.toNat = 45 := rfl
  constructor
  · intro heq
    rw [heq, hy] at h
    apply Char.toNat_inj.mp
    rw [hy]
    split at h <;> omega
  · rintro rfl
    rfl

end Zulangue.Lib.Text
