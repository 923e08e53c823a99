import Mathlib.Tactic.Common

/-!
# Spans

The maximal stretches of a list whose elements satisfy a predicate, found in one pass, and what a
replaced stretch does to them.
-/

namespace Zulangue.Lib.Spans

structure Span where
  pos : Nat
  len : Nat
  deriving DecidableEq, Repr

/-- The newest span comes first. -/
def grow (cursor : Nat) : List Span → List Span
  | [] => [⟨cursor, 1⟩]
  | previous :: rest =>
    if previous.pos + previous.len = cursor then ⟨previous.pos, previous.len + 1⟩ :: rest
    else ⟨cursor, 1⟩ :: previous :: rest

section
variable {α : Type}

def scan (p : α → Bool) : Nat → List Span → List α → List Span
  | _, found, [] => found
  | cursor, found, x :: xs => scan p (cursor + 1) (if p x then grow cursor found else found) xs

def spans (p : α → Bool) (xs : List α) : List Span := (scan p 0 [] xs).reverse

variable {p : α → Bool}

theorem scan_append (cursor : Nat) (found : List Span) (xs ys : List α) :
    scan p cursor found (xs ++ ys) = scan p (cursor + xs.length) (scan p cursor found xs) ys := by
  induction xs generalizing cursor found with
  | nil => rfl
  | cons x xs ih =>
    rw [List.cons_append, scan, scan, ih, List.length_cons]
    congr 1
    omega

theorem scan_of_none {xs : List α} (h : ∀ x ∈ xs, p x = false) (cursor : Nat) (found : List Span) :
    scan p cursor found xs = found := by
  induction xs generalizing cursor with
  | nil => rfl
  | cons x xs ih =>
    rw [List.forall_mem_cons] at h
    rw [scan, h.1]
    exact ih h.2 (cursor + 1)

theorem scan_of_all {xs : List α} (h : ∀ x ∈ xs, p x = true) {cursor : Nat} {previous : Span}
    (hend : previous.pos + previous.len = cursor) (rest : List Span) :
    scan p cursor (previous :: rest) xs = ⟨previous.pos, previous.len + xs.length⟩ :: rest := by
  induction xs generalizing cursor previous with
  | nil => rfl
  | cons x xs ih =>
    rw [List.forall_mem_cons] at h
    rw [scan, if_pos h.1, grow, if_pos hend, ih h.2 (by change previous.pos + (previous.len + 1) = cursor + 1; omega), List.length_cons]
    congr 2
    change previous.len + 1 + xs.length = _
    omega

theorem spans_of_none {xs : List α} (h : ∀ x ∈ xs, p x = false) : spans p xs = [] := by
  rw [spans, scan_of_none h]
  rfl

/-- One stretch is one span. -/
theorem spans_block {before own after : List α} (hbefore : ∀ x ∈ before, p x = false) (hown : ∀ x ∈ own, p x = true)
    (hafter : ∀ x ∈ after, p x = false) :
    spans p (before ++ own ++ after) = if own = [] then [] else [⟨before.length, own.length⟩] := by
  rw [spans, scan_append, scan_of_none hafter, scan_append, scan_of_none hbefore]
  cases own with
  | nil => rfl
  | cons x xs =>
    rw [List.forall_mem_cons] at hown
    rw [scan, if_pos hown.1, grow, scan_of_all hown.2 (by change 0 + before.length + 1 = _; rfl),
      if_neg (List.cons_ne_nil x xs), List.reverse_singleton, List.length_cons]
    congr 2
    · exact Nat.zero_add _
    · change 1 + xs.length = _
      omega

/-! ## Counting the spans -/

/-- How many spans begin, after an element in a span (`inside`) or out of one. -/
def starts (p : α → Bool) : Bool → List α → Nat
  | _, [] => 0
  | inside, x :: xs => (if p x && !inside then 1 else 0) + starts p (p x) xs

def insideAfter (p : α → Bool) : Bool → List α → Bool
  | inside, [] => inside
  | _, x :: xs => insideAfter p (p x) xs

theorem starts_append (inside : Bool) (xs ys : List α) :
    starts p inside (xs ++ ys) = starts p inside xs + starts p (insideAfter p inside xs) ys := by
  induction xs generalizing inside with
  | nil => exact (Nat.zero_add _).symm
  | cons x xs ih => rw [List.cons_append, starts, starts, ih, insideAfter, Nat.add_assoc]

theorem insideAfter_append (inside : Bool) (xs ys : List α) :
    insideAfter p inside (xs ++ ys) = insideAfter p (insideAfter p inside xs) ys := by
  induction xs generalizing inside with
  | nil => rfl
  | cons x xs ih => exact ih (p x)

theorem starts_of_none {xs : List α} (h : ∀ x ∈ xs, p x = false) (inside : Bool) : starts p inside xs = 0 := by
  induction xs generalizing inside with
  | nil => rfl
  | cons x xs ih =>
    rw [List.forall_mem_cons] at h
    rw [starts, h.1, ih h.2]
    rfl

theorem insideAfter_of_none {xs : List α} (h : ∀ x ∈ xs, p x = false) (hne : xs ≠ []) (inside : Bool) :
    insideAfter p inside xs = false := by
  induction xs generalizing inside with
  | nil => exact absurd rfl hne
  | cons x xs ih =>
    rw [List.forall_mem_cons] at h
    rw [insideAfter, h.1]
    cases xs with
    | nil => rfl
    | cons y ys => exact ih h.2 (List.cons_ne_nil y ys) false

/-- The newest span ends at the cursor. -/
def endsAt (cursor : Nat) : List Span → Bool
  | [] => false
  | previous :: _ => previous.pos + previous.len == cursor

def Behind (cursor : Nat) (found : List Span) : Prop := ∀ span ∈ found.head?, span.pos + span.len ≤ cursor

theorem grow_behind (cursor : Nat) (found : List Span) :
    Behind (cursor + 1) (grow cursor found) ∧ endsAt (cursor + 1) (grow cursor found) = true ∧
      (grow cursor found).length = found.length + if endsAt cursor found then 0 else 1 := by
  cases found with
  | nil =>
    refine ⟨?_, beq_self_eq_true _, rfl⟩
    rintro span ⟨⟩
    exact Nat.le_refl _
  | cons previous rest =>
    by_cases hend : previous.pos + previous.len = cursor
    · rw [grow, if_pos hend, endsAt, endsAt, hend, beq_self_eq_true]
      refine ⟨?_, by rw [beq_iff_eq]; change previous.pos + (previous.len + 1) = _; omega, rfl⟩
      rintro span ⟨⟩
      change previous.pos + (previous.len + 1) ≤ _
      omega
    · rw [grow, if_neg hend]
      refine ⟨?_, beq_self_eq_true _, ?_⟩
      · rintro span ⟨⟩
        exact Nat.le_refl _
      · rw [endsAt, beq_eq_false_iff_ne.mpr hend]
        rfl

theorem endsAt_of_behind {cursor : Nat} {found : List Span} (h : Behind cursor found) :
    endsAt (cursor + 1) found = false := by
  cases found with
  | nil => rfl
  | cons previous rest =>
    have hle := h previous rfl
    rw [endsAt, beq_eq_false_iff_ne]
    omega

theorem length_scan {cursor : Nat} {found : List Span} (h : Behind cursor found) (xs : List α) :
    (scan p cursor found xs).length = found.length + starts p (endsAt cursor found) xs := by
  induction xs generalizing cursor found with
  | nil => rfl
  | cons x xs ih =>
    cases hx : p x with
    | false =>
      have hbehind : Behind (cursor + 1) found := fun span hspan => Nat.le_succ_of_le (h span hspan)
      rw [scan, starts, hx, if_neg Bool.false_ne_true, ih hbehind, endsAt_of_behind h, Bool.false_and,
        if_neg Bool.false_ne_true, Nat.zero_add]
    | true =>
      obtain ⟨hbehind, hends, hlength⟩ := grow_behind cursor found
      rw [scan, starts, hx, if_pos rfl, ih hbehind, hends, hlength]
      cases endsAt cursor found <;> simp only [Bool.true_and, Bool.not_true, Bool.not_false, if_true, Bool.false_eq_true,
        if_false] <;> omega

theorem length_spans (p : α → Bool) (xs : List α) : (spans p xs).length = starts p false xs := by
  rw [spans, List.length_reverse, length_scan (fun span hspan => (by cases hspan)) xs]
  exact Nat.zero_add _

/-- A stretch without the predicate stands for another one. -/
theorem length_spans_replace {before own new after : List α} (hown : ∀ x ∈ own, p x = false) (hne : own ≠ [])
    (hnew : ∀ x ∈ new, p x = false) (hne' : new ≠ []) :
    (spans p (before ++ new ++ after)).length = (spans p (before ++ own ++ after)).length := by
  have hcount : ∀ {xs : List α}, (∀ x ∈ xs, p x = false) → xs ≠ [] →
      (spans p (before ++ xs ++ after)).length = starts p false before + starts p false after := by
    intro xs hxs hxsne
    rw [length_spans, starts_append, starts_append, starts_of_none hxs, insideAfter_append, insideAfter_of_none hxs hxsne]
    rfl
  rw [hcount hnew hne', hcount hown hne]

theorem length_spans_append {xs new : List α} (hnew : ∀ x ∈ new, p x = false) :
    (spans p (xs ++ new)).length = (spans p xs).length := by
  rw [spans, scan_append, scan_of_none hnew, spans]

theorem none_of_starts {xs : List α} (h : starts p false xs = 0) : ∀ x ∈ xs, p x = false := by
  induction xs with
  | nil => exact fun _ hcontra => (by cases hcontra)
  | cons x xs ih =>
    rw [starts] at h
    cases hx : p x with
    | true =>
      rw [hx] at h
      exact absurd h (by simp)
    | false =>
      rw [hx] at h
      exact List.forall_mem_cons.mpr ⟨hx, ih (by simpa using h)⟩

theorem block_of_inside {xs : List α} (h : starts p true xs = 0) :
    ∃ own after, xs = own ++ after ∧ (∀ x ∈ own, p x = true) ∧ ∀ x ∈ after, p x = false := by
  induction xs with
  | nil => exact ⟨[], [], rfl, fun _ hcontra => (by cases hcontra), fun _ hcontra => (by cases hcontra)⟩
  | cons x xs ih =>
    rw [starts] at h
    cases hx : p x with
    | false =>
      rw [hx] at h
      have hrest : ∀ y ∈ xs, p y = false := none_of_starts (by simpa using h)
      exact ⟨[], x :: xs, rfl, fun _ hcontra => (by cases hcontra), List.forall_mem_cons.mpr ⟨hx, hrest⟩⟩
    | true =>
      rw [hx] at h
      obtain ⟨own, after, rfl, hown, hafter⟩ := ih (by simpa using h)
      exact ⟨x :: own, after, rfl, List.forall_mem_cons.mpr ⟨hx, hown⟩, hafter⟩

/-- A list with one span at most is one stretch and what is around it. -/
theorem exists_block {xs : List α} (h : (spans p xs).length ≤ 1) :
    ∃ before own after, xs = before ++ own ++ after ∧ (∀ x ∈ before, p x = false) ∧ (∀ x ∈ own, p x = true) ∧
      ∀ x ∈ after, p x = false := by
  rw [length_spans] at h
  induction xs with
  | nil =>
    exact ⟨[], [], [], rfl, fun _ hcontra => (by cases hcontra), fun _ hcontra => (by cases hcontra),
      fun _ hcontra => (by cases hcontra)⟩
  | cons x xs ih =>
    rw [starts] at h
    cases hx : p x with
    | false =>
      rw [hx] at h
      obtain ⟨before, own, after, rfl, hbefore, hown, hafter⟩ := ih (by simpa using h)
      exact ⟨x :: before, own, after, rfl, List.forall_mem_cons.mpr ⟨hx, hbefore⟩, hown, hafter⟩
    | true =>
      rw [hx] at h
      have hinside : starts p true xs = 0 := by
        simp at h
        omega
      obtain ⟨own, after, rfl, hown, hafter⟩ := block_of_inside hinside
      exact ⟨[], x :: own, after, rfl, fun _ hcontra => (by cases hcontra), List.forall_mem_cons.mpr ⟨hx, hown⟩, hafter⟩

end

end Zulangue.Lib.Spans
