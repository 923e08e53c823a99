import Mathlib.Data.List.Basic

/-!
# The first match in a list

Changing the first element of a list that satisfies a predicate, and what a search finds in the list
after it.
-/

namespace Zulangue.Lib.FirstMatch

variable {α : Type*} {p q : α → Bool} {f : α → α} {items : List α} {x : α}

/-- The first element that satisfies `p` is changed. -/
def updateFirst (p : α → Bool) (f : α → α) : List α → List α
  | [] => []
  | first :: rest => if p first then f first :: rest else first :: updateFirst p f rest

theorem mem_updateFirst_of_mem (h : x ∈ items) (f : α → α) :
    x ∈ updateFirst p f items ∨ items.find? p = some x ∧ f x ∈ updateFirst p f items := by
  induction items with
  | nil => cases h
  | cons first rest ih =>
    rw [updateFirst, List.find?_cons]
    cases hfirst : p first with
    | true =>
      rcases List.mem_cons.mp h with rfl | h
      · exact .inr ⟨rfl, List.mem_cons_self⟩
      · exact .inl (List.mem_cons_of_mem _ h)
    | false =>
      rcases List.mem_cons.mp h with rfl | h
      · exact .inl List.mem_cons_self
      · rcases ih h with hmem | ⟨hfind, hmem⟩
        · exact .inl (List.mem_cons_of_mem _ hmem)
        · exact .inr ⟨hfind, List.mem_cons_of_mem _ hmem⟩

theorem of_mem_updateFirst (h : x ∈ updateFirst p f items) :
    x ∈ items ∨ ∃ old, items.find? p = some old ∧ x = f old := by
  induction items with
  | nil => cases h
  | cons first rest ih =>
    rw [updateFirst] at h
    rw [List.find?_cons]
    cases hfirst : p first with
    | true =>
      rw [hfirst] at h
      rcases List.mem_cons.mp h with rfl | h
      · exact .inr ⟨first, rfl, rfl⟩
      · exact .inl (List.mem_cons_of_mem _ h)
    | false =>
      rw [hfirst] at h
      rcases List.mem_cons.mp h with rfl | h
      · exact .inl List.mem_cons_self
      · rcases ih h with hmem | hchanged
        · exact .inl (List.mem_cons_of_mem _ hmem)
        · exact .inr hchanged

theorem updateFirst_eq_nil : updateFirst p f items = [] ↔ items = [] := by
  cases items with
  | nil => simp [updateFirst]
  | cons first rest =>
    rw [updateFirst]
    split <;> simp

theorem find?_updateFirst_self (hkeeps : ∀ x, p (f x) = p x) (items : List α) :
    (updateFirst p f items).find? p = (items.find? p).map f := by
  induction items with
  | nil => rfl
  | cons first rest ih =>
    rw [updateFirst]
    cases hfirst : p first with
    | true => simp [hfirst, hkeeps]
    | false => simpa [hfirst] using ih

theorem find?_updateFirst_of_other (hp : ∀ x, p x = true → q x = false ∧ q (f x) = false) (items : List α) :
    (updateFirst p f items).find? q = items.find? q := by
  induction items with
  | nil => rfl
  | cons first rest ih =>
    rw [updateFirst]
    cases hfirst : p first with
    | true => simp [hp first hfirst]
    | false => simp [List.find?_cons, ih]

/-- Where no two elements satisfy `p`, every element that does is the first. -/
theorem updateFirst_eq_map (h : items.Pairwise fun x y => p x = true → p y = false) :
    updateFirst p f items = items.map fun x => if p x then f x else x := by
  induction items with
  | nil => rfl
  | cons first rest ih =>
    obtain ⟨hhead, htail⟩ := List.pairwise_cons.mp h
    rw [updateFirst, List.map_cons]
    cases hfirst : p first with
    | true =>
      have hrest : rest.map (fun x => if p x then f x else x) = rest.map id := by
        apply List.map_congr_left
        intro x hx
        simp [hhead x hx hfirst]
      simp [hrest]
    | false => simp [ih htail]

end Zulangue.Lib.FirstMatch
