import Mathlib.Data.List.Perm.Basic
import Mathlib.Data.List.Nodup
import Zulangue.Lib.ListEdits

/-!
# Reordering a list by moves

The elements of a list are its old positions. A script moves those that are not kept, in the order
wanted, each from its old position to the place it is to have.
-/

namespace Zulangue.Lib.ListEdit

variable {α β : Type}

def moves (kept : Nat → Bool) (start : Nat) (wanted : List Nat) : List (ListEdit α) :=
  (wanted.zipIdx start).filterMap fun entry => if kept entry.1 then none else some (.move entry.1 entry.2)

theorem moves_of_kept {kept : Nat → Bool} {wanted : List Nat} (h : ∀ x ∈ wanted, kept x = true) (start : Nat) :
    (moves kept start wanted : List (ListEdit α)) = [] := by
  unfold moves
  rw [List.filterMap_eq_nil_iff]
  intro entry hentry
  rw [if_pos (h _ (List.fst_mem_of_mem_zipIdx hentry))]

theorem moves_append_cons {kept : Nat → Bool} {before after : List Nat} {x : Nat}
    (hbefore : ∀ y ∈ before, kept y = true) (hx : kept x = false) (start : Nat) :
    (moves kept start (before ++ x :: after) : List (ListEdit α)) =
      .move x (start + before.length) :: moves kept (start + before.length + 1) after := by
  have hnone := moves_of_kept (α := α) hbefore start
  unfold moves at hnone ⊢
  rw [List.zipIdx_append, List.filterMap_append, hnone, List.zipIdx_cons, List.filterMap_cons, hx]
  rfl

/-- Moves do not look at what they move. -/
theorem runAll_moves_map (g : α → β) (kept : Nat → Bool) (wanted : List Nat) (start : Nat) (items : List α) :
    runAll (moves kept start wanted) (items.map g) = (runAll (moves kept start wanted) items).map (List.map g) := by
  unfold moves
  induction wanted.zipIdx start generalizing items with
  | nil => rfl
  | cons entry entries ih =>
    cases hkept : kept entry.1 with
    | true =>
      simp only [List.filterMap_cons, hkept, if_true]
      exact ih items
    | false =>
      simp only [List.filterMap_cons, hkept, Bool.false_eq_true, if_false, runAll_cons, run, List.length_map,
        List.getElem?_map]
      by_cases hlt : entry.2 < items.length
      · rw [if_pos hlt, if_pos hlt]
        cases items[entry.1]? with
        | none => rfl
        | some item =>
          have hmap : ((items.map g).eraseIdx entry.1).insertIdx entry.2 (g item) =
              ((items.eraseIdx entry.1).insertIdx entry.2 item).map g := by
            rw [List.map_insertIdx, List.eraseIdx_map]
          simp only [Option.map_some, Option.bind_some, hmap]
          exact ih _
      · rw [if_neg hlt, if_neg hlt]
        rfl

theorem all_or_first (p : α → Bool) (items : List α) :
    (∀ x ∈ items, p x = true) ∨
      ∃ before x after, items = before ++ x :: after ∧ (∀ y ∈ before, p y = true) ∧ p x = false := by
  induction items with
  | nil => exact .inl fun x hx => absurd hx List.not_mem_nil
  | cons item items ih =>
    cases hitem : p item with
    | false => exact .inr ⟨[], item, items, rfl, fun y hy => absurd hy List.not_mem_nil, hitem⟩
    | true =>
      obtain hall | ⟨before, x, after, rfl, hbefore, hx⟩ := ih
      · exact .inl (List.forall_mem_cons.mpr ⟨hitem, hall⟩)
      · exact .inr ⟨item :: before, x, after, rfl, List.forall_mem_cons.mpr ⟨hitem, hbefore⟩, hx⟩

/-- Ascending lists of the same elements are equal. -/
theorem eq_of_perm_ascending {as bs : List Nat} (h : as.Perm bs) (has : as.Pairwise (· < ·))
    (hbs : bs.Pairwise (· < ·)) : as = bs :=
  h.eq_of_pairwise (fun _ _ _ _ hab hba => absurd hab (Nat.lt_asymm hba)) has hbs

theorem filter_range_lt {x n : Nat} (h : x ≤ n) : (List.range n).filter (· < x) = List.range x := by
  obtain ⟨more, rfl⟩ := Nat.exists_eq_add_of_le h
  rw [List.range_add, List.filter_append]
  have hlow : (List.range x).filter (· < x) = List.range x := by
    rw [List.filter_eq_self]
    simp
  have hhigh : ((List.range more).map (x + ·)).filter (· < x) = [] := by
    simp [List.filter_eq_nil_iff]
  rw [hlow, hhigh, List.append_nil]

/-- What is asked of an order so that no move meets an index that has gone stale: what stands at or
before one that moves comes, in the old order, before every later one that moves. -/
def InTurn (kept : Nat → Bool) (wanted : List Nat) : Prop :=
  ∀ before x after, wanted = before ++ x :: after → kept x = false →
    ∀ y ∈ before ++ [x], ∀ z ∈ after, kept z = false → y < z

theorem InTurn.tail {kept : Nat → Bool} {before after : List Nat} {x : Nat}
    (h : InTurn kept (before ++ x :: after)) : InTurn kept after := by
  intro first y last heq hy z hz
  apply h (before ++ x :: first) y last (by simp [heq]) hy z
  rw [List.append_assoc]
  exact List.mem_append_right _ (List.mem_cons_of_mem _ hz)

/-- The place of the next one that moves is still the old one. -/
theorem length_before {front first last : List Nat} {x n : Nat} (hall : (front ++ (first ++ x :: last)).Perm (List.range n))
    (hfront : ∀ y ∈ front, y < x) (hascending : (first ++ x :: last).Pairwise (· < ·)) :
    front.length + first.length = x := by
  have hx : x < n := List.mem_range.mp (hall.subset (by simp))
  have hcount := (hall.filter (· < x)).length_eq
  rw [List.pairwise_append, List.pairwise_cons] at hascending
  have hbefore : front.filter (· < x) = front := by
    rw [List.filter_eq_self]
    exact fun y hy => decide_eq_true (hfront y hy)
  have hfirst : first.filter (· < x) = first := by
    rw [List.filter_eq_self]
    exact fun y hy => decide_eq_true (hascending.2.2 y hy x List.mem_cons_self)
  have hlast : last.filter (· < x) = [] := by
    rw [List.filter_eq_nil_iff]
    intro y hy hlt
    have := hascending.2.1.1 y hy
    simp only [decide_eq_true_eq] at hlt
    omega
  rw [filter_range_lt (Nat.le_of_lt hx)] at hcount
  simpa [hbefore, hfirst, hlast] using hcount

/-- Where all is in turn, the moves put what is left behind `front` in the order wanted. -/
theorem runAll_moves {kept : Nat → Bool} {n : Nat} {front rest wanted : List Nat}
    (hall : (front ++ rest).Perm (List.range n)) (hrest : rest.Pairwise (· < ·)) (hwanted : wanted.Perm rest)
    (hkept : (wanted.filter kept).Pairwise (· < ·)) (hfront : ∀ y ∈ front, ∀ z ∈ wanted, kept z = false → y < z)
    (hturn : InTurn kept wanted) :
    runAll (moves kept front.length wanted) (front ++ rest) = some (front ++ wanted) := by
  induction hsize : wanted.length using Nat.strongRecOn generalizing front rest wanted with
  | _ size ih =>
    subst hsize
    obtain hstay | ⟨before, x, after, rfl, hbefore, hx⟩ := all_or_first kept wanted
    · have hsame : wanted.filter kept = wanted := List.filter_eq_self.mpr hstay
      rw [hsame] at hkept
      rw [moves_of_kept hstay, runAll_nil, eq_of_perm_ascending hwanted hkept hrest]
    · obtain ⟨first, last, rfl⟩ := List.append_of_mem (hwanted.subset (List.mem_append_right _ List.mem_cons_self))
      have hplace := length_before hall (fun y hy => hfront y hy x (by simp) hx) hrest
      have hlater := hturn before x after rfl hx
      -- Without it, what was wanted before it comes first, and what is wanted after it follows.
      have hothers : (before ++ after).Perm (first ++ last) := by
        have hmiddle := (List.perm_middle.symm.trans hwanted).trans List.perm_middle
        exact hmiddle.cons_inv
      have hrest' : (first ++ last).Pairwise (· < ·) :=
        hrest.sublist ((List.sublist_cons_self x last).append_left first)
      have hnodup : (first ++ last).Nodup := hrest'.imp Nat.ne_of_lt
      have hafter : after.Nodup := (List.nodup_append.mp (hothers.nodup_iff.mpr hnodup)).2.1
      let next := (first ++ last).filter (· ∈ after)
      have hascending : next.Pairwise (· < ·) := hrest'.sublist List.filter_sublist
      have hnext : next.Perm after := by
        rw [List.perm_ext_iff_of_nodup (hnodup.filter _) hafter]
        intro z
        rw [List.mem_filter, decide_eq_true_eq]
        refine ⟨fun h => h.2, fun h => ⟨hothers.subset (List.mem_append_right _ h), h⟩⟩
      rw [List.filter_append, List.filter_cons_of_neg (by simp [hx]), List.pairwise_append] at hkept
      have hsplit : first ++ last = before ++ next := by
        apply (eq_of_perm_ascending ((hnext.append_left before).trans hothers) ?_ hrest').symm
        rw [List.pairwise_append]
        refine ⟨?_, hascending, ?_⟩
        · rw [← List.filter_eq_self.mpr hbefore]
          exact hkept.1
        · intro y hy z hz
          have hz : z ∈ after := hnext.subset hz
          cases hmoves : kept z with
          | false => exact hlater y (List.mem_append_left _ hy) z hz hmoves
          | true =>
            exact hkept.2.2 y (List.mem_filter.mpr ⟨hy, hbefore y hy⟩) z (List.mem_filter.mpr ⟨hz, hmoves⟩)
      have hmove : (move x (front.length + before.length)).run (front ++ (first ++ x :: last)) =
          some ((front ++ before ++ [x]) ++ next) := by
        have hlength := congrArg List.length hsplit
        simp only [List.length_append] at hlength
        have hinside : front.length + before.length < (front ++ (first ++ x :: last)).length := by
          simp only [List.length_append, List.length_cons]
          omega
        have hfound : (front ++ (first ++ x :: last))[x]? = some x := by
          rw [← List.append_assoc, List.getElem?_append_right (by simp [hplace])]
          simp [hplace]
        have herase : (front ++ (first ++ x :: last)).eraseIdx x = (front ++ before) ++ next := by
          have hzero : x - (front ++ first).length = 0 := by
            rw [List.length_append]
            omega
          rw [← List.append_assoc, List.eraseIdx_append_of_length_le (by simp [hplace]), hzero, List.eraseIdx_cons_zero,
            List.append_assoc front first, hsplit, List.append_assoc front before]
        have hinsert := insertIdx_append_length (front ++ before) next x
        rw [List.length_append] at hinsert
        rw [run, if_pos hinside, hfound, Option.map_some, herase, hinsert]
        simp
      have hall' : ((front ++ before ++ [x]) ++ next).Perm (List.range n) := by
        refine List.Perm.trans ?_ hall
        rw [List.append_assoc, List.append_assoc]
        refine List.Perm.append_left front ?_
        rw [List.singleton_append]
        exact (List.perm_middle.trans ((List.Perm.of_eq hsplit.symm).cons x)).trans List.perm_middle.symm
      have hfront' : ∀ y ∈ front ++ before ++ [x], ∀ z ∈ after, kept z = false → y < z := by
        intro y hy z hz hmoves
        rw [List.append_assoc] at hy
        obtain hy | hy := List.mem_append.mp hy
        · exact hfront y hy z (List.mem_append_right _ (List.mem_cons_of_mem _ hz)) hmoves
        · exact hlater y hy z hz hmoves
      have hremaining := ih after.length (by simp only [List.length_append, List.length_cons]; omega) hall' hascending
        hnext.symm hkept.2.1 hfront' hturn.tail rfl
      have hplaces : (front ++ before ++ [x]).length = front.length + before.length + 1 := by simp [Nat.add_assoc]
      rw [hplaces] at hremaining
      rw [moves_append_cons hbefore hx, runAll_cons, hmove, Option.bind_some, hremaining]
      simp

end ListEdit

end Zulangue.Lib
