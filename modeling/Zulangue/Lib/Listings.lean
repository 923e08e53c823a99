import Mathlib.Data.List.Perm.Basic
import Mathlib.Data.List.Sort
import Mathlib.Data.List.Range

/-!
# Listings with ties

A sorted result of a database, in which the items that tie may come in any order, another one for every read.
-/

namespace Zulangue.Lib

/-- A total preorder; items that are below each other tie. -/
structure Preference (α : Type) where
  le : α → α → Bool
  total : ∀ a b, le a b = true ∨ le b a = true
  trans : ∀ a b c, le a b = true → le b c = true → le a c = true

theorem Preference.refl {α : Type} (order : Preference α) (x : α) : order.le x x = true := by
  obtain h | h := order.total x x <;> exact h

namespace Listings

section
variable {α : Type} (order : Preference α) (items : List α)

/-- What a read in this order may return. -/
structure Listing (listing : List α) : Prop where
  perm : listing.Perm items
  sorted : listing.Pairwise fun a b => order.le a b = true

/-- How many come before `x` in every listing. -/
def ahead (x : α) : Nat := items.countP fun y => !order.le x y

/-- How many do not come behind `x` in every listing, `x` itself included. -/
def reach (x : α) : Nat := items.countP fun y => order.le y x

/-- The page `i` of `k` items. -/
def page (k i : Nat) (listing : List α) : List α := (listing.drop (i * k)).take k

end

section
variable {α : Type} {order : Preference α} {items listing : List α} {x : α} {i j k n : Nat}

theorem split_of_getElem? (h : listing[j]? = some x) :
    ∃ before after, listing = before ++ x :: after ∧ before.length = j := by
  obtain ⟨hlt, rfl⟩ := List.getElem?_eq_some_iff.mp h
  refine ⟨listing.take j, listing.drop (j + 1), ?_, by simp; omega⟩
  rw [List.getElem_cons_drop, List.take_append_drop]

/-! ## Where an item can stand -/

theorem Listing.ahead_le (h : Listing order items listing) (hj : listing[j]? = some x) : ahead order items x ≤ j := by
  obtain ⟨before, after, rfl, rfl⟩ := split_of_getElem? hj
  have hafter : after.countP (fun y => !order.le x y) = 0 := by
    apply List.countP_eq_zero.mpr
    intro y hy
    have hle := (List.pairwise_cons.mp (List.pairwise_append.mp h.sorted).2.1).1 y hy
    simp [hle]
  unfold ahead
  rw [← h.perm.countP_eq, List.countP_append, List.countP_cons, hafter, order.refl]
  have := before.countP_le_length (p := fun y => !order.le x y)
  simpa using this

theorem Listing.lt_reach (h : Listing order items listing) (hj : listing[j]? = some x) : j < reach order items x := by
  obtain ⟨before, after, rfl, rfl⟩ := split_of_getElem? hj
  have hbefore : before.countP (fun y => order.le y x) = before.length := by
    apply List.countP_eq_length.mpr
    intro y hy
    exact (List.pairwise_append.mp h.sorted).2.2 y hy x List.mem_cons_self
  unfold reach
  rw [← h.perm.countP_eq, List.countP_append, List.countP_cons, hbefore, order.refl]
  simp only [if_true]
  omega

theorem reach_le_length (order : Preference α) (items : List α) (x : α) : reach order items x ≤ items.length :=
  List.countP_le_length

theorem reach_pos (order : Preference α) (hx : x ∈ items) : 0 < reach order items x :=
  List.countP_pos_iff.mpr ⟨x, hx, order.refl x⟩

/-- Ties can be broken by any number. -/
theorem exists_listing (order : Preference α) (items : List α) (prefer : α → Nat) :
    ∃ listing, Listing order items listing ∧
      listing.Pairwise fun a b => order.le b a = true → prefer a ≤ prefer b := by
  let le := fun a b => order.le a b && (!order.le b a || decide (prefer a ≤ prefer b))
  have hiff : ∀ a b, le a b = true ↔ order.le a b = true ∧ (order.le b a = true → prefer a ≤ prefer b) := by
    intro a b
    simp only [le, Bool.and_eq_true, Bool.or_eq_true, Bool.not_eq_true', decide_eq_true_eq]
    cases order.le b a <;> simp
  have htrans : ∀ a b c, le a b = true → le b c = true → le a c = true := by
    intro a b c hab hbc
    rw [hiff] at hab hbc ⊢
    refine ⟨order.trans a b c hab.1 hbc.1, fun hca => ?_⟩
    exact Nat.le_trans (hab.2 (order.trans b c a hbc.1 hca)) (hbc.2 (order.trans c a b hca hab.1))
  have htotal : ∀ a b, (le a b || le b a) = true := by
    intro a b
    rw [Bool.or_eq_true, hiff, hiff]
    rcases order.total a b with h | h
    · by_cases hback : order.le b a = true
      · rcases Nat.le_total (prefer a) (prefer b) with hle | hle
        · exact .inl ⟨h, fun _ => hle⟩
        · exact .inr ⟨hback, fun _ => hle⟩
      · exact .inl ⟨h, fun hba => absurd hba hback⟩
    · by_cases hback : order.le a b = true
      · rcases Nat.le_total (prefer a) (prefer b) with hle | hle
        · exact .inl ⟨hback, fun _ => hle⟩
        · exact .inr ⟨h, fun _ => hle⟩
      · exact .inr ⟨h, fun hab => absurd hab hback⟩
  have hsorted := List.pairwise_mergeSort htrans htotal items
  refine ⟨items.mergeSort le, ⟨List.mergeSort_perm items le, ?_⟩, ?_⟩
  · exact hsorted.imp fun h => ((hiff _ _).mp h).1
  · exact hsorted.imp fun h => ((hiff _ _).mp h).2

theorem getElem?_length_append (before after : List α) (x : α) : (before ++ x :: after)[before.length]? = some x := by
  rw [List.getElem?_append_right (Nat.le_refl _), Nat.sub_self]
  rfl

/-- The item that is preferred stands first among those that tie with it. -/
theorem Listing.getElem?_ahead (h : Listing order items listing) (hitems : items.Nodup) {prefer : α → Nat}
    (hprefer : listing.Pairwise fun a b => order.le b a = true → prefer a ≤ prefer b) (hx : x ∈ items)
    (hfirst : ∀ y ∈ items, y ≠ x → prefer x < prefer y) : listing[ahead order items x]? = some x := by
  obtain ⟨before, after, rfl⟩ := List.append_of_mem (h.perm.mem_iff.mpr hx)
  have hnodup := h.perm.nodup_iff.mpr hitems
  have hbefore : before.countP (fun y => !order.le x y) = before.length := by
    apply List.countP_eq_length.mpr
    intro y hy
    have hmem : y ∈ items := h.perm.mem_iff.mp (List.mem_append_left _ hy)
    have hne : y ≠ x := (List.nodup_append.mp hnodup).2.2 y hy x List.mem_cons_self
    have htie := (List.pairwise_append.mp hprefer).2.2 y hy x List.mem_cons_self
    have hless := hfirst y hmem hne
    cases hle : order.le x y
    · rfl
    · have := htie hle
      omega
  have hafter : after.countP (fun y => !order.le x y) = 0 := by
    apply List.countP_eq_zero.mpr
    intro y hy
    have hle := (List.pairwise_cons.mp (List.pairwise_append.mp h.sorted).2.1).1 y hy
    simp [hle]
  have hahead : ahead order items x = before.length := by
    unfold ahead
    rw [← h.perm.countP_eq, List.countP_append, List.countP_cons, hbefore, hafter, order.refl]
    rfl
  rw [hahead]
  exact getElem?_length_append before after x

/-- The item that is preferred to no other stands last. -/
theorem Listing.getElem?_reach (h : Listing order items listing) (hitems : items.Nodup) {prefer : α → Nat}
    (hprefer : listing.Pairwise fun a b => order.le b a = true → prefer a ≤ prefer b) (hx : x ∈ items)
    (hlast : ∀ y ∈ items, y ≠ x → prefer y < prefer x) : listing[reach order items x - 1]? = some x := by
  obtain ⟨before, after, rfl⟩ := List.append_of_mem (h.perm.mem_iff.mpr hx)
  have hnodup := h.perm.nodup_iff.mpr hitems
  have hbefore : before.countP (fun y => order.le y x) = before.length := by
    apply List.countP_eq_length.mpr
    intro y hy
    exact (List.pairwise_append.mp h.sorted).2.2 y hy x List.mem_cons_self
  have hafter : after.countP (fun y => order.le y x) = 0 := by
    apply List.countP_eq_zero.mpr
    intro y hy hle
    have hmem : y ∈ items := h.perm.mem_iff.mp (List.mem_append_right _ (List.mem_cons_of_mem _ hy))
    have hne : y ≠ x := by
      rintro rfl
      exact (List.nodup_cons.mp (List.nodup_append.mp hnodup).2.1).1 hy
    have htie := (List.pairwise_cons.mp (List.pairwise_append.mp hprefer).2.1).1 y hy hle
    have hless := hlast y hmem hne
    omega
  have hreach : reach order items x = before.length + 1 := by
    unfold reach
    rw [← h.perm.countP_eq, List.countP_append, List.countP_cons, hbefore, hafter, order.refl]
    rfl
  rw [hreach, Nat.add_sub_cancel]
  exact getElem?_length_append before after x

theorem exists_first (order : Preference α) (hitems : items.Nodup) (hx : x ∈ items) :
    ∃ listing, Listing order items listing ∧ listing[ahead order items x]? = some x := by
  classical
  obtain ⟨listing, hlisting, hprefer⟩ := exists_listing order items fun y => if y = x then 0 else 1
  refine ⟨listing, hlisting, hlisting.getElem?_ahead hitems hprefer hx fun y _ hne => ?_⟩
  simp [hne]

theorem exists_last (order : Preference α) (hitems : items.Nodup) (hx : x ∈ items) :
    ∃ listing, Listing order items listing ∧ listing[reach order items x - 1]? = some x := by
  classical
  obtain ⟨listing, hlisting, hprefer⟩ := exists_listing order items fun y => if y = x then 1 else 0
  refine ⟨listing, hlisting, hlisting.getElem?_reach hitems hprefer hx fun y _ hne => ?_⟩
  simp [hne]

theorem exists_first_last (order : Preference α) (hitems : items.Nodup) {y : α} (hx : x ∈ items) (hy : y ∈ items)
    (hne : x ≠ y) :
    ∃ listing, Listing order items listing ∧ listing[ahead order items x]? = some x ∧
      listing[reach order items y - 1]? = some y := by
  classical
  obtain ⟨listing, hlisting, hprefer⟩ :=
    exists_listing order items fun z => if z = x then 0 else if z = y then 2 else 1
  refine ⟨listing, hlisting, hlisting.getElem?_ahead hitems hprefer hx fun z _ hz => ?_,
    hlisting.getElem?_reach hitems hprefer hy fun z _ hz => ?_⟩
  · rw [if_pos rfl, if_neg hz]
    split <;> omega
  · rw [if_neg hne.symm, if_pos rfl, if_neg hz]
    split <;> omega

/-! ## The first items -/

theorem mem_take_iff : x ∈ listing.take n ↔ ∃ j < n, listing[j]? = some x := by
  rw [List.mem_iff_getElem?]
  constructor
  · rintro ⟨j, hj⟩
    rw [List.getElem?_take] at hj
    split at hj
    next hlt => exact ⟨j, hlt, hj⟩
    · cases hj
  · rintro ⟨j, hlt, hj⟩
    refine ⟨j, ?_⟩
    rw [List.getElem?_take, if_pos hlt]
    exact hj

/-- An item is among the first `n`, whatever the ties do, when only so many can stand before it. -/
theorem mem_take_forall_iff (order : Preference α) (hitems : items.Nodup) (hx : x ∈ items) :
    (∀ listing, Listing order items listing → x ∈ listing.take n) ↔ reach order items x ≤ n := by
  constructor
  · intro h
    obtain ⟨listing, hlisting, hlast⟩ := exists_last order hitems hx
    obtain ⟨j, hj, hget⟩ := mem_take_iff.mp (h listing hlisting)
    have hnodup := hlisting.perm.nodup_iff.mpr hitems
    have hsame := (List.getElem?_inj (List.getElem?_eq_some_iff.mp hget).1 hnodup).mp (hget.trans hlast.symm)
    omega
  · intro h listing hlisting
    obtain ⟨j, hget⟩ := List.mem_iff_getElem?.mp (hlisting.perm.mem_iff.mpr hx)
    have := hlisting.lt_reach hget
    exact mem_take_iff.mpr ⟨j, by omega, hget⟩

/-- Filtering after the limit loses nothing, whatever the ties do, when no item that is filtered out can stand among
the first `n` while one that is kept stands behind them. -/
theorem filter_take_forall_iff (order : Preference α) (hitems : items.Nodup) (p : α → Bool) :
    (∀ listing, Listing order items listing → ((listing.take n).filter p).length = min n (items.countP p)) ↔
      ∀ x ∈ items, ∀ y ∈ items, p x = false → p y = true → n ≤ ahead order items x ∨ reach order items y ≤ n := by
  constructor
  · intro h x hx y hy hout hin
    have hne : x ≠ y := by
      rintro rfl
      rw [hin] at hout
      cases hout
    obtain ⟨listing, hlisting, hfirst, hlast⟩ := exists_first_last order hitems hx hy hne
    have hlength := h listing hlisting
    rw [← List.countP_eq_length_filter, ← hlisting.perm.countP_eq] at hlength
    have hsplit : listing.countP p = (listing.take n).countP p + (listing.drop n).countP p := by
      rw [← List.countP_append, List.take_append_drop]
    by_contra hboth
    rw [not_or, Nat.not_le, Nat.not_le] at hboth
    have htaken : (listing.take n).countP p < n := by
      have hmem : x ∈ listing.take n := mem_take_iff.mpr ⟨_, hboth.1, hfirst⟩
      have hle := (listing.take n).countP_le_length (p := p)
      have hlt : (listing.take n).countP p ≠ (listing.take n).length := by
        intro heq
        have := List.countP_eq_length.mp heq x hmem
        rw [hout] at this
        cases this
      rw [List.length_take] at hle hlt
      omega
    have hleft : 0 < (listing.drop n).countP p := by
      apply List.countP_pos_iff.mpr
      refine ⟨y, List.mem_iff_getElem?.mpr ⟨reach order items y - 1 - n, ?_⟩, hin⟩
      rw [List.getElem?_drop, Nat.add_sub_cancel' (by omega)]
      exact hlast
    omega
  · intro h listing hlisting
    rw [← List.countP_eq_length_filter, ← hlisting.perm.countP_eq]
    have hsplit : listing.countP p = (listing.take n).countP p + (listing.drop n).countP p := by
      rw [← List.countP_append, List.take_append_drop]
    have hlength := List.length_take (i := n) (l := listing)
    have hle := (listing.take n).countP_le_length (p := p)
    by_cases hall : ∀ x ∈ listing.take n, p x = true
    · have htaken := List.countP_eq_length.mpr hall
      by_cases hshort : listing.length ≤ n
      · rw [List.take_of_length_le hshort]
        have := listing.countP_le_length (p := p)
        omega
      · omega
    · rw [not_forall] at hall
      obtain ⟨x, hall⟩ := hall
      rw [Classical.not_imp] at hall
      obtain ⟨hmem, hout⟩ := hall
      obtain ⟨i, hi, hget⟩ := mem_take_iff.mp hmem
      have hx : x ∈ items := hlisting.perm.mem_iff.mp (List.mem_of_mem_take hmem)
      have hahead := hlisting.ahead_le hget
      have hrest : (listing.drop n).countP p = 0 := by
        apply List.countP_eq_zero.mpr
        intro y hy hin
        obtain ⟨j, hgety⟩ := List.mem_iff_getElem?.mp hy
        rw [List.getElem?_drop] at hgety
        have hreach := hlisting.lt_reach hgety
        have := h x hx y (hlisting.perm.mem_iff.mp (List.mem_of_mem_drop hy)) (Bool.not_eq_true _ ▸ hout) hin
        omega
      omega

/-! ## Pages -/

theorem mem_page_iff (hk : 0 < k) : x ∈ page k i listing ↔ ∃ j, listing[j]? = some x ∧ j / k = i := by
  unfold page
  rw [mem_take_iff]
  constructor
  · rintro ⟨j, hj, hget⟩
    rw [List.getElem?_drop] at hget
    refine ⟨i * k + j, hget, ?_⟩
    rw [Nat.mul_comm, Nat.mul_add_div hk, Nat.div_eq_of_lt hj, Nat.add_zero]
  · rintro ⟨j, hget, rfl⟩
    refine ⟨j % k, Nat.mod_lt j hk, ?_⟩
    rw [List.getElem?_drop, Nat.mul_comm, Nat.div_add_mod]
    exact hget

theorem nodup_page (h : listing.Nodup) (k i : Nat) : (page k i listing).Nodup :=
  (h.sublist (List.drop_sublist _ _)).sublist (List.take_sublist _ _)

/-- The pages of a read, each from a listing of its own, are the items, whatever the ties do, when no tie is spread
over two pages. -/
theorem pages_forall_iff (order : Preference α) (hitems : items.Nodup) (hk : 0 < k) {count : Nat}
    (hcount : items.length ≤ count * k) :
    (∀ listings : Nat → List α, (∀ i, Listing order items (listings i)) →
      ((List.range count).flatMap fun i => page k i (listings i)).Perm items) ↔
      ∀ x ∈ items, ahead order items x / k = (reach order items x - 1) / k := by
  constructor
  · intro h x hx
    by_contra hne
    obtain ⟨first, hfirst, hgetFirst⟩ := exists_first order hitems hx
    obtain ⟨last, hlast, hgetLast⟩ := exists_last order hitems hx
    let listings : Nat → List α := fun i => if i = ahead order items x / k then first else last
    have hlistings : ∀ i, Listing order items (listings i) := by
      intro i
      show Listing order items (if i = ahead order items x / k then first else last)
      split
      · exact hfirst
      · exact hlast
    have hnodup := (h listings hlistings).nodup_iff.mpr hitems
    have hlt : ∀ m, m < items.length → m / k < count := by
      intro m hm
      rw [Nat.div_lt_iff_lt_mul hk]
      omega
    have hpos := reach_pos order hx
    have hreach := reach_le_length order items x
    have hahead := hfirst.lt_reach hgetFirst
    have hpageFirst : x ∈ page k (ahead order items x / k) (listings (ahead order items x / k)) := by
      apply (mem_page_iff hk).mpr
      refine ⟨ahead order items x, ?_, rfl⟩
      simp only [listings, if_true]
      exact hgetFirst
    have hpageLast : x ∈ page k ((reach order items x - 1) / k) (listings ((reach order items x - 1) / k)) := by
      apply (mem_page_iff hk).mpr
      refine ⟨reach order items x - 1, ?_, rfl⟩
      simp only [listings, if_neg (Ne.symm hne)]
      exact hgetLast
    have hsymm : Std.Symm (Function.onFun List.Disjoint fun i => page k i (listings i)) :=
      ⟨fun _ _ h _ hmem hmem' => h hmem' hmem⟩
    have hdisjoint := (List.nodup_flatMap.mp hnodup).2.forall
      (List.mem_range.mpr (hlt (ahead order items x) (by omega)))
      (List.mem_range.mpr (hlt (reach order items x - 1) (by omega))) hne
    exact hdisjoint hpageFirst hpageLast
  · intro h listings hlistings
    have hmem : ∀ x i, x ∈ page k i (listings i) ↔ x ∈ items ∧ ahead order items x / k = i := by
      intro x i
      rw [mem_page_iff hk]
      have hplace : ∀ j, (listings i)[j]? = some x → x ∈ items ∧ j / k = ahead order items x / k := by
        intro j hget
        have hx := (hlistings i).perm.mem_iff.mp (List.mem_of_getElem? hget)
        have hahead := Nat.div_le_div_right (c := k) ((hlistings i).ahead_le hget)
        have hreach := (hlistings i).lt_reach hget
        have hlast : j / k ≤ (reach order items x - 1) / k := Nat.div_le_div_right (by omega)
        have hsame := h x hx
        exact ⟨hx, by omega⟩
      constructor
      · rintro ⟨j, hget, rfl⟩
        obtain ⟨hx, hj⟩ := hplace j hget
        exact ⟨hx, hj.symm⟩
      · rintro ⟨hx, rfl⟩
        obtain ⟨j, hget⟩ := List.mem_iff_getElem?.mp ((hlistings (ahead order items x / k)).perm.mem_iff.mpr hx)
        exact ⟨j, hget, (hplace j hget).2⟩
    apply (List.perm_ext_iff_of_nodup _ hitems).mpr
    · intro x
      rw [List.mem_flatMap]
      constructor
      · rintro ⟨i, -, hpage⟩
        exact ((hmem x i).mp hpage).1
      · intro hx
        refine ⟨ahead order items x / k, List.mem_range.mpr ?_, (hmem x _).mpr ⟨hx, rfl⟩⟩
        obtain ⟨j, hget⟩ := List.mem_iff_getElem?.mp ((hlistings 0).perm.mem_iff.mpr hx)
        have hahead := (hlistings 0).ahead_le hget
        have hreach := (hlistings 0).lt_reach hget
        have hlength := reach_le_length order items x
        rw [Nat.div_lt_iff_lt_mul hk]
        omega
    · apply List.nodup_flatMap.mpr
      refine ⟨fun i _ => nodup_page ((hlistings i).perm.nodup_iff.mpr hitems) k i, ?_⟩
      apply List.nodup_range.imp
      intro i i' hne x hpage hpage'
      exact hne (((hmem x i).mp hpage).2.symm.trans ((hmem x i').mp hpage').2)

end
end Listings
end Zulangue.Lib
