import Mathlib.Data.List.Dedup
import Mathlib.Data.List.Sort

/-!
# Choosing the one best item

A list is ranked by a comparator; the best item is chosen only when no item of another
number is ranked level with it. `leads_iff` says what that choice is without any order of
the list, and `agree_iff` compares the choices of two rankings whose last criterion is a
distance that one of them now and then takes one smaller.
-/

namespace Zulangue.Lib.Ranking

open Std

variable {α β : Type*}

/-- A stable sort by a comparator. -/
def sortBy (cmp : α → α → Ordering) (items : List α) : List α :=
  items.insertionSort fun a b => (cmp a b).isLE = true

/-- The numbers of the items at the front of a ranking that are level with its first. -/
def leaders (level : α → α → Bool) (number : α → Nat) : List α → List Nat
  | [] => []
  | best :: rest => (((best :: rest).takeWhile (level best)).map number).dedup

/-- Some item of number `n` is ranked before every item of another number. -/
def Leads (cmp : α → α → Ordering) (number : α → Nat) (items : List α) (n : Nat) : Prop :=
  ∃ x ∈ items, number x = n ∧ ∀ y ∈ items, number y ≠ n → cmp x y = .lt

theorem mem_sortBy {cmp : α → α → Ordering} {items : List α} {x : α} :
    x ∈ sortBy cmp items ↔ x ∈ items :=
  List.mem_insertionSort _

theorem sortBy_eq_nil {cmp : α → α → Ordering} {items : List α} :
    sortBy cmp items = [] ↔ items = [] := by
  rw [← List.length_eq_zero_iff, sortBy, List.length_insertionSort, List.length_eq_zero_iff]

theorem pairwise_sortBy (cmp : α → α → Ordering) [TransCmp cmp] (items : List α) :
    (sortBy cmp items).Pairwise fun a b => (cmp a b).isLE = true := by
  have total : Std.Total fun a b => (cmp a b).isLE = true := ⟨fun a b => by
    rw [@OrientedCmp.eq_swap _ cmp _ b _]
    cases cmp a b <;> simp⟩
  have trans : IsTrans α fun a b => (cmp a b).isLE = true :=
    ⟨fun _ _ _ hab hbc => TransCmp.isLE_trans hab hbc⟩
  exact List.pairwise_insertionSort _ items

/-- All numbers of a nonempty list are the first one. -/
theorem length_dedup_eq_one {n : Nat} {numbers : List Nat} :
    (n :: numbers).dedup.length = 1 ↔ ∀ m ∈ numbers, m = n := by
  constructor
  · intro hone m hm
    obtain ⟨only, honly⟩ := List.length_eq_one_iff.mp hone
    have hall : ∀ k ∈ n :: numbers, k = only := by
      intro k hk
      have hin := List.mem_dedup.mpr hk
      rw [honly] at hin
      exact List.mem_singleton.mp hin
    rw [hall m (List.mem_cons_of_mem n hm), hall n List.mem_cons_self]
  · intro hall
    have hdedup : (n :: numbers).dedup ⊆ [n] := by
      intro m hm
      rcases List.mem_cons.mp (List.mem_dedup.mp hm) with heq | hmem
      · rw [heq]
        exact List.mem_singleton_self n
      · rw [hall m hmem]
        exact List.mem_singleton_self n
    have hle := (List.subperm_of_subset (List.nodup_dedup (n :: numbers)) hdedup).length_le
    have hpos : 0 < (n :: numbers).dedup.length :=
      List.length_pos_of_mem (List.mem_dedup.mpr List.mem_cons_self)
    rw [List.length_singleton] at hle
    omega

section
variable {cmp tie : α → α → Ordering} [TransCmp cmp] [TransCmp tie] {level : α → α → Bool}
  {number : α → Nat} {items rest : List α} {best : α}

theorem isLE_of_ranked (h : sortBy (compareLex cmp tie) items = best :: rest) :
    (best :: rest).Pairwise fun a b => (cmp a b).isLE = true := by
  rw [← h]
  refine (pairwise_sortBy (compareLex cmp tie) items).imp fun {a b} hle => ?_
  rw [compareLex, Ordering.isLE_then_iff_and] at hle
  exact hle.1

/-- The front of the ranking takes in every item level with the best. -/
theorem mem_leaders (hlevel : ∀ a b, level a b = (cmp a b == .eq))
    (h : sortBy (compareLex cmp tie) items = best :: rest) {m : Nat} :
    m ∈ leaders level number (best :: rest) ↔
      ∃ y ∈ items, cmp best y = .eq ∧ number y = m := by
  have hpair := isLE_of_ranked h
  have hfront : ∀ y, y ∈ (best :: rest).takeWhile (level best) ↔
      y ∈ best :: rest ∧ cmp best y = .eq := by
    have hfrom : ∀ l : List α, l.Pairwise (fun a b => (cmp a b).isLE = true) →
        (∀ y ∈ l, (cmp best y).isLE = true) →
        ∀ y, y ∈ l.takeWhile (level best) ↔ y ∈ l ∧ cmp best y = .eq := by
      intro l hl hbest y
      induction l with
      | nil => simp
      | cons x l ih =>
        obtain ⟨hx, hl⟩ := List.pairwise_cons.mp hl
        have ih := ih hl fun y hy => hbest y (List.mem_cons_of_mem x hy)
        rw [List.takeWhile_cons]
        split
        · next heq =>
          rw [hlevel, beq_iff_eq] at heq
          rw [List.mem_cons, List.mem_cons, ih]
          constructor
          · rintro (rfl | ⟨hy, hlev⟩)
            · exact ⟨.inl rfl, heq⟩
            · exact ⟨.inr hy, hlev⟩
          · rintro ⟨rfl | hy, hlev⟩
            · exact .inl rfl
            · exact .inr ⟨hy, hlev⟩
        · next hne =>
          -- behind the first item that is not level, none is
          rw [hlevel, beq_iff_eq] at hne
          constructor
          · intro hy
            cases hy
          · rintro ⟨hy, hlev⟩
            exfalso
            rcases List.mem_cons.mp hy with rfl | hy
            · exact hne hlev
            · have hback : (cmp x best).isLE = true := by
                have heq : cmp y best = .eq := by rw [@OrientedCmp.eq_swap _ cmp _ _ _, hlev]; rfl
                exact TransCmp.isLE_trans (hx y hy) (by rw [heq]; rfl)
              have hforth := hbest x List.mem_cons_self
              exact hne (OrientedCmp.isLE_antisymm hforth hback)
    refine hfrom (best :: rest) hpair fun y hy => ?_
    rcases List.mem_cons.mp hy with rfl | hy
    · exact ReflCmp.isLE_rfl
    · exact (List.pairwise_cons.mp hpair).1 y hy
  rw [leaders, List.mem_dedup, List.mem_map]
  constructor
  · rintro ⟨y, hy, hnumber⟩
    obtain ⟨hmem, hlev⟩ := (hfront y).mp hy
    exact ⟨y, mem_sortBy.mp (h ▸ hmem), hlev, hnumber⟩
  · rintro ⟨y, hy, hlev, hnumber⟩
    exact ⟨y, (hfront y).mpr ⟨h ▸ mem_sortBy.mpr hy, hlev⟩, hnumber⟩

/-- The best item of a ranking is chosen exactly if its number leads. -/
theorem leads_iff (hlevel : ∀ a b, level a b = (cmp a b == .eq))
    (h : sortBy (compareLex cmp tie) items = best :: rest) (n : Nat) :
    (leaders level number (best :: rest)).length = 1 ∧ number best = n ↔
      Leads cmp number items n := by
  have hbest : ∀ y ∈ items, (cmp best y).isLE = true := by
    intro y hy
    have hin : y ∈ best :: rest := h ▸ mem_sortBy.mpr hy
    rcases List.mem_cons.mp hin with rfl | hy
    · exact ReflCmp.isLE_rfl
    · exact (List.pairwise_cons.mp (isLE_of_ranked h)).1 y hy
  have hin : best ∈ items := mem_sortBy.mp (h ▸ List.mem_cons_self)
  have hself : level best best = true := by
    have heq : cmp best best = .eq := ReflCmp.compare_self
    rw [hlevel, heq]
    rfl
  have hcons : leaders level number (best :: rest) =
      (number best :: (rest.takeWhile (level best)).map number).dedup := by
    rw [leaders, List.takeWhile_cons, if_pos hself, List.map_cons]
  have hone : (leaders level number (best :: rest)).length = 1 ↔
      ∀ m ∈ leaders level number (best :: rest), m = number best := by
    rw [hcons, length_dedup_eq_one]
    constructor
    · intro hall m hm
      rcases List.mem_cons.mp (List.mem_dedup.mp hm) with heq | hmem
      · exact heq
      · exact hall m hmem
    · intro hall m hm
      exact hall m (List.mem_dedup.mpr (List.mem_cons_of_mem _ hm))
  rw [hone]
  constructor
  · rintro ⟨hall, rfl⟩
    refine ⟨best, hin, rfl, fun y hy hne => ?_⟩
    have hle := hbest y hy
    cases hcmp : cmp best y with
    | lt => rfl
    | gt =>
      rw [hcmp] at hle
      cases hle
    | eq => exact absurd (hall _ ((mem_leaders hlevel h).mpr ⟨y, hy, hcmp, rfl⟩)) hne
  · rintro ⟨x, hx, hnumber, hlead⟩
    have hown : number best = n := by
      by_contra hne
      have hlt := hlead best hin hne
      have hge := hbest x hx
      rw [@OrientedCmp.eq_swap _ cmp _ _ _, hlt] at hge
      cases hge
    refine ⟨fun m hm => ?_, hown⟩
    obtain ⟨y, hy, hlev, rfl⟩ := (mem_leaders hlevel h).mp hm
    rw [hown]
    by_contra hne
    have hlt : cmp best y = .lt := TransCmp.lt_of_isLE_of_lt (hbest x hx) (hlead y hy hne)
    rw [hlev] at hlt
    cases hlt

end

theorem leads_congr {cmp : α → α → Ordering} {number : α → Nat} {items items' : List α}
    (h : ∀ x, x ∈ items ↔ x ∈ items') (n : Nat) :
    Leads cmp number items n ↔ Leads cmp number items' n := by
  simp only [Leads, h]

theorem leads_map {cmp : β → β → Ordering} {number : β → Nat} (f : α → β) (items : List α) (n : Nat) :
    Leads cmp number (items.map f) n ↔
      Leads (fun a b => cmp (f a) (f b)) (fun a => number (f a)) items n := by
  simp only [Leads, List.mem_map, exists_exists_and_eq_and, forall_exists_index, and_imp,
    forall_apply_eq_imp_iff₂]

/-! ## Two distances that differ by one now and then -/

section
variable {cmp : α → α → Ordering} [TransCmp cmp] (d d' : α → Nat) (number : α → Nat)
  (items : List α)

/-- By distance, where the rest of the ranking is level. -/
def byDistance (cmp : α → α → Ordering) (d : α → Nat) : α → α → Ordering :=
  compareLex cmp (compareOn d)

/-- Best in everything but the distance. -/
def Best (cmp : α → α → Ordering) (items : List α) (x : α) : Prop :=
  x ∈ items ∧ ∀ y ∈ items, (cmp x y).isLE = true

def Nearest (cmp : α → α → Ordering) (d : α → Nat) (items : List α) (x : α) : Prop :=
  Best cmp items x ∧ ∀ y, Best cmp items y → d x ≤ d y

/-- Taking the `closer` items one nearer decides otherwise than `d`: it singles out one
number of several nearest ones, or it puts an item of another number level with the only
nearest one. -/
def Decides (cmp : α → α → Ordering) (d : α → Nat) (closer : α → Prop) (number : α → Nat)
    (items : List α) : Prop :=
  (∃ x y, Nearest cmp d items x ∧ Nearest cmp d items y ∧ number y ≠ number x ∧ closer x ∧
    ∀ z, Nearest cmp d items z → closer z → number z = number x) ∨
  ∃ x y, Nearest cmp d items x ∧
    (∀ z, Nearest cmp d items z → number z = number x ∧ ¬ closer z) ∧
    Best cmp items y ∧ number y ≠ number x ∧ d y = d x + 1 ∧ closer y

theorem exists_nearest {x : α} (hx : x ∈ items) : ∃ y, Nearest cmp d items y := by
  have hbest : ∃ y, Best cmp items y := by
    cases hsort : sortBy cmp items with
    | nil =>
      rw [sortBy_eq_nil.mp hsort] at hx
      cases hx
    | cons first rest =>
      have hpair := pairwise_sortBy cmp items
      rw [hsort] at hpair
      refine ⟨first, mem_sortBy.mp (hsort ▸ List.mem_cons_self), fun y hy => ?_⟩
      have hin : y ∈ first :: rest := hsort ▸ mem_sortBy.mpr hy
      rcases List.mem_cons.mp hin with rfl | hy
      · exact ReflCmp.isLE_rfl
      · exact (List.pairwise_cons.mp hpair).1 y hy
  obtain ⟨y, hy⟩ := hbest
  generalize hdistance : d y = distance
  induction distance using Nat.strongRecOn generalizing y with
  | ind distance ih =>
    by_cases hnearer : ∃ z, Best cmp items z ∧ d z < d y
    · obtain ⟨z, hz, hless⟩ := hnearer
      exact ih (d z) (by omega) z hz rfl
    · refine ⟨y, hy, fun z hz => ?_⟩
      by_contra hless
      exact hnearer ⟨z, hz, by omega⟩

/-- A number leads exactly if all nearest items have it. -/
theorem leads_byDistance (n : Nat) :
    Leads (byDistance cmp d) number items n ↔
      (∃ x, Nearest cmp d items x) ∧ ∀ x, Nearest cmp d items x → number x = n := by
  have compare_best : ∀ {x y}, Best cmp items x → Best cmp items y → cmp x y = .eq := by
    intro x y hx hy
    exact OrientedCmp.isLE_antisymm (hx.2 y hy.1) (hy.2 x hx.1)
  constructor
  · rintro ⟨x, hx, rfl, hlead⟩
    obtain ⟨y, hy⟩ : ∃ y, Nearest cmp d items y := exists_nearest d items hx
    have hall : ∀ z, Nearest cmp d items z → number z = number x := by
      intro z hz
      by_contra hne
      have hlt := hlead z hz.1.1 hne
      rw [byDistance, compareLex, Ordering.then_eq_lt] at hlt
      rcases hlt with hlt | ⟨heq, hless⟩
      · have hback := hz.1.2 x hx
        rw [@OrientedCmp.eq_swap _ cmp _ _ _, hlt] at hback
        cases hback
      · have hbest : Best cmp items x := by
          refine ⟨hx, fun w hw => ?_⟩
          exact TransCmp.isLE_trans (by rw [heq]; rfl) (hz.1.2 w hw)
        have hnear := hz.2 x hbest
        rw [compareOn, Nat.compare_eq_lt] at hless
        omega
    exact ⟨⟨y, hy⟩, hall⟩
  · rintro ⟨⟨x, hx⟩, hall⟩
    refine ⟨x, hx.1.1, hall x hx, fun y hy hne => ?_⟩
    rw [byDistance, compareLex, Ordering.then_eq_lt]
    have hle := hx.1.2 y hy
    cases hcmp : cmp x y with
    | lt => exact .inl rfl
    | gt =>
      rw [hcmp] at hle
      cases hle
    | eq =>
      refine .inr ⟨rfl, ?_⟩
      have hbest : Best cmp items y := by
        refine ⟨hy, fun w hw => ?_⟩
        have heq : cmp y x = .eq := by rw [@OrientedCmp.eq_swap _ cmp _ _ _, hcmp]; rfl
        exact TransCmp.isLE_trans (by rw [heq]; rfl) (hx.1.2 w hw)
      rw [compareOn, Nat.compare_eq_lt]
      by_contra hnot
      refine hne (hall y ⟨hbest, fun z hz => ?_⟩)
      have := hx.2 z hz
      omega

/-- The two rankings choose alike unless taking some items closer decides otherwise. -/
theorem agree_iff {closer : α → Prop} (hcloser : ∀ x ∈ items, closer x → d x = d' x + 1)
    (hsame : ∀ x ∈ items, ¬ closer x → d x = d' x) :
    (∀ n, Leads (byDistance cmp d) number items n ↔ Leads (byDistance cmp d') number items n) ↔
      ¬ Decides cmp d closer number items := by
  have hle : ∀ x ∈ items, d' x ≤ d x := by
    intro x hx
    by_cases h : closer x
    · have := hcloser x hx h
      omega
    · exact Nat.le_of_eq (hsame x hx h).symm
  have hone : ∀ x ∈ items, d x ≤ d' x + 1 := by
    intro x hx
    by_cases h : closer x
    · exact Nat.le_of_eq (hcloser x hx h)
    · have := hsame x hx h
      omega
  simp only [leads_byDistance]
  by_cases hnone : ∃ x, Nearest cmp d items x
  · obtain ⟨first, hfirst⟩ := hnone
    have level : ∀ x, Nearest cmp d items x → d x = d first := by
      intro x hx
      exact Nat.le_antisymm (hx.2 first hfirst.1) (hfirst.2 x hx.1)
    have hexists : ∀ e : α → Nat, ∃ x, Nearest cmp e items x := fun e =>
      exists_nearest e items hfirst.1.1
    simp only [hexists, true_and]
    by_cases hany : ∃ x, Nearest cmp d items x ∧ closer x
    · -- the nearest by `d'` are those nearest by `d` that are taken closer
      obtain ⟨c, hc, hcless⟩ := hany
      have near : ∀ x, Nearest cmp d' items x ↔ Nearest cmp d items x ∧ closer x := by
        intro x
        have hclevel := level c hc
        have hcone := hcloser c hc.1.1 hcless
        constructor
        · intro hx
          have hxc := hx.2 c hc.1
          have hxone := hone x hx.1.1
          have hfx := hfirst.2 x hx.1
          refine ⟨⟨hx.1, fun y hy => ?_⟩, ?_⟩
          · have := hfirst.2 y hy
            omega
          · by_contra hnot
            have := hsame x hx.1.1 hnot
            omega
        · rintro ⟨hx, hless⟩
          refine ⟨hx.1, fun y hy => ?_⟩
          have hxlevel := level x hx
          have hxone := hcloser x hx.1.1 hless
          have hyone := hone y hy.1
          have := hfirst.2 y hy
          omega
      simp only [near]
      constructor
      · rintro hagree (⟨x, y, hx, hy, hne, hless, hall⟩ | ⟨x, y, hx, hall, -⟩)
        · have hlead := (hagree (number x)).mpr fun z hz => hall z hz.1 hz.2
          exact hne (hlead y hy)
        · exact (hall c hc).2 hcless
      · intro hnot n
        constructor
        · intro hall x hx
          exact hall x hx.1
        · intro hall y hy
          by_contra hne
          refine hnot (.inl ⟨c, y, hc, hy, ?_, hcless, fun z hz hless => ?_⟩)
          · rw [hall c ⟨hc, hcless⟩]
            exact hne
          · rw [hall z ⟨hz, hless⟩, hall c ⟨hc, hcless⟩]
    · -- the nearest by `d'` are those by `d`, and what is taken closer from one behind
      have hnot : ∀ x, Nearest cmp d items x → ¬ closer x := fun x hx h => hany ⟨x, hx, h⟩
      have hmin : ∀ y, Best cmp items y → d first ≤ d' y := by
        intro y hy
        have hfar := hfirst.2 y hy
        by_cases hnear : d y = d first
        · have hynear : Nearest cmp d items y := ⟨hy, fun z hz => hnear ▸ hfirst.2 z hz⟩
          have := hsame y hy.1 (hnot y hynear)
          omega
        · have := hone y hy.1
          omega
      have near : ∀ x, Nearest cmp d' items x ↔
          Nearest cmp d items x ∨ Best cmp items x ∧ d x = d first + 1 ∧ closer x := by
        intro x
        have hfsame := hsame first hfirst.1.1 (hnot first hfirst)
        constructor
        · intro hx
          have hxf := hx.2 first hfirst.1
          have hxmin := hmin x hx.1
          by_cases hless : closer x
          · have hxone := hcloser x hx.1.1 hless
            exact .inr ⟨hx.1, by omega, hless⟩
          · have hxsame := hsame x hx.1.1 hless
            refine .inl ⟨hx.1, fun z hz => ?_⟩
            have := hfirst.2 z hz
            omega
        · rintro (hx | ⟨hx, hbehind, hless⟩)
          · refine ⟨hx.1, fun y hy => ?_⟩
            rw [← hsame x hx.1.1 (hnot x hx), level x hx]
            exact hmin y hy
          · refine ⟨hx, fun y hy => ?_⟩
            have hxone := hcloser x hx.1 hless
            have := hmin y hy
            omega
      simp only [near]
      constructor
      · rintro hagree (⟨x, -, hx, -, -, hless, -⟩ | ⟨x, y, hx, hall, hy, hne, hbehind, hless⟩)
        · exact hnot x hx hless
        · have hlead := (hagree (number x)).mp fun z hz => (hall z hz).1
          exact hne (hlead y (.inr ⟨hy, by rw [hbehind, level x hx], hless⟩))
      · intro hdecides n
        constructor
        · rintro hall y (hy | ⟨hy, hbehind, hless⟩)
          · exact hall y hy
          · by_contra hne
            refine hdecides (.inr
              ⟨first, y, hfirst, fun z hz => ⟨?_, hnot z hz⟩, hy, ?_, hbehind, hless⟩)
            · rw [hall z hz, hall first hfirst]
            · rw [hall first hfirst]
              exact hne
        · intro hall x hx
          exact hall x (.inl hx)
  · have hempty : ∀ (e : α → Nat) x, ¬ Nearest cmp e items x := fun e x hx =>
      hnone (exists_nearest d items hx.1.1)
    constructor
    · rintro - (⟨x, -, hx, -⟩ | ⟨x, -, hx, -⟩)
      · exact hempty d x hx
      · exact hempty d x hx
    · intro _ n
      constructor
      · rintro ⟨⟨x, hx⟩, -⟩
        exact absurd hx (hempty d x)
      · rintro ⟨⟨x, hx⟩, -⟩
        exact absurd hx (hempty d' x)

end

end Zulangue.Lib.Ranking
