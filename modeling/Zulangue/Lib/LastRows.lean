import Mathlib.Data.List.DropRight
import Mathlib.Data.List.Sort
import Zulangue.Lib.KeyMap

/-!
# The last rows of an ordered list

Lists that ascend strictly in a key, and their last `n` rows: an element is among them when less than
`n` others are above it, so a part of the list that holds them has the same last rows.
-/

namespace Zulangue.Lib.LastRows

variable {α κ : Type*} [LinearOrder κ] {key : α → κ} {items others : List α} {x : α} {n : Nat}

def Ascending (key : α → κ) (items : List α) : Prop := items.Pairwise fun a b => key a < key b

def sortOn (key : α → κ) (items : List α) : List α := items.mergeSort fun a b => decide (key a ≤ key b)

/-- The elements above `x`. -/
def above (key : α → κ) (x : α) (items : List α) : List α := items.filter fun y => decide (key x < key y)

theorem mem_above {y : α} : y ∈ above key x items ↔ y ∈ items ∧ key x < key y := by
  simp [above]

theorem mem_sortOn : x ∈ sortOn key items ↔ x ∈ items := List.mem_mergeSort

/-- Elements of different keys are sorted strictly. -/
theorem ascending_sortOn (h : (items.map key).Nodup) : Ascending key (sortOn key items) := by
  have hsorted : (sortOn key items).Pairwise fun a b => decide (key a ≤ key b) = true := by
    apply List.pairwise_mergeSort
    · intro a b c hab hbc
      simp only [decide_eq_true_eq] at hab hbc ⊢
      exact hab.trans hbc
    · intro a b
      simpa using le_total (key a) (key b)
  have hdistinct : (sortOn key items).Pairwise fun a b => key a ≠ key b := by
    have hperm := (List.mergeSort_perm items fun a b => decide (key a ≤ key b)).map key
    exact List.pairwise_map.mp (hperm.nodup_iff.mpr h)
  refine hsorted.imp₂ (fun a b hle hne => ?_) hdistinct
  exact lt_of_le_of_ne (of_decide_eq_true hle) hne

theorem Ascending.nodup_keys (h : Ascending key items) : (items.map key).Nodup := by
  exact List.pairwise_map.mpr (h.imp ne_of_lt)

theorem Ascending.nodup (h : Ascending key items) : items.Nodup := List.Nodup.of_map key h.nodup_keys

theorem Ascending.inj (h : Ascending key items) {y : α} (hx : x ∈ items) (hy : y ∈ items) (hkey : key x = key y) :
    x = y := List.inj_on_of_nodup_map h.nodup_keys hx hy hkey

/-- Ascending lists of the same elements are equal. -/
theorem Ascending.ext (h : Ascending key items) (h' : Ascending key others) (hmem : ∀ y, y ∈ items ↔ y ∈ others) :
    items = others := by
  have hperm : items.Perm others := (List.perm_ext_iff_of_nodup h.nodup h'.nodup).mpr hmem
  apply hperm.eq_of_pairwise _ h h'
  intro a b _ _ hab hba
  exact absurd hba (lt_asymm hab)

theorem Ascending.filter (h : Ascending key items) (p : α → Bool) : Ascending key (items.filter p) :=
  List.Pairwise.filter p h

theorem take_filter_of_all {p : α → Bool} (h : ∀ y ∈ items.take n, p y = true) :
    (items.filter p).take n = items.take n := by
  induction items generalizing n with
  | nil => rfl
  | cons y rest ih =>
    cases n with
    | zero => rfl
    | succ n =>
      have hy : p y = true := by
        apply h
        simp
      rw [List.filter_cons_of_pos hy, List.take_succ_cons, List.take_succ_cons, ih]
      intro z hz
      apply h
      simp [hz]

/-- A part of the list that holds its last rows has the same last rows. -/
theorem Ascending.rtake_eq (h : Ascending key items) (h' : Ascending key others) (hpart : others ⊆ items)
    (hlast : items.rtake n ⊆ others) : others.rtake n = items.rtake n := by
  classical
  have hothers : others = items.filter fun y => decide (y ∈ others) := by
    apply h'.ext (h.filter _)
    intro y
    rw [List.mem_filter, decide_eq_true_eq]
    exact ⟨fun hy => ⟨hpart hy, hy⟩, fun hy => hy.2⟩
  rw [hothers, List.rtake_eq_reverse_take_reverse, List.rtake_eq_reverse_take_reverse, ← List.filter_reverse,
    take_filter_of_all]
  intro y hy
  apply decide_eq_true
  apply hlast
  rw [List.rtake_eq_reverse_take_reverse]
  exact List.mem_reverse.mpr hy

theorem Ascending.rtake (h : Ascending key items) (n : Nat) : Ascending key (items.rtake n) :=
  h.sublist (List.drop_sublist _ _)

theorem mem_of_mem_rtake (h : x ∈ items.rtake n) : x ∈ items := List.mem_of_mem_drop h

theorem rtake_of_length_le (h : items.length ≤ n) : items.rtake n = items := by
  rw [List.rtake, Nat.sub_eq_zero_of_le h, List.drop_zero]

theorem length_rtake : (items.rtake n).length = min n items.length := by
  rw [List.rtake, List.length_drop]
  omega

/-- The last rows can be kept while the list grows. -/
theorem rtake_snoc (items : List α) (x : α) (n : Nat) : (items.rtake n ++ [x]).rtake n = (items ++ [x]).rtake n := by
  cases n with
  | zero => simp
  | succ n => simp [List.rtake_eq_reverse_take_reverse, List.take_take]

/-- An element is among the last `n` when less than `n` are above it. -/
theorem Ascending.mem_rtake (h : Ascending key items) (hx : x ∈ items) :
    x ∈ items.rtake n ↔ (above key x items).length < n := by
  obtain ⟨front, back, rfl⟩ := List.append_of_mem hx
  obtain ⟨hfront, hback, hsplit⟩ := List.pairwise_append.mp h
  obtain ⟨hafter, -⟩ := List.pairwise_cons.mp hback
  have habove : above key x (front ++ x :: back) = back := by
    have hnone : front.filter (fun y => decide (key x < key y)) = [] := by
      apply List.filter_eq_nil_iff.mpr
      intro y hy hlt
      exact lt_asymm (hsplit y hy x List.mem_cons_self) (of_decide_eq_true hlt)
    have hall : back.filter (fun y => decide (key x < key y)) = back := by
      apply List.filter_eq_self.mpr
      intro y hy
      exact decide_eq_true (hafter y hy)
    rw [above, List.filter_append, hnone, List.nil_append, List.filter_cons_of_neg (by simp), hall]
  have hnot : x ∉ back := fun hmem => lt_irrefl _ (hafter x hmem)
  rw [habove, List.rtake]
  constructor
  · intro hmem
    by_contra hge
    have hdrop : front.length + 1 ≤ (front ++ x :: back).length - n := by
      rw [List.length_append, List.length_cons]
      omega
    apply hnot
    rw [← Nat.add_sub_cancel' hdrop, ← List.drop_drop] at hmem
    have hlist : (front ++ x :: back).drop (front.length + 1) = back := by simp
    rw [hlist] at hmem
    exact List.mem_of_mem_drop hmem
  · intro hlt
    have hdrop : (front ++ x :: back).length - n ≤ front.length := by
      rw [List.length_append, List.length_cons]
      omega
    rw [List.drop_append_of_le_length hdrop]
    simp

/-- What is above in one list is above in another that has its keys. -/
theorem Ascending.length_above_le (h : Ascending key items) (others : List α)
    (hkeys : ∀ y ∈ items, key y ∈ others.map key) (x : α) :
    (above key x items).length ≤ (above key x others).length := by
  have hnodup : ((above key x items).map key).Nodup := (h.filter _).nodup_keys
  have hsubset : (above key x items).map key ⊆ (above key x others).map key := by
    intro k hk
    obtain ⟨y, hy, rfl⟩ := List.mem_map.mp hk
    obtain ⟨hy, hlt⟩ := mem_above.mp hy
    obtain ⟨z, hz, hkey⟩ := List.mem_map.mp (hkeys y hy)
    rw [← hkey] at hlt ⊢
    exact List.mem_map_of_mem (mem_above.mpr ⟨hz, hlt⟩)
  simpa using (List.subperm_of_subset hnodup hsubset).length_le

/-- Elements of a list that hold its last ones in the order have the same last ones. -/
theorem rtake_sortOn_of_subset (hitems : (items.map key).Nodup) (hothers : (others.map key).Nodup)
    (hpart : others ⊆ items) (hlast : (sortOn key items).rtake n ⊆ others) :
    (sortOn key others).rtake n = (sortOn key items).rtake n := by
  apply (ascending_sortOn hitems).rtake_eq (ascending_sortOn hothers)
  · intro y hy
    exact mem_sortOn.mpr (hpart (mem_sortOn.mp hy))
  · intro y hy
    exact mem_sortOn.mpr (hlast hy)

theorem sortOn_of_ascending (h : Ascending key items) : sortOn key items = items :=
  (ascending_sortOn h.nodup_keys).ext h fun _ => mem_sortOn

/-- The last ones can be kept while the list grows. -/
theorem rtake_sortOn_snoc (h : ((items ++ [x]).map key).Nodup) :
    (sortOn key ((sortOn key items).rtake n ++ [x])).rtake n = (sortOn key (items ++ [x])).rtake n := by
  have hitems : (items.map key).Nodup := by
    rw [List.map_append] at h
    exact h.of_append_left
  have hsorted := ascending_sortOn hitems
  have hkept : (sortOn key items).rtake n ++ [x] ⊆ items ++ [x] := by
    intro y hy
    rcases List.mem_append.mp hy with hy | hy
    · exact List.mem_append_left _ (mem_sortOn.mp (mem_of_mem_rtake hy))
    · exact List.mem_append_right _ hy
  apply rtake_sortOn_of_subset h _ hkept
  · intro y hy
    obtain hy' | hy' := List.mem_append.mp (mem_sortOn.mp (mem_of_mem_rtake hy))
    · have habove := ((ascending_sortOn h).mem_rtake (mem_of_mem_rtake hy)).mp hy
      have hless := hsorted.length_above_le (sortOn key (items ++ [x])) (fun z hz =>
        List.mem_map_of_mem (mem_sortOn.mpr (List.mem_append_left _ (mem_sortOn.mp hz)))) y
      exact List.mem_append_left _ ((hsorted.mem_rtake (mem_sortOn.mpr hy')).mpr (by omega))
    · exact List.mem_append_right _ hy'
  · rw [List.map_append, List.nodup_append] at h ⊢
    refine ⟨(hsorted.rtake n).nodup_keys, h.2.1, ?_⟩
    intro a ha b hb
    obtain ⟨y, hy, rfl⟩ := List.mem_map.mp ha
    exact h.2.2 _ (List.mem_map_of_mem (mem_sortOn.mp (mem_of_mem_rtake hy))) b hb

end Zulangue.Lib.LastRows

/-! # The newest row of each key

A list that ascends strictly in a key, into which a row goes unless the list has one of its key in a
later version. -/

namespace Zulangue.Lib.NewestRows

open LastRows KeyMap

variable {α κ : Type*} [LinearOrder κ] {key : α → κ} {version : α → Nat} {items : List α} {item x : α}

section
variable (key : α → κ) (version : α → Nat)

def upsert (item : α) : List α → List α
  | [] => [item]
  | first :: rest =>
    if key first < key item then first :: upsert item rest
    else if key first = key item then
      if version first ≤ version item then item :: rest else first :: rest
    else item :: first :: rest

/-- The same on the entries of a map. -/
def keepNewest (latest : List (κ × α)) (item : α) : List (κ × α) :=
  match get (key item) latest with
  | some current => if version item < version current then latest else KeyMap.insert (key item) item latest
  | none => KeyMap.insert (key item) item latest

end

/-- A row leaves only for a version that is not older, and comes in unless it is older. -/
theorem mem_upsert (h : Ascending key items) :
    x ∈ upsert key version item items ↔
      (x ∈ items ∧ (key x = key item → version item < version x)) ∨
        (x = item ∧ ∀ y ∈ items, key y = key item → version y ≤ version item) := by
  induction items with
  | nil => simp [upsert]
  | cons first rest ih =>
    obtain ⟨hhead, htail⟩ := List.pairwise_cons.mp h
    rw [upsert]
    rcases lt_trichotomy (key first) (key item) with hlt | heq | hgt
    · have hne : key first ≠ key item := hlt.ne
      rw [if_pos hlt, List.mem_cons, ih htail, List.forall_mem_cons]
      constructor
      · rintro (rfl | ⟨hx, hversion⟩ | ⟨rfl, hrest⟩)
        · exact .inl ⟨List.mem_cons_self, fun hkey => absurd hkey hne⟩
        · exact .inl ⟨List.mem_cons_of_mem _ hx, hversion⟩
        · exact .inr ⟨rfl, fun hkey => absurd hkey hne, hrest⟩
      · rintro (⟨hx, hversion⟩ | ⟨rfl, -, hrest⟩)
        · rcases List.mem_cons.mp hx with rfl | hx
          · exact .inl rfl
          · exact .inr (.inl ⟨hx, hversion⟩)
        · exact .inr (.inr ⟨rfl, hrest⟩)
    · have hrest : ∀ y ∈ rest, key y ≠ key item := fun y hy => (heq ▸ hhead y hy).ne'
      rw [if_neg heq.not_lt, if_pos heq, List.forall_mem_cons]
      split
      next hle =>
        rw [List.mem_cons]
        constructor
        · rintro (rfl | hx)
          · exact .inr ⟨rfl, fun _ => hle, fun y hy hkey => absurd hkey (hrest y hy)⟩
          · exact .inl ⟨List.mem_cons_of_mem _ hx, fun hkey => absurd hkey (hrest x hx)⟩
        · rintro (⟨hx, hversion⟩ | ⟨rfl, -⟩)
          · rcases List.mem_cons.mp hx with rfl | hx
            · exact absurd (hversion heq) hle.not_gt
            · exact .inr hx
          · exact .inl rfl
      next hle =>
        rw [List.mem_cons]
        constructor
        · rintro (rfl | hx)
          · exact .inl ⟨.inl rfl, fun _ => not_le.mp hle⟩
          · exact .inl ⟨.inr hx, fun hkey => absurd hkey (hrest x hx)⟩
        · rintro (⟨hx, -⟩ | ⟨-, hversion, -⟩)
          · exact hx
          · exact absurd (hversion heq) hle
    · have hall : ∀ y ∈ first :: rest, key y ≠ key item := by
        rw [List.forall_mem_cons]
        exact ⟨hgt.ne', fun y hy => (hgt.trans (hhead y hy)).ne'⟩
      rw [if_neg hgt.not_gt, if_neg hgt.ne', List.mem_cons]
      constructor
      · rintro (rfl | hx)
        · exact .inr ⟨rfl, fun y hy hkey => absurd hkey (hall y hy)⟩
        · exact .inl ⟨hx, fun hkey => absurd hkey (hall x hx)⟩
      · rintro (⟨hx, -⟩ | ⟨rfl, -⟩)
        · exact .inr hx
        · exact .inl rfl

theorem ascending_upsert (h : Ascending key items) (item : α) : Ascending key (upsert key version item items) := by
  induction items with
  | nil => exact List.pairwise_singleton _ _
  | cons first rest ih =>
    obtain ⟨hhead, htail⟩ := List.pairwise_cons.mp h
    rw [upsert]
    rcases lt_trichotomy (key first) (key item) with hlt | heq | hgt
    · rw [if_pos hlt]
      apply List.pairwise_cons.mpr ⟨_, ih htail⟩
      intro x hx
      rcases (mem_upsert htail).mp hx with ⟨hx, -⟩ | ⟨rfl, -⟩
      · exact hhead x hx
      · exact hlt
    · rw [if_neg heq.not_lt, if_pos heq]
      split
      · exact List.pairwise_cons.mpr ⟨fun x hx => heq ▸ hhead x hx, htail⟩
      · exact h
    · rw [if_neg hgt.not_gt, if_neg hgt.ne']
      apply List.pairwise_cons.mpr ⟨_, h⟩
      rw [List.forall_mem_cons]
      exact ⟨hgt, fun x hx => hgt.trans (hhead x hx)⟩

/-- The entries of a map are those of the list. -/
theorem map_keepNewest {latest : List (κ × α)} (hsorted : Sorted latest) (hkeys : ∀ entry ∈ latest, entry.1 = key entry.2)
    (item : α) :
    (keepNewest key version latest item).map Prod.snd = upsert key version item (latest.map Prod.snd) := by
  induction latest with
  | nil => rfl
  | cons entry latest ih =>
    obtain ⟨k, first⟩ := entry
    obtain ⟨hkey, hrest⟩ := List.forall_mem_cons.mp hkeys
    obtain rfl : k = key first := hkey
    have ih := ih hsorted.tail hrest
    rw [keepNewest, get_cons, List.map_cons, upsert]
    dsimp only
    rcases lt_trichotomy (key first) (key item) with hlt | heq | hgt
    · rw [if_neg hlt.ne', if_pos hlt, ← ih, keepNewest]
      have hinsert : KeyMap.insert (key item) item ((key first, first) :: latest) =
          (key first, first) :: KeyMap.insert (key item) item latest := by
        rw [KeyMap.insert, if_neg hlt.ne', if_neg hlt.not_gt]
      rw [hinsert]
      cases get (key item) latest with
      | none => rfl
      | some current =>
        dsimp only
        split <;> rfl
    · rw [if_pos heq.symm, if_neg heq.not_lt, if_pos heq]
      dsimp only
      rw [KeyMap.insert, if_pos heq.symm]
      rcases lt_or_ge (version item) (version first) with hold | hnew
      · rw [if_pos hold, if_neg (not_le.mpr hold)]
        rfl
      · rw [if_neg (not_lt.mpr hnew), if_pos hnew]
        rfl
    · have hnone : get (key item) latest = none := by
        apply get_eq_none_of_forall_ne
        intro entry hentry
        exact (hgt.trans (hsorted.head_lt entry hentry)).ne'
      rw [if_neg hgt.ne, hnone, if_neg hgt.not_gt, if_neg hgt.ne', KeyMap.insert, if_neg hgt.ne, if_pos hgt]
      rfl

theorem sorted_keepNewest {latest : List (κ × α)} (hsorted : Sorted latest) (item : α) :
    Sorted (keepNewest key version latest item) := by
  unfold keepNewest
  split
  · split
    · exact hsorted
    · exact sorted_insert hsorted _ _
  · exact sorted_insert hsorted _ _

theorem keys_keepNewest {latest : List (κ × α)} (hkeys : ∀ entry ∈ latest, entry.1 = key entry.2) (item : α) :
    ∀ entry ∈ keepNewest key version latest item, entry.1 = key entry.2 := by
  have hinsert : ∀ entry ∈ KeyMap.insert (key item) item latest, entry.1 = key entry.2 := by
    intro entry hentry
    rcases mem_insert hentry with rfl | hentry
    · rfl
    · exact hkeys entry hentry
  unfold keepNewest
  split
  · split
    · exact hkeys
    · exact hinsert
  · exact hinsert

/-- Collecting rows in a map and in a list comes to the same. -/
theorem map_foldl_keepNewest (more : List α) {latest : List (κ × α)} (hsorted : Sorted latest)
    (hkeys : ∀ entry ∈ latest, entry.1 = key entry.2) :
    (more.foldl (keepNewest key version) latest).map Prod.snd =
      more.foldl (fun items item => upsert key version item items) (latest.map Prod.snd) := by
  induction more generalizing latest with
  | nil => rfl
  | cons item more ih =>
    rw [List.foldl_cons, List.foldl_cons, ih (sorted_keepNewest hsorted item) (keys_keepNewest hkeys item),
      map_keepNewest hsorted hkeys]

end Zulangue.Lib.NewestRows
