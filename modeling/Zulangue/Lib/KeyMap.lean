import Mathlib.Data.List.Perm.Subperm
import Mathlib.Order.Lattice

/-!
# Ordered maps as association lists

The entries of a `BTreeMap`, ascending by key. Operations are defined on any list;
`Sorted` is what they keep, and sorted maps are equal when they answer every `get` alike.
-/

namespace Zulangue.Lib.KeyMap

variable {κ α β : Type*} [LinearOrder κ]

def get (k : κ) : List (κ × α) → Option α
  | [] => none
  | (j, v) :: rest => if k = j then some v else get k rest

/-- Replaces the value of a present key, or inserts at the key's place. -/
def insert (k : κ) (v : α) : List (κ × α) → List (κ × α)
  | [] => [(k, v)]
  | (j, w) :: rest =>
    if k = j then (k, v) :: rest
    else if k < j then (k, v) :: (j, w) :: rest
    else (j, w) :: insert k v rest

def erase (k : κ) : List (κ × α) → List (κ × α)
  | [] => []
  | (j, w) :: rest => if k = j then rest else (j, w) :: erase k rest

/-- Collects entries; the last value of a key stays. -/
def ofList (entries : List (κ × α)) : List (κ × α) :=
  entries.foldl (fun m entry => insert entry.1 entry.2 m) []

/-- The same keys with other values. -/
def mapValues (f : α → β) (m : List (κ × α)) : List (κ × β) := m.map fun entry => (entry.1, f entry.2)

def Sorted (m : List (κ × α)) : Prop := m.Pairwise fun a b => a.1 < b.1

@[simp] theorem get_nil (k : κ) : get k ([] : List (κ × α)) = none := rfl

theorem get_cons (k j : κ) (v : α) (m : List (κ × α)) :
    get k ((j, v) :: m) = if k = j then some v else get k m := rfl

omit [LinearOrder κ] in
@[simp] theorem mapValues_nil (f : α → β) : mapValues f ([] : List (κ × α)) = [] := rfl

omit [LinearOrder κ] in
@[simp] theorem mapValues_cons (f : α → β) (entry : κ × α) (m : List (κ × α)) :
    mapValues f (entry :: m) = (entry.1, f entry.2) :: mapValues f m := rfl

theorem get_insert (k j : κ) (v : α) (m : List (κ × α)) :
    get k (insert j v m) = if k = j then some v else get k m := by
  induction m with
  | nil => simp [insert, get]
  | cons entry rest ih =>
    obtain ⟨i, w⟩ := entry
    by_cases hji : j = i
    · subst hji
      by_cases hkj : k = j <;> simp [insert, get, hkj]
    · by_cases hlt : j < i
      · simp [insert, get, hji, hlt]
      · by_cases hki : k = i
        · subst hki
          simp [insert, get, hji, hlt, Ne.symm hji]
        · simp [insert, get, hji, hlt, hki, ih]

@[simp] theorem get_insert_self (k : κ) (v : α) (m : List (κ × α)) :
    get k (insert k v m) = some v := by simp [get_insert]

theorem get_insert_of_ne {k j : κ} (h : k ≠ j) (v : α) (m : List (κ × α)) :
    get k (insert j v m) = get k m := by simp [get_insert, h]

theorem get_mapValues (f : α → β) (k : κ) (m : List (κ × α)) :
    get k (mapValues f m) = (get k m).map f := by
  induction m with
  | nil => rfl
  | cons entry rest ih =>
    obtain ⟨j, w⟩ := entry
    by_cases hkj : k = j <;> simp [get, hkj, ih]

/-- Mapping the values goes through an insertion. -/
theorem mapValues_insert (f : α → β) (k : κ) (v : α) (m : List (κ × α)) :
    mapValues f (insert k v m) = insert k (f v) (mapValues f m) := by
  induction m with
  | nil => rfl
  | cons entry rest ih =>
    obtain ⟨j, w⟩ := entry
    by_cases hkj : k = j
    · simp [insert, hkj]
    · by_cases hlt : k < j <;> simp [insert, hkj, hlt, ih]

theorem mem_of_get {k : κ} {v : α} {m : List (κ × α)} (h : get k m = some v) : (k, v) ∈ m := by
  induction m with
  | nil => cases h
  | cons entry rest ih =>
    obtain ⟨j, w⟩ := entry
    by_cases hkj : k = j
    · subst hkj
      obtain rfl : w = v := by simpa [get] using h
      exact List.mem_cons_self
    · exact List.mem_cons_of_mem _ (ih (by simpa [get, hkj] using h))

theorem get_eq_none_of_forall_ne {k : κ} {m : List (κ × α)} (h : ∀ entry ∈ m, entry.1 ≠ k) :
    get k m = none := by
  induction m with
  | nil => rfl
  | cons entry rest ih =>
    obtain ⟨j, w⟩ := entry
    have hne : k ≠ j := fun e => h (j, w) List.mem_cons_self e.symm
    simp only [get, hne, if_false]
    exact ih fun e he => h e (List.mem_cons_of_mem _ he)

theorem Sorted.tail {entry : κ × α} {m : List (κ × α)} (h : Sorted (entry :: m)) : Sorted m :=
  (List.pairwise_cons.mp h).2

theorem Sorted.head_lt {entry : κ × α} {m : List (κ × α)} (h : Sorted (entry :: m)) :
    ∀ e ∈ m, entry.1 < e.1 :=
  (List.pairwise_cons.mp h).1

theorem Sorted.get_head {k : κ} {v : α} {m : List (κ × α)} (h : Sorted ((k, v) :: m)) :
    get k m = none :=
  get_eq_none_of_forall_ne fun e he heq => absurd (h.head_lt e he) (by simp [heq])

theorem Sorted.get_of_mem {k : κ} {v : α} {m : List (κ × α)} (h : Sorted m) (hmem : (k, v) ∈ m) :
    get k m = some v := by
  induction m with
  | nil => cases hmem
  | cons entry rest ih =>
    rcases List.mem_cons.mp hmem with rfl | hrest
    · simp [get]
    · obtain ⟨j, w⟩ := entry
      have hlt : j < k := h.head_lt (k, v) hrest
      have hne : k ≠ j := ne_of_gt hlt
      simp only [get, hne, if_false]
      exact ih h.tail hrest

theorem sorted_nil : Sorted ([] : List (κ × α)) := List.Pairwise.nil

theorem mem_insert {k : κ} {v : α} {m : List (κ × α)} {e : κ × α} (h : e ∈ insert k v m) :
    e = (k, v) ∨ e ∈ m := by
  induction m with
  | nil => exact .inl (List.mem_singleton.mp h)
  | cons entry rest ih =>
    obtain ⟨j, w⟩ := entry
    by_cases hkj : k = j
    · simp only [insert, if_pos hkj, List.mem_cons] at h ⊢
      tauto
    · by_cases hlt : k < j
      · simp only [insert, if_neg hkj, if_pos hlt, List.mem_cons] at h ⊢
        tauto
      · simp only [insert, if_neg hkj, if_neg hlt, List.mem_cons] at h ⊢
        rcases h with rfl | hrest
        · exact .inr (.inl rfl)
        · rcases ih hrest with rfl | hold
          · exact .inl rfl
          · exact .inr (.inr hold)

theorem sorted_insert {m : List (κ × α)} (h : Sorted m) (k : κ) (v : α) :
    Sorted (insert k v m) := by
  induction m with
  | nil => exact List.pairwise_singleton _ _
  | cons entry rest ih =>
    obtain ⟨j, w⟩ := entry
    by_cases hkj : k = j
    · subst hkj
      simp only [insert, if_true]
      exact List.pairwise_cons.mpr ⟨h.head_lt, h.tail⟩
    · by_cases hlt : k < j
      · simp only [insert, if_neg hkj, if_pos hlt]
        refine List.pairwise_cons.mpr ⟨fun e he => ?_, h⟩
        rcases List.mem_cons.mp he with rfl | hrest
        · exact hlt
        · exact lt_trans hlt (h.head_lt e hrest)
      · have hgt : j < k := lt_of_le_of_ne (not_lt.mp hlt) (Ne.symm hkj)
        simp only [insert, if_neg hkj, if_neg hlt]
        refine List.pairwise_cons.mpr ⟨fun e he => ?_, ih h.tail⟩
        rcases mem_insert he with rfl | hold
        · exact hgt
        · exact h.head_lt e hold

theorem sorted_foldl_insert (entries : List (κ × α)) {m : List (κ × α)} (h : Sorted m) :
    Sorted (entries.foldl (fun m entry => insert entry.1 entry.2 m) m) := by
  induction entries generalizing m with
  | nil => exact h
  | cons entry entries ih => exact ih (sorted_insert h entry.1 entry.2)

theorem sorted_ofList (entries : List (κ × α)) : Sorted (ofList entries) :=
  sorted_foldl_insert entries sorted_nil

theorem mem_foldl_insert {entries m : List (κ × α)} {e : κ × α}
    (h : e ∈ entries.foldl (fun m entry => insert entry.1 entry.2 m) m) :
    e ∈ entries ∨ e ∈ m := by
  induction entries generalizing m with
  | nil => exact .inr h
  | cons entry entries ih =>
    rcases ih h with hlater | hm
    · exact .inl (List.mem_cons_of_mem _ hlater)
    · rcases mem_insert hm with rfl | hold
      · exact .inl List.mem_cons_self
      · exact .inr hold

theorem mem_of_mem_ofList {entries : List (κ × α)} {e : κ × α} (h : e ∈ ofList entries) :
    e ∈ entries :=
  (mem_foldl_insert h).resolve_right List.not_mem_nil

/-- A key above all others goes to the end. -/
theorem insert_of_forall_lt {m : List (κ × α)} {k : κ} (v : α) (h : ∀ e ∈ m, e.1 < k) :
    insert k v m = m ++ [(k, v)] := by
  induction m with
  | nil => rfl
  | cons entry rest ih =>
    obtain ⟨j, w⟩ := entry
    have hlt : j < k := h (j, w) List.mem_cons_self
    simp [insert, ne_of_gt hlt, lt_asymm hlt, ih fun e he => h e (List.mem_cons_of_mem _ he)]

theorem foldl_insert_of_sorted {entries m : List (κ × α)} (h : Sorted (m ++ entries)) :
    entries.foldl (fun m entry => insert entry.1 entry.2 m) m = m ++ entries := by
  induction entries generalizing m with
  | nil => simp
  | cons entry entries ih =>
    have hlt : ∀ e ∈ m, e.1 < entry.1 := fun e he =>
      (List.pairwise_append.mp h).2.2 e he entry List.mem_cons_self
    rw [List.foldl_cons, insert_of_forall_lt entry.2 hlt, ih (by simpa using h)]
    simp

/-- Collecting a sorted map changes nothing. -/
theorem ofList_of_sorted {m : List (κ × α)} (h : Sorted m) : ofList m = m :=
  foldl_insert_of_sorted (m := []) h

theorem sorted_mapValues {m : List (κ × α)} (h : Sorted m) (f : α → β) :
    Sorted (mapValues f m) :=
  List.pairwise_map.mpr h

/-- A sorted map is its `get`. -/
theorem Sorted.ext {m m' : List (κ × α)} (h : Sorted m) (h' : Sorted m')
    (hget : ∀ k, get k m = get k m') : m = m' := by
  induction m generalizing m' with
  | nil =>
    cases m' with
    | nil => rfl
    | cons entry rest =>
      have := hget entry.1
      simp [get] at this
  | cons entry rest ih =>
    obtain ⟨k, v⟩ := entry
    cases m' with
    | nil =>
      have := hget k
      simp [get] at this
    | cons entry' rest' =>
      obtain ⟨k', v'⟩ := entry'
      have hmem : (k, v) ∈ (k', v') :: rest' := mem_of_get ((hget k).symm.trans (by simp [get]))
      have hmem' : (k', v') ∈ (k, v) :: rest := mem_of_get ((hget k').trans (by simp [get]))
      -- Each head is the least key of both lists, so the heads agree.
      have hkey : k = k' := by
        rcases List.mem_cons.mp hmem with heq | hrest'
        · exact congrArg Prod.fst heq
        · rcases List.mem_cons.mp hmem' with heq | hrest
          · exact (congrArg Prod.fst heq).symm
          · exact absurd (h.head_lt _ hrest) (lt_asymm (h'.head_lt _ hrest'))
      subst hkey
      obtain rfl : v = v' := by simpa [get] using hget k
      refine congrArg _ (ih h.tail h'.tail fun j => ?_)
      by_cases hjk : j = k
      · rw [hjk, h.get_head, h'.get_head]
      · simpa [get, hjk] using hget j

theorem Sorted.nodup {m : List (κ × α)} (h : Sorted m) : m.Nodup :=
  h.imp fun hlt heq => absurd hlt (by simp [heq])

/-- A sorted map that holds every entry of another one of its length is that map. -/
theorem Sorted.eq_of_subset {m m' : List (κ × α)} (h : Sorted m) (h' : Sorted m')
    (hlen : m.length = m'.length) (hsub : ∀ e ∈ m, e ∈ m') : m = m' := by
  have hperm : m.Perm m' :=
    (List.subperm_of_subset h.nodup hsub).perm_of_length_le (Nat.le_of_eq hlen.symm)
  exact hperm.eq_of_pairwise (fun a b _ _ hab hba => absurd hba (lt_asymm hab)) h h'

/-! ## Keys -/

theorem mem_keys_iff {k : κ} {m : List (κ × α)} : k ∈ m.map Prod.fst ↔ ∃ v, get k m = some v := by
  induction m with
  | nil => simp
  | cons entry rest ih =>
    obtain ⟨j, v⟩ := entry
    by_cases hkj : k = j
    · simp [get, hkj]
    · rw [List.map_cons, List.mem_cons, or_iff_right hkj, ih, get_cons, if_neg hkj]

theorem Sorted.keys_nodup {m : List (κ × α)} (h : Sorted m) : (m.map Prod.fst).Nodup :=
  List.pairwise_map.mpr (h.imp fun hlt => ne_of_lt hlt)

/-- Without repeated keys, every entry is what its key has. -/
theorem get_of_mem_of_nodup {m : List (κ × α)} (h : (m.map Prod.fst).Nodup) {entry : κ × α} (hmem : entry ∈ m) :
    get entry.1 m = some entry.2 := by
  induction m with
  | nil => cases hmem
  | cons first rest ih =>
    obtain ⟨hnew, hrest⟩ := List.nodup_cons.mp h
    rcases List.mem_cons.mp hmem with rfl | hlater
    · exact (get_cons _ _ _ _).trans (if_pos rfl)
    · have hkey : entry.1 ∈ rest.map Prod.fst := List.mem_map_of_mem hlater
      have hne : entry.1 ≠ first.1 := by
        intro heq
        rw [heq] at hkey
        exact hnew hkey
      exact ((get_cons _ _ _ _).trans (if_neg hne)).trans (ih hrest hlater)

/-! ## Erasing -/

theorem get_erase {m : List (κ × α)} (h : Sorted m) (k j : κ) :
    get k (erase j m) = if k = j then none else get k m := by
  induction m with
  | nil => simp [erase]
  | cons entry rest ih =>
    obtain ⟨i, w⟩ := entry
    by_cases hji : j = i
    · subst hji
      by_cases hkj : k = j
      · subst hkj
        simp [erase, h.get_head]
      · simp [erase, get, hkj]
    · by_cases hki : k = i
      · subst hki
        simp [erase, get, hji, Ne.symm hji]
      · simp [erase, get, hji, hki, ih h.tail]

theorem erase_sublist (k : κ) (m : List (κ × α)) : (erase k m).Sublist m := by
  induction m with
  | nil => exact List.Sublist.refl _
  | cons entry rest ih =>
    obtain ⟨j, w⟩ := entry
    by_cases hkj : k = j
    · simp only [erase, if_pos hkj]
      exact List.sublist_cons_self _ _
    · simp only [erase, if_neg hkj]
      exact ih.cons_cons _

theorem sorted_erase {m : List (κ × α)} (h : Sorted m) (k : κ) : Sorted (erase k m) :=
  h.sublist (erase_sublist k m)

/-! ## Many writes -/

/-- Puts a value at the key, or takes the key out. -/
def set (k : κ) : Option α → List (κ × α) → List (κ × α)
  | some v, m => insert k v m
  | none, m => erase k m

def setAll (writes : List (κ × Option α)) (m : List (κ × α)) : List (κ × α) :=
  writes.foldl (fun m write => set write.1 write.2 m) m

theorem sorted_set {m : List (κ × α)} (h : Sorted m) (k : κ) (v : Option α) : Sorted (set k v m) := by
  cases v with
  | some v => exact sorted_insert h k v
  | none => exact sorted_erase h k

theorem get_set {m : List (κ × α)} (h : Sorted m) (k j : κ) (v : Option α) :
    get k (set j v m) = if k = j then v else get k m := by
  cases v with
  | some v => exact get_insert k j v m
  | none => exact get_erase h k j

theorem sorted_setAll {m : List (κ × α)} (h : Sorted m) (writes : List (κ × Option α)) :
    Sorted (setAll writes m) := by
  induction writes generalizing m with
  | nil => exact h
  | cons write writes ih => exact ih (sorted_set h write.1 write.2)

/-- A property that the writes to a key have, and its value if there are none, is one of its value in the end. -/
theorem setAll_induction {m : List (κ × α)} (h : Sorted m) {writes : List (κ × Option α)} {k : κ} {P : Option α → Prop}
    (hwrites : ∀ write ∈ writes, write.1 = k → P write.2) (hkept : (∀ write ∈ writes, write.1 ≠ k) → P (get k m)) :
    P (get k (setAll writes m)) := by
  induction writes generalizing m with
  | nil => exact hkept (List.forall_mem_nil _)
  | cons write writes ih =>
    rw [List.forall_mem_cons] at hwrites
    apply ih (sorted_set h write.1 write.2) hwrites.2
    intro hrest
    rw [get_set h]
    split
    · next heq => exact hwrites.1 heq.symm
    · next hne => exact hkept (List.forall_mem_cons.mpr ⟨Ne.symm hne, hrest⟩)

end Zulangue.Lib.KeyMap
