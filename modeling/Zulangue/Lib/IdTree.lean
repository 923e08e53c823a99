import Zulangue.Lib.KeyMap

/-!
# Trees whose containers carry ids

A document seen as a forest: leaves without identity, and containers (cells, lists, maps)
addressed by id. Reading and replacing a container goes by its id alone; the rules below
say what that does to the containers around it when no id occurs twice.
-/

namespace Zulangue.Lib

inductive IdTree (κ ι α : Type) where
  | leaf (value : α)
  | cell (id : ι) (value : α)
  | list (id : ι) (items : List (IdTree κ ι α))
  | map (id : ι) (entries : List (κ × IdTree κ ι α))

namespace IdTree

section
variable {κ ι α : Type}

def id? : IdTree κ ι α → Option ι
  | .leaf _ => none
  | .cell id _ => some id
  | .list id _ => some id
  | .map id _ => some id

mutual

/-- The ids of a tree, each container before what it holds. -/
def ids : IdTree κ ι α → List ι
  | .leaf _ => []
  | .cell id _ => [id]
  | .list id items => id :: idsItems items
  | .map id entries => id :: idsEntries entries

def idsItems : List (IdTree κ ι α) → List ι
  | [] => []
  | item :: items => ids item ++ idsItems items

def idsEntries : List (κ × IdTree κ ι α) → List ι
  | [] => []
  | (_, value) :: entries => ids value ++ idsEntries entries

end

variable [DecidableEq ι]

mutual

/-- The first container with the id `c`. -/
def find? (c : ι) : IdTree κ ι α → Option (IdTree κ ι α)
  | .leaf _ => none
  | .cell id value => if id = c then some (.cell id value) else none
  | .list id items => if id = c then some (.list id items) else findItems c items
  | .map id entries => if id = c then some (.map id entries) else findEntries c entries

def findItems (c : ι) : List (IdTree κ ι α) → Option (IdTree κ ι α)
  | [] => none
  | item :: items => (find? c item).or (findItems c items)

def findEntries (c : ι) : List (κ × IdTree κ ι α) → Option (IdTree κ ι α)
  | [] => none
  | (_, value) :: entries => (find? c value).or (findEntries c entries)

end

mutual

/-- Puts `new` where the container with the id `c` is. -/
def replace (c : ι) (new : IdTree κ ι α) : IdTree κ ι α → IdTree κ ι α
  | .leaf value => .leaf value
  | .cell id value => if id = c then new else .cell id value
  | .list id items => if id = c then new else .list id (replaceItems c new items)
  | .map id entries => if id = c then new else .map id (replaceEntries c new entries)

def replaceItems (c : ι) (new : IdTree κ ι α) : List (IdTree κ ι α) → List (IdTree κ ι α)
  | [] => []
  | item :: items => replace c new item :: replaceItems c new items

def replaceEntries (c : ι) (new : IdTree κ ι α) :
    List (κ × IdTree κ ι α) → List (κ × IdTree κ ι α)
  | [] => []
  | (key, value) :: entries => (key, replace c new value) :: replaceEntries c new entries

end

/-! ## What a container holds

Of a container only its id and its contents matter to reading and replacing, so the rules go by
them, whatever the container is. -/

def contents : IdTree κ ι α → List (IdTree κ ι α)
  | .leaf _ => []
  | .cell _ _ => []
  | .list _ items => items
  | .map _ entries => entries.map Prod.snd

/-- The same container with other contents, as many as before. -/
def withContents : IdTree κ ι α → List (IdTree κ ι α) → IdTree κ ι α
  | .leaf value, _ => .leaf value
  | .cell id value, _ => .cell id value
  | .list id _, items => .list id items
  | .map id entries, values => .map id ((entries.map Prod.fst).zip values)

omit [DecidableEq ι] in
/-- Trees and lists of trees together: a tree from its contents, a list item by item. -/
theorem induct {P : IdTree κ ι α → Prop} {Q : List (IdTree κ ι α) → Prop} (tree : ∀ t, Q t.contents → P t) (nil : Q [])
    (cons : ∀ t items, P t → Q items → Q (t :: items)) : (∀ t, P t) ∧ ∀ items, Q items := by
  have hP : ∀ t, P t := @IdTree.rec κ ι α P Q (fun entries => Q (entries.map Prod.snd)) (fun entry => P entry.2)
    (fun _ => tree _ nil) (fun _ _ => tree _ nil) (fun _ _ ih => tree _ ih) (fun _ _ ih => tree _ ih) nil cons nil
    (fun _ _ => cons _ _) (fun _ _ ih => ih)
  refine ⟨hP, fun items => ?_⟩
  induction items with
  | nil => exact nil
  | cons t items ih => exact cons t items (hP t) ih

section
variable {c d : ι} {o new newer t : IdTree κ ι α} {items : List (IdTree κ ι α)} {entries : List (κ × IdTree κ ι α)}

omit [DecidableEq ι] in
theorem idsEntries_eq (entries : List (κ × IdTree κ ι α)) : idsEntries entries = idsItems (entries.map Prod.snd) := by
  induction entries with
  | nil => rfl
  | cons entry entries ih => rw [idsEntries, ih, List.map_cons, idsItems]

theorem findEntries_eq (c : ι) (entries : List (κ × IdTree κ ι α)) :
    findEntries c entries = findItems c (entries.map Prod.snd) := by
  induction entries with
  | nil => rfl
  | cons entry entries ih => rw [findEntries, ih, List.map_cons, findItems]

theorem replaceEntries_eq (c : ι) (new : IdTree κ ι α) (entries : List (κ × IdTree κ ι α)) :
    replaceEntries c new entries = (entries.map Prod.fst).zip (replaceItems c new (entries.map Prod.snd)) := by
  induction entries with
  | nil => rfl
  | cons entry entries ih => rw [replaceEntries, ih, List.map_cons, List.map_cons, replaceItems, List.zip_cons_cons]

theorem length_replaceItems (c : ι) (new : IdTree κ ι α) (items : List (IdTree κ ι α)) :
    (replaceItems c new items).length = items.length := by
  induction items with
  | nil => rfl
  | cons item items ih => rw [replaceItems, List.length_cons, ih, List.length_cons]

omit [DecidableEq ι] in
theorem ids_eq (t : IdTree κ ι α) : t.ids = t.id?.toList ++ idsItems t.contents := by
  cases t <;> simp [ids, id?, contents, idsEntries_eq, idsItems]

theorem find?_eq (c : ι) (t : IdTree κ ι α) :
    find? c t = if t.id? = some c then some t else findItems c t.contents := by
  cases t <;> simp [find?, id?, contents, findEntries_eq, findItems]

theorem replace_eq (c : ι) (new t : IdTree κ ι α) :
    replace c new t = if t.id? = some c then new else t.withContents (replaceItems c new t.contents) := by
  cases t <;> simp [replace, id?, contents, withContents, replaceEntries_eq]

omit [DecidableEq ι] in
theorem zip_keys_values (entries : List (κ × IdTree κ ι α)) :
    (entries.map Prod.fst).zip (entries.map Prod.snd) = entries := by
  rw [List.zip_map']
  exact List.map_id entries

omit [DecidableEq ι] in
theorem withContents_contents (t : IdTree κ ι α) : t.withContents t.contents = t := by
  cases t with
  | map id entries => rw [contents, withContents, zip_keys_values]
  | _ => rfl

omit [DecidableEq ι] in
theorem id?_withContents (t : IdTree κ ι α) (items : List (IdTree κ ι α)) : (t.withContents items).id? = t.id? := by
  cases t <;> rfl

omit [DecidableEq ι] in
theorem contents_withContents (h : items.length = t.contents.length) : (t.withContents items).contents = items := by
  cases t with
  | leaf value => exact (List.eq_nil_of_length_eq_zero h).symm
  | cell id value => exact (List.eq_nil_of_length_eq_zero h).symm
  | list id own => rfl
  | map id entries =>
    rw [contents, List.length_map] at h
    rw [withContents, contents, List.map_snd_zip (by rw [List.length_map, h])]

omit [DecidableEq ι] in
theorem withContents_withContents (h : items.length = t.contents.length) (others : List (IdTree κ ι α)) :
    (t.withContents items).withContents others = t.withContents others := by
  cases t with
  | map id entries =>
    rw [contents, List.length_map] at h
    rw [withContents, withContents, withContents, List.map_fst_zip (by rw [List.length_map, h])]
  | _ => rfl

theorem id?_replace_of_ne (h : t.id? ≠ some c) : (replace c new t).id? = t.id? := by
  rw [replace_eq, if_neg h, id?_withContents]

theorem contents_replace (h : t.id? ≠ some c) : (replace c new t).contents = replaceItems c new t.contents := by
  rw [replace_eq, if_neg h, contents_withContents (length_replaceItems c new _)]

omit [DecidableEq ι] in
theorem mem_ids_iff : c ∈ t.ids ↔ t.id? = some c ∨ c ∈ idsItems t.contents := by
  rw [ids_eq, List.mem_append, Option.mem_toList]

omit [DecidableEq ι] in
theorem nodup_contents (h : t.ids.Nodup) : (idsItems t.contents).Nodup := by
  rw [ids_eq] at h
  exact (List.nodup_append.mp h).2.1

omit [DecidableEq ι] in
/-- A container does not hold its own id. -/
theorem id?_ne_of_mem (h : t.ids.Nodup) (hc : c ∈ idsItems t.contents) : t.id? ≠ some c := by
  rw [ids_eq] at h
  intro hid
  exact (List.nodup_append.mp h).2.2 c (by simp [hid]) c hc rfl

theorem find?_self (h : t.id? = some c) : find? c t = some t := by rw [find?_eq, if_pos h]

theorem replace_self (h : t.id? = some c) : replace c new t = new := by rw [replace_eq, if_pos h]

omit [DecidableEq ι] in
theorem mem_ids_self (h : t.id? = some c) : c ∈ t.ids := mem_ids_iff.mpr (.inl h)

/-! ## A container that is not there -/

theorem absent (c : ι) :
    (∀ t : IdTree κ ι α, c ∉ t.ids → find? c t = none ∧ ∀ new, replace c new t = t) ∧
      ∀ items : List (IdTree κ ι α), c ∉ idsItems items →
        findItems c items = none ∧ ∀ new, replaceItems c new items = items := by
  apply induct
  case tree =>
    intro t ih h
    rw [mem_ids_iff, not_or] at h
    obtain ⟨hfind, hreplace⟩ := ih h.2
    refine ⟨by rw [find?_eq, if_neg h.1, hfind], fun new => ?_⟩
    rw [replace_eq, if_neg h.1, hreplace, withContents_contents]
  case nil => exact fun _ => ⟨rfl, fun _ => rfl⟩
  case cons =>
    intro t items ht hitems h
    rw [idsItems, List.mem_append, not_or] at h
    obtain ⟨hfind, hreplace⟩ := ht h.1
    obtain ⟨hfindItems, hreplaceItems⟩ := hitems h.2
    exact ⟨by rw [findItems, hfind, hfindItems, Option.none_or], fun new => by
      rw [replaceItems, hreplace, hreplaceItems]⟩

theorem find?_of_notMem (h : c ∉ t.ids) : find? c t = none := ((absent c).1 t h).1

theorem findItems_of_notMem (h : c ∉ idsItems items) : findItems c items = none := ((absent c).2 items h).1

theorem findEntries_of_notMem (h : c ∉ idsEntries entries) : findEntries c entries = none := by
  rw [idsEntries_eq] at h
  rw [findEntries_eq, findItems_of_notMem h]

theorem replace_of_notMem (h : c ∉ t.ids) : replace c new t = t := ((absent c).1 t h).2 new

theorem replaceItems_of_notMem (h : c ∉ idsItems items) : replaceItems c new items = items :=
  ((absent c).2 items h).2 new

theorem replaceEntries_of_notMem (h : c ∉ idsEntries entries) : replaceEntries c new entries = entries := by
  rw [idsEntries_eq] at h
  rw [replaceEntries_eq, replaceItems_of_notMem h, zip_keys_values]

/-! ## A container that is there -/

/-- The container found has the id, and its containers are the tree's own. -/
theorem found (c : ι) (o : IdTree κ ι α) :
    (∀ t, find? c t = some o → o.id? = some c ∧ ∀ d ∈ o.ids, d ∈ t.ids) ∧
      ∀ items, findItems c items = some o → o.id? = some c ∧ ∀ d ∈ o.ids, d ∈ idsItems items := by
  apply induct
  case tree =>
    intro t ih h
    rw [find?_eq] at h
    split at h
    next hid =>
      obtain rfl := Option.some.inj h
      exact ⟨hid, fun d hd => hd⟩
    next =>
      obtain ⟨hid, hsubset⟩ := ih h
      exact ⟨hid, fun d hd => mem_ids_iff.mpr (.inr (hsubset d hd))⟩
  case nil => exact fun h => by cases h
  case cons =>
    intro t items ht hitems h
    rcases Option.or_eq_some_iff.mp h with hhead | ⟨_, htail⟩
    · obtain ⟨hid, hsubset⟩ := ht hhead
      exact ⟨hid, fun d hd => List.mem_append_left _ (hsubset d hd)⟩
    · obtain ⟨hid, hsubset⟩ := hitems htail
      exact ⟨hid, fun d hd => List.mem_append_right _ (hsubset d hd)⟩

theorem id?_of_find? (h : find? c t = some o) : o.id? = some c := ((found c o).1 t h).1

theorem id?_of_findItems (h : findItems c items = some o) : o.id? = some c := ((found c o).2 items h).1

theorem find?_subset (h : find? c t = some o) : ∀ d ∈ o.ids, d ∈ t.ids := ((found c o).1 t h).2

theorem findItems_subset (h : findItems c items = some o) : ∀ d ∈ o.ids, d ∈ idsItems items :=
  ((found c o).2 items h).2

theorem mem_of_findItems (h : findItems c items = some o) : c ∈ idsItems items :=
  findItems_subset h c (mem_ids_self (id?_of_findItems h))

theorem mem_of_find? (h : find? c t = some o) : c ∈ t.ids := find?_subset h c (mem_ids_self (id?_of_find? h))

theorem exists_find (c : ι) :
    (∀ t : IdTree κ ι α, c ∈ t.ids → ∃ o, find? c t = some o) ∧
      ∀ items : List (IdTree κ ι α), c ∈ idsItems items → ∃ o, findItems c items = some o := by
  apply induct
  case tree =>
    intro t ih h
    rw [find?_eq]
    split
    · exact ⟨t, rfl⟩
    next hid => exact ih ((mem_ids_iff.mp h).resolve_left hid)
  case nil => exact fun h => by cases h
  case cons =>
    intro t items ht hitems h
    cases hfind : find? c t with
    | some o => exact ⟨o, by rw [findItems, hfind, Option.some_or]⟩
    | none =>
      rcases List.mem_append.mp h with hhead | htail
      · obtain ⟨o, ho⟩ := ht hhead
        cases hfind.symm.trans ho
      · obtain ⟨o, ho⟩ := hitems htail
        exact ⟨o, by rw [findItems, hfind, ho, Option.none_or]⟩

theorem exists_find? (h : c ∈ t.ids) : ∃ o, find? c t = some o := (exists_find c).1 t h

theorem exists_findItems (h : c ∈ idsItems items) : ∃ o, findItems c items = some o := (exists_find c).2 items h

omit [DecidableEq ι] in
theorem mem_idsItems_of_getElem? {sub : IdTree κ ι α} {i : Nat} (hget : items[i]? = some sub) (hc : c ∈ sub.ids) :
    c ∈ idsItems items := by
  induction items generalizing i with
  | nil => cases hget
  | cons item items ih =>
    cases i with
    | zero =>
      obtain rfl : item = sub := by simpa using hget
      exact List.mem_append_left _ hc
    | succ i => exact List.mem_append_right _ (ih (by simpa using hget))

/-- Where no id occurs twice, a container found in the head is not in the rest, nor the other way round. -/
theorem found_cons {item : IdTree κ ι α} (hnodup : (idsItems (item :: items)).Nodup)
    (h : findItems c (item :: items) = some o) :
    (find? c item = some o ∧ ∀ d ∈ o.ids, d ∉ idsItems items) ∨
      (findItems c items = some o ∧ ∀ d ∈ o.ids, d ∉ item.ids) := by
  obtain ⟨hhead, htail, hdisjoint⟩ := List.nodup_append.mp hnodup
  rcases Option.or_eq_some_iff.mp h with hfind | ⟨hnone, hfind⟩
  · exact .inl ⟨hfind, fun d hd hmem => hdisjoint d (find?_subset hfind d hd) d hmem rfl⟩
  · exact .inr ⟨hfind, fun d hd hmem => hdisjoint d hmem d (findItems_subset hfind d hd) rfl⟩

/-- Putting a container where it is changes nothing. -/
theorem replace_same (c : ι) (o : IdTree κ ι α) :
    (∀ t, t.ids.Nodup → find? c t = some o → replace c o t = t) ∧
      ∀ items, (idsItems items).Nodup → findItems c items = some o → replaceItems c o items = items := by
  apply induct
  case tree =>
    intro t ih hnodup h
    rw [find?_eq] at h
    rw [replace_eq]
    split at h
    next hid => rw [if_pos hid, Option.some.inj h]
    next hid => rw [if_neg hid, ih (nodup_contents hnodup) h, withContents_contents]
  case nil => exact fun _ _ => rfl
  case cons =>
    intro t items ht hitems hnodup h
    obtain ⟨hhead, htail, -⟩ := List.nodup_append.mp hnodup
    rw [replaceItems]
    rcases found_cons hnodup h with ⟨hfind, hnot⟩ | ⟨hfind, hnot⟩
    · rw [ht hhead hfind, replaceItems_of_notMem (hnot c (mem_ids_self (id?_of_find? hfind)))]
    · rw [hitems htail hfind, replace_of_notMem (hnot c (mem_ids_self (id?_of_findItems hfind)))]

theorem replaceItems_found (hnodup : (idsItems items).Nodup) (h : findItems c items = some o) :
    replaceItems c o items = items := (replace_same c o).2 items hnodup h

/-! ## Reading and replacing after a replacement -/

theorem read_replaced (hnew : new.id? = some c) :
    (∀ t, c ∈ t.ids → find? c (replace c new t) = some new) ∧
      ∀ items, c ∈ idsItems items → findItems c (replaceItems c new items) = some new := by
  apply induct
  case tree =>
    intro t ih h
    by_cases hid : t.id? = some c
    · rw [replace_self hid, find?_self hnew]
    · rw [find?_eq, id?_replace_of_ne hid, if_neg hid, contents_replace hid]
      exact ih ((mem_ids_iff.mp h).resolve_left hid)
  case nil => exact fun h => by cases h
  case cons =>
    intro t items ht hitems h
    rw [replaceItems, findItems]
    by_cases hhead : c ∈ t.ids
    · rw [ht hhead, Option.some_or]
    · rw [replace_of_notMem hhead, find?_of_notMem hhead, Option.none_or]
      exact hitems ((List.mem_append.mp h).resolve_left hhead)

theorem find?_replace (hnew : new.id? = some c) (h : c ∈ t.ids) : find? c (replace c new t) = some new :=
  (read_replaced hnew).1 t h

theorem findItems_replaceItems (hnew : new.id? = some c) (h : c ∈ idsItems items) :
    findItems c (replaceItems c new items) = some new := (read_replaced hnew).2 items h

theorem replaced_twice (newer : IdTree κ ι α) (hnew : new.id? = some c) :
    (∀ t, replace c newer (replace c new t) = replace c newer t) ∧
      ∀ items, replaceItems c newer (replaceItems c new items) = replaceItems c newer items := by
  apply induct
  case tree =>
    intro t ih
    by_cases hid : t.id? = some c
    · rw [replace_self hid, replace_self hnew, replace_self hid]
    · rw [replace_eq c newer (replace c new t), id?_replace_of_ne hid, if_neg hid, contents_replace hid, ih,
        replace_eq c new t, if_neg hid, withContents_withContents (length_replaceItems c new _), replace_eq c newer t,
        if_neg hid]
  case nil => rfl
  case cons =>
    intro t items ht hitems
    rw [replaceItems, replaceItems, replaceItems, ht, hitems]

theorem replace_replace (hnew : new.id? = some c) (t : IdTree κ ι α) :
    replace c newer (replace c new t) = replace c newer t := (replaced_twice newer hnew).1 t

theorem replaceItems_replaceItems (hnew : new.id? = some c) (items : List (IdTree κ ι α)) :
    replaceItems c newer (replaceItems c new items) = replaceItems c newer items := (replaced_twice newer hnew).2 items

/-! ## Containers inside containers, when no id occurs twice -/

/-- What a container holds is found in the whole tree as in the container alone, and
replacing it there replaces the container. -/
theorem inside (new : IdTree κ ι α) (hd : d ∈ o.ids) :
    (∀ t, t.ids.Nodup → find? c t = some o →
      find? d t = find? d o ∧ replace d new t = replace c (replace d new o) t) ∧
    ∀ items, (idsItems items).Nodup → findItems c items = some o →
      findItems d items = find? d o ∧ replaceItems d new items = replaceItems c (replace d new o) items := by
  apply induct
  case tree =>
    intro t ih hnodup h
    rw [find?_eq] at h
    split at h
    next hid =>
      obtain rfl := Option.some.inj h
      exact ⟨rfl, (replace_self hid).symm⟩
    next hid =>
      have hne := id?_ne_of_mem hnodup (findItems_subset h d hd)
      obtain ⟨hfind, hreplace⟩ := ih (nodup_contents hnodup) h
      refine ⟨by rw [find?_eq, if_neg hne, hfind], ?_⟩
      rw [replace_eq d new t, if_neg hne, hreplace, replace_eq c _ t, if_neg hid]
  case nil => exact fun _ h => by cases h
  case cons =>
    intro t items ht hitems hnodup h
    obtain ⟨hhead, htail, -⟩ := List.nodup_append.mp hnodup
    obtain ⟨found, hfound⟩ := exists_find? hd
    rw [findItems, replaceItems, replaceItems]
    rcases found_cons hnodup h with ⟨hfind, hnot⟩ | ⟨hfind, hnot⟩
    · have hc := mem_ids_self (id?_of_find? hfind)
      obtain ⟨hread, hreplace⟩ := ht hhead hfind
      rw [hread, hreplace, hfound, Option.some_or, replaceItems_of_notMem (hnot c hc), replaceItems_of_notMem (hnot d hd)]
      exact ⟨rfl, rfl⟩
    · have hc := mem_ids_self (id?_of_findItems hfind)
      obtain ⟨hread, hreplace⟩ := hitems htail hfind
      rw [hread, hreplace, find?_of_notMem (hnot d hd), Option.none_or, replace_of_notMem (hnot c hc),
        replace_of_notMem (hnot d hd)]
      exact ⟨rfl, rfl⟩

theorem nested (new : IdTree κ ι α) (hnodup : t.ids.Nodup) (h : find? c t = some o) (hd : d ∈ o.ids) :
    find? d t = find? d o ∧ replace d new t = replace c (replace d new o) t := (inside new hd).1 t hnodup h

theorem nestedItems (new : IdTree κ ι α) (hnodup : (idsItems items).Nodup) (h : findItems c items = some o)
    (hd : d ∈ o.ids) :
    findItems d items = find? d o ∧ replaceItems d new items = replaceItems c (replace d new o) items :=
  (inside new hd).2 items hnodup h

end

/-- An item's containers are found, and replaced, at its index. -/
theorem nested_getElem? {c : ι} {sub : IdTree κ ι α} (new : IdTree κ ι α)
    {items : List (IdTree κ ι α)} {i : Nat} (hnodup : (idsItems items).Nodup) (hget : items[i]? = some sub) (hc : c ∈ sub.ids) :
    findItems c items = find? c sub ∧
      replaceItems c new items = items.set i (replace c new sub) := by
  induction items generalizing i with
  | nil => cases hget
  | cons item items ih =>
    obtain ⟨hhead, htail, hdisjoint⟩ := List.nodup_append.mp hnodup
    obtain ⟨o, ho⟩ := exists_find? hc
    cases i with
    | zero =>
      obtain rfl : item = sub := by simpa using hget
      have hnot : c ∉ idsItems items := fun hmem => hdisjoint c hc c hmem rfl
      exact ⟨by simp [findItems, ho], by simp [replaceItems, replaceItems_of_notMem hnot]⟩
    | succ i =>
      have hget' : items[i]? = some sub := by simpa using hget
      have hmem : c ∈ idsItems items := mem_idsItems_of_getElem? hget' hc
      have hnot : c ∉ item.ids := fun hc' => hdisjoint c hc' c hmem rfl
      have ih := ih htail hget'
      exact ⟨by simp [findItems, find?_of_notMem hnot, ih.1], by
        simp [replaceItems, replace_of_notMem hnot, ih.2]⟩

/-! ## The ids after a replacement -/

/-- The ids of a container lie together, and a replacement swaps them for the new ones. -/
def Splits (c : ι) (found : Option (IdTree κ ι α)) (old : List ι)
    (replaced : IdTree κ ι α → List ι) : Prop :=
  ∃ o before after, found = some o ∧ old = before ++ o.ids ++ after ∧
    ∀ new : IdTree κ ι α, new.id? = some c → replaced new = before ++ new.ids ++ after

theorem split (c : ι) :
    (∀ t : IdTree κ ι α, t.ids.Nodup → c ∈ t.ids → Splits c (find? c t) t.ids fun new => (replace c new t).ids) ∧
      ∀ items : List (IdTree κ ι α), (idsItems items).Nodup → c ∈ idsItems items →
        Splits c (findItems c items) (idsItems items) fun new => idsItems (replaceItems c new items) := by
  apply induct
  case tree =>
    intro t ih hnodup h
    by_cases hid : t.id? = some c
    · exact ⟨t, [], [], find?_self hid, by simp, fun new _ => by simp [replace_self hid]⟩
    · obtain ⟨o, before, after, hfind, hold, hnew⟩ :=
        ih (nodup_contents hnodup) ((mem_ids_iff.mp h).resolve_left hid)
      refine ⟨o, t.id?.toList ++ before, after, by rw [find?_eq, if_neg hid, hfind], by simp [ids_eq t, hold], ?_⟩
      intro new hc
      simp [ids_eq (replace c new t), id?_replace_of_ne hid, contents_replace hid, hnew new hc]
  case nil => exact fun _ h => by cases h
  case cons =>
    intro t items ht hitems hnodup h
    obtain ⟨hhead, htail, hdisjoint⟩ := List.nodup_append.mp hnodup
    by_cases hmem : c ∈ t.ids
    · obtain ⟨o, before, after, hfind, hold, hnew⟩ := ht hhead hmem
      have hnot : c ∉ idsItems items := fun hc => hdisjoint c hmem c hc rfl
      exact ⟨o, before, after ++ idsItems items, by simp [findItems, hfind], by simp [idsItems, hold],
        fun new hc => by simp [replaceItems, idsItems, hnew new hc, replaceItems_of_notMem hnot]⟩
    · obtain ⟨o, before, after, hfind, hold, hnew⟩ := hitems htail ((List.mem_append.mp h).resolve_left hmem)
      exact ⟨o, t.ids ++ before, after, by simp [findItems, find?_of_notMem hmem, hfind], by simp [idsItems, hold],
        fun new hc => by simp [replaceItems, idsItems, hnew new hc, replace_of_notMem hmem]⟩

theorem splits {c : ι} {t : IdTree κ ι α} (hnodup : t.ids.Nodup) (h : c ∈ t.ids) :
    Splits c (find? c t) t.ids fun new => (replace c new t).ids := (split c).1 t hnodup h

theorem splitsItems {c : ι} {items : List (IdTree κ ι α)} (hnodup : (idsItems items).Nodup) (h : c ∈ idsItems items) :
    Splits c (findItems c items) (idsItems items) fun new => idsItems (replaceItems c new items) :=
  (split c).2 items hnodup h

theorem nodup_of_findItems {c : ι} {o : IdTree κ ι α} {items : List (IdTree κ ι α)}
    (hnodup : (idsItems items).Nodup) (hfind : findItems c items = some o) : o.ids.Nodup := by
  obtain ⟨o', before, after, hfind', hold, _⟩ := splitsItems hnodup (mem_of_findItems hfind)
  obtain rfl : o = o' := Option.some.inj (hfind.symm.trans hfind')
  rw [hold] at hnodup
  exact (List.nodup_append.mp (List.nodup_append.mp hnodup).1).2.1

theorem id?_replace {c d : ι} {o new : IdTree κ ι α} (ho : o.id? = some c)
    (hnew : new.id? = some d) : (replace d new o).id? = some c := by
  by_cases hid : o.id? = some d
  · rw [replace_self hid, hnew, ← hid, ho]
  · rw [id?_replace_of_ne hid, ho]

/-- A replacement that brings only ids of its own keeps every id unique. -/
theorem nodup_replaceItems {c : ι} {o new : IdTree κ ι α} {items : List (IdTree κ ι α)}
    (hnodup : (idsItems items).Nodup) (hfind : findItems c items = some o)
    (hid : new.id? = some c) (hnew : new.ids.Nodup)
    (hown : ∀ d ∈ new.ids, d ∈ o.ids ∨ d ∉ idsItems items) :
    (idsItems (replaceItems c new items)).Nodup := by
  obtain ⟨o', before, after, hfind', hold, hreplaced⟩ :=
    splitsItems hnodup (mem_of_findItems hfind)
  obtain rfl : o = o' := Option.some.inj (hfind.symm.trans hfind')
  have hreplaced : idsItems (replaceItems c new items) = before ++ new.ids ++ after :=
    hreplaced new hid
  rw [hold] at hnodup hown
  rw [hreplaced]
  simp only [List.nodup_append, List.mem_append] at hnodup hown ⊢
  grind

end

section
variable {κ ι α : Type} [LinearOrder κ] [DecidableEq ι]

omit [DecidableEq ι] in
theorem mem_idsEntries_of_get {c : ι} {sub : IdTree κ ι α} {entries : List (κ × IdTree κ ι α)}
    {key : κ} (hget : KeyMap.get key entries = some sub) (hc : c ∈ sub.ids) :
    c ∈ idsEntries entries := by
  induction entries with
  | nil => cases hget
  | cons entry entries ih =>
    obtain ⟨k, value⟩ := entry
    by_cases hkey : key = k
    · obtain rfl : value = sub := by simpa [KeyMap.get, hkey] using hget
      exact List.mem_append_left _ hc
    · exact List.mem_append_right _ (ih (by simpa [KeyMap.get, hkey] using hget))

/-- What is new in an inserted value is found, and replaced, in the value. -/
theorem fresh_insert {c : ι} {o child : IdTree κ ι α} (new : IdTree κ ι α) (key : κ)
    {entries : List (κ × IdTree κ ι α)} (hfresh : c ∉ idsEntries entries) (hfind : find? c child = some o) :
    findEntries c (KeyMap.insert key child entries) = some o ∧
      replaceEntries c new (KeyMap.insert key child entries) =
        KeyMap.insert key (replace c new child) entries := by
  induction entries with
  | nil => exact ⟨by simp [KeyMap.insert, findEntries, hfind], rfl⟩
  | cons entry entries ih =>
    obtain ⟨k, value⟩ := entry
    simp only [idsEntries, List.mem_append, not_or] at hfresh
    have htail : replaceEntries c new entries = entries := replaceEntries_of_notMem hfresh.2
    have hhead : replace c new value = value := replace_of_notMem hfresh.1
    by_cases hkey : key = k
    · exact ⟨by simp [KeyMap.insert, hkey, findEntries, hfind], by
        simp [KeyMap.insert, hkey, replaceEntries, htail]⟩
    · by_cases hlt : key < k
      · exact ⟨by simp [KeyMap.insert, hkey, hlt, findEntries, hfind], by
          simp [KeyMap.insert, hkey, hlt, replaceEntries, htail, hhead]⟩
      · have ih := ih hfresh.2
        exact ⟨by simp [KeyMap.insert, hkey, hlt, findEntries, find?_of_notMem hfresh.1, ih.1], by
          simp [KeyMap.insert, hkey, hlt, replaceEntries, hhead, ih.2]⟩

/-- A new container put at a key of the map `m` is found there, and replacing it changes
what is at the key. -/
theorem replace_fresh {m n : ι} {t child : IdTree κ ι α} {entries : List (κ × IdTree κ ι α)}
    {key : κ} (hfind : find? m t = some (.map m entries)) (hfresh : n ∉ t.ids)
    (hchild : child.id? = some n)
    (hnodup : (replace m (.map m (KeyMap.insert key child entries)) t).ids.Nodup) :
    find? n (replace m (.map m (KeyMap.insert key child entries)) t) = some child ∧
      ∀ new, replace n new (replace m (.map m (KeyMap.insert key child entries)) t) =
        replace m (.map m (KeyMap.insert key new entries)) t := by
  have hm : m ∈ t.ids := mem_of_find? hfind
  have hne : m ≠ n := fun h => hfresh (h ▸ hm)
  have hentries : n ∉ idsEntries entries := fun h =>
    hfresh (find?_subset hfind n (List.mem_cons_of_mem _ h))
  have hid : (IdTree.map m (KeyMap.insert key child entries)).id? = some m := rfl
  have hfound := find?_replace hid hm
  have hself := find?_self hchild
  have hinside : find? n (.map m (KeyMap.insert key child entries)) = some child := by
    rw [find?, if_neg hne]
    exact (fresh_insert child key hentries hself).1
  have hmem : n ∈ (IdTree.map m (KeyMap.insert key child entries)).ids := mem_of_find? hinside
  constructor
  · rw [(nested child hnodup hfound hmem).1]
    exact hinside
  · intro new
    have hnew : replace n new (.map m (KeyMap.insert key child entries)) =
        .map m (KeyMap.insert key new entries) := by
      rw [replace, if_neg hne, (fresh_insert new key hentries hself).2, replace_self hchild]
    rw [(nested new hnodup hfound hmem).2, hnew, replace_replace hid]

/-- An entry's containers are found, and replaced, at its key. -/
theorem nested_get {c : ι} {sub : IdTree κ ι α} (new : IdTree κ ι α)
    {entries : List (κ × IdTree κ ι α)} {key : κ} (hsorted : KeyMap.Sorted entries) (hnodup : (idsEntries entries).Nodup)
    (hget : KeyMap.get key entries = some sub) (hc : c ∈ sub.ids) :
    findEntries c entries = find? c sub ∧
      replaceEntries c new entries = KeyMap.insert key (replace c new sub) entries := by
  induction entries with
  | nil => cases hget
  | cons entry entries ih =>
    obtain ⟨k, value⟩ := entry
    obtain ⟨hhead, htail, hdisjoint⟩ := List.nodup_append.mp hnodup
    obtain ⟨o, ho⟩ := exists_find? hc
    by_cases hkey : key = k
    · subst hkey
      obtain rfl : value = sub := by simpa [KeyMap.get] using hget
      have hnot : c ∉ idsEntries entries := fun hmem => hdisjoint c hc c hmem rfl
      exact ⟨by simp [findEntries, ho], by
        simp [replaceEntries, replaceEntries_of_notMem hnot, KeyMap.insert]⟩
    · have hget' : KeyMap.get key entries = some sub := by simpa [KeyMap.get, hkey] using hget
      have hlt : k < key := hsorted.head_lt _ (KeyMap.mem_of_get hget')
      have hmem : c ∈ idsEntries entries := mem_idsEntries_of_get hget' hc
      have hnot : c ∉ value.ids := fun hc' => hdisjoint c hc' c hmem rfl
      have ih := ih hsorted.tail htail hget'
      exact ⟨by simp [findEntries, find?_of_notMem hnot, ih.1], by
        simp [replaceEntries, replace_of_notMem hnot, ih.2, KeyMap.insert, hkey, lt_asymm hlt]⟩

end

end IdTree

end Zulangue.Lib
