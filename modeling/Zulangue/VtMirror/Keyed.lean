import Zulangue.VtMirror.Edit
import Zulangue.VtMirror.Positional
import Zulangue.VtMirror.Stored

/-!
# Lists with ids, in any order

The scan of `diff_list_with_id_selector` over two lists whose items have ids of their own. It walks
the old list once. What it has not reached when the new list is used up stays in the document.
-/

namespace Zulangue.VtMirror

open Zulangue.Lib Mirror

/-! ## What the scan does not reach -/

section
variable {α κ : Type} [DecidableEq κ]

/-- The scan at one old item; `next` goes on behind it. -/
def unreachedFrom (key : α → κ) (known : List κ) (item : α) (next : List α → List α) :
    List α → List α
  | [] => item :: next []
  | newItem :: newItems =>
    if key item = key newItem then next newItems
    else if key newItem ∉ known then unreachedFrom key known item next newItems
    else next (newItem :: newItems)

/-- The old items left when the new list is used up. -/
def unreached (key : α → κ) (known : List κ) : List α → List α → List α
  | [], _ => []
  | item :: items, newItems => unreachedFrom key known item (unreached key known items) newItems

/-- Nothing is left over exactly when the last old item is kept, or the shared ids changed their
order. -/
theorem unreached_eq_nil_iff {key : α → κ} {known : List κ} {items : List α}
    (hnodup : (items.map key).Nodup) (hknown : ∀ item ∈ items, key item ∈ known)
    (newItems : List α) :
    unreached key known items newItems = [] ↔
      items = [] ∨ (∃ last ∈ (items.map key).getLast?, last ∈ newItems.map key) ∨
        ¬ ((newItems.map key).filter (· ∈ known)).Sublist (items.map key) := by
  induction items generalizing newItems with
  | nil => simp [unreached]
  | cons item items ih =>
    obtain ⟨hnew, hnodup⟩ := List.nodup_cons.mp hnodup
    have ih := ih hnodup fun i hi => hknown i (List.mem_cons_of_mem _ hi)
    have hitem := hknown item List.mem_cons_self
    have hlast : ∀ last ∈ ((item :: items).map key).getLast?, last ∈ known := by
      intro last hmem
      obtain ⟨i, hi, rfl⟩ := List.mem_map.mp (List.mem_of_getLast? hmem)
      exact hknown i hi
    simp only [unreached, reduceCtorEq, false_or]
    induction newItems with
    | nil => simp [unreachedFrom]
    | cons newItem newItems ihNew =>
      by_cases hsame : key item = key newItem
      · rw [unreachedFrom, if_pos hsame, ih]
        have hfilter : ((newItem :: newItems).map key).filter (· ∈ known) =
            key item :: (newItems.map key).filter (· ∈ known) := by
          simp [← hsame, hitem]
        rw [hfilter, List.map_cons, List.cons_sublist_cons]
        have hlast : (∃ last ∈ (key item :: items.map key).getLast?, last ∈ (newItem :: newItems).map key) ↔
            items = [] ∨ ∃ last ∈ (items.map key).getLast?, last ∈ newItems.map key := by
          cases items with
          | nil => simp [hsame]
          | cons second items =>
            -- The last old item is another one, so the new list has it later.
            have hne : ∀ last ∈ ((second :: items).map key).getLast?, last ≠ key newItem := by
              intro last hmem heq
              exact hnew (hsame ▸ heq ▸ List.mem_of_getLast? hmem)
            simp only [List.map_cons, List.getLast?_cons_cons, reduceCtorEq, false_or]
            refine exists_congr fun last => and_congr_right fun hmem => ?_
            rw [List.mem_cons, or_iff_right (hne last hmem)]
        rw [hlast, or_assoc]
      · by_cases hunknown : key newItem ∉ known
        · have hfilter : ((newItem :: newItems).map key).filter (· ∈ known) =
              (newItems.map key).filter (· ∈ known) := by
            simp [hunknown]
          rw [unreachedFrom, if_neg hsame, if_pos hunknown, hfilter]
          refine ihNew.trans (or_congr_left (exists_congr fun last => and_congr_right fun hmem => ?_))
          have hne : last ≠ key newItem := fun heq => hunknown (heq ▸ hlast last hmem)
          rw [List.map_cons, List.mem_cons, or_iff_right hne]
        · have hknown' : key newItem ∈ known := not_not.mp hunknown
          have hfilter : ((newItem :: newItems).map key).filter (· ∈ known) =
              key newItem :: (newItems.map key).filter (· ∈ known) := by
            simp [hknown']
          rw [unreachedFrom, if_neg hsame, if_neg hunknown, ih, hfilter, List.map_cons,
            List.map_cons (a := item)]
          -- The old item goes, so it is not where the new one is found.
          have hsub : (key newItem :: (newItems.map key).filter (· ∈ known)).Sublist
                (key item :: items.map key) ↔
              (key newItem :: (newItems.map key).filter (· ∈ known)).Sublist (items.map key) := by
            constructor
            · intro h
              rcases List.sublist_cons_iff.mp h with hin | ⟨rest, heq, _⟩
              · exact hin
              · exact absurd (List.cons.inj heq).1.symm hsame
            · exact fun h => h.cons _
          rw [hsub]
          cases items with
          | nil => simp
          | cons second items =>
            simp only [List.map_cons, List.getLast?_cons_cons, reduceCtorEq, false_or]

end

/-! ## Applying the changes in order -/

section
variable {L : Loro} {config : Config} {id : ContainerID} {itemSchema : Option Schema}
  {registered : Option (Option Schema)} {mirror : Mirror L} {before after : List Tree}
  {diffChild : Value → Value → ContainerID → Option Schema → Except DiffError (List Change)}

theorem Mirror.applyChange_list (htype : id.containerType = .list) {change : Change}
    (hcontainer : change.container = some id) :
    mirror.applyChange config change = applyListChange config false id mirror change := by
  simp [applyChange, applyBucket, applyContainerChanges, hcontainer, htype]

theorem Mirror.applyChange_movable (htype : id.containerType = .movableList) {change : Change}
    (hcontainer : change.container = some id) :
    mirror.applyChange config change = applyListChange config true id mirror change := by
  simp [applyChange, applyBucket, applyContainerChanges, hcontainer, htype]

theorem Mirror.applyChange_deleteAt (htype : id.containerType = .list ∨ id.containerType = .movableList) {tree : Tree}
    (hholds : mirror.HoldsList id (before ++ tree :: after)) :
    ∃ doc, mirror.applyChange config (deleteAt id before.length) = .ok { mirror with doc } ∧
      ({ mirror with doc } : Mirror L).HoldsList id (before ++ after) := by
  have happly : mirror.applyChange config (deleteAt id before.length) = mirror.call (.listDelete id before.length 1) := by
    rcases htype with htype | htype
    · exact applyChange_list htype rfl
    · exact applyChange_movable htype rfl
  rw [happly]
  exact @call_edit L _ _ _ (.delete before.length) _ _ hholds rfl (ListEdit.run_delete before after tree)

/-- Inserting the item puts it where it is asked for, and nothing else of the list changes. -/
def InsertRight (L : Loro) (config : Config) (id : ContainerID) (itemSchema : Option Schema)
    (registered : Option (Option Schema)) (item : Value) : Prop :=
  ∀ (mirror : Mirror L) (before after : List Tree), mirror.registry id = registered →
    mirror.HoldsList id (before ++ after) →
    ∃ mirror' tree, mirror.applyChange config (insertAt id itemSchema before.length item) = .ok mirror' ∧
      mirror'.registry id = registered ∧ mirror'.HoldsList id (before ++ tree :: after) ∧
      tree.toJson.deepEqual item = true

/-- The differences of a child container bring it to the item, and nothing else of the list
changes. -/
def RecursionRight (L : Loro) (config : Config) (id : ContainerID) (itemSchema : Option Schema)
    (registered : Option (Option Schema))
    (diffChild : Value → Value → ContainerID → Option Schema → Except DiffError (List Change))
    (tree : Tree) (child : ContainerID) (item : Value) : Prop :=
  ∃ changes, diffChild tree.toJson item child itemSchema = .ok changes ∧
    ∀ (mirror : Mirror L) (before after : List Tree), mirror.registry id = registered →
      mirror.HoldsList id (before ++ tree :: after) →
      ∃ mirror' tree', changes.foldlM (applyChange config) mirror = .ok mirror' ∧
        mirror'.registry id = registered ∧ mirror'.HoldsList id (before ++ tree' :: after) ∧
        tree'.toJson.deepEqual item = true

/-- A plain item is inserted as it should be. -/
theorem insertRight_plain (htype : id.containerType = .list ∨ id.containerType = .movableList) {item : Value}
    (hplain : PlainItem itemSchema item) (hwf : item.WF) : InsertRight L config id itemSchema registered item := by
  intro mirror before after hregistry hholds
  have happly : mirror.applyChange config (insertAt id itemSchema before.length item) =
      mirror.call (.listInsert id before.length (jsonToLoro item)) := by
    rw [insertAt_plain hplain]
    rcases htype with htype | htype
    · exact applyChange_list htype rfl
    · exact applyChange_movable htype rfl
  rw [happly]
  obtain ⟨doc, hcall, hholds'⟩ := @call_edit L _ _ _ (.insert before.length (plain item)) _ _ hholds
    ⟨_, rfl, rfl⟩ (ListEdit.run_insert before after (plain item))
  exact ⟨_, plain item, hcall, hregistry, hholds', stored_deepEqual hwf⟩

/-- An item is deleted, and the new one put in its place. -/
theorem apply_replacement (htype : id.containerType = .list ∨ id.containerType = .movableList) {tree : Tree} {item : Value}
    (hinsert : InsertRight L config id itemSchema registered item) (hregistry : mirror.registry id = registered)
    (hholds : mirror.HoldsList id (before ++ tree :: after)) :
    ∃ mirror' tree', [deleteAt id before.length, insertAt id itemSchema before.length item].foldlM
        (applyChange config) mirror = .ok mirror' ∧
      mirror'.registry id = registered ∧ mirror'.HoldsList id (before ++ tree' :: after) ∧
      tree'.toJson.deepEqual item = true := by
  obtain ⟨doc, hdelete, hgone⟩ := @applyChange_deleteAt L config _ _ _ _ htype _ hholds
  obtain ⟨mirror', tree', happly, hregistry', hholds', hequal⟩ := hinsert { mirror with doc } before after hregistry hgone
  refine ⟨mirror', tree', ?_, hregistry', hholds', hequal⟩
  rw [List.foldlM_cons, hdelete]
  change [insertAt id itemSchema before.length item].foldlM (applyChange config) _ = _
  rw [List.foldlM_cons, happly]
  rfl

/-- An item's id; the lists considered here have one for each item. -/
def IdSelector.key (sel : IdSelector) (item : Value) : String := (selectId sel item).getD ""

/-- Two lists whose items have ids, with every insertion and every recursive difference they call for
done right. -/
structure Scannable (L : Loro) (config : Config) (id : ContainerID) (itemSchema : Option Schema)
    (registered : Option (Option Schema))
    (diffChild : Value → Value → ContainerID → Option Schema → Except DiffError (List Change))
    (sel : IdSelector) (trees : List Tree) (new : List Value) : Prop where
  oldIds : ∀ tree ∈ trees, (selectId sel tree.toJson).isSome
  newIds : ∀ item ∈ new, (selectId sel item).isSome
  respects : ∀ tree ∈ trees, ∀ item ∈ new, tree.toJson.deepEqual item = true →
    selectId sel tree.toJson = selectId sel item
  insert : ∀ item ∈ new, InsertRight L config id itemSchema registered item
  recurse : ∀ tree ∈ trees, ∀ item ∈ new, ∀ child, tree.id? = some child →
    selectId sel tree.toJson = selectId sel item → tree.toJson.deepEqual item = false →
    RecursionRight L config id itemSchema registered diffChild tree child item

namespace Scannable

variable {sel : IdSelector} {trees : List Tree} {new : List Value} {tree : Tree} {item : Value}

theorem tail (h : Scannable L config id itemSchema registered diffChild sel (tree :: trees) new) :
    Scannable L config id itemSchema registered diffChild sel trees new where
  oldIds t ht := h.oldIds t (List.mem_cons_of_mem _ ht)
  newIds := h.newIds
  respects t ht := h.respects t (List.mem_cons_of_mem _ ht)
  insert := h.insert
  recurse t ht := h.recurse t (List.mem_cons_of_mem _ ht)

theorem newTail (h : Scannable L config id itemSchema registered diffChild sel trees (item :: new)) :
    Scannable L config id itemSchema registered diffChild sel trees new where
  oldIds := h.oldIds
  newIds i hi := h.newIds i (List.mem_cons_of_mem _ hi)
  respects t ht i hi := h.respects t ht i (List.mem_cons_of_mem _ hi)
  insert i hi := h.insert i (List.mem_cons_of_mem _ hi)
  recurse t ht i hi := h.recurse t ht i (List.mem_cons_of_mem _ hi)

end Scannable

/-- The list `id` goes on from `before` with items equal to `expected`. -/
def Mirror.Continues (mirror : Mirror L) (id : ContainerID) (before : List Tree) (expected : List Value) :
    Prop :=
  ∃ items, mirror.HoldsList id (before ++ items) ∧
    Value.deepEqualItems (items.map Tree.toJson) expected = true

theorem Mirror.Continues.cons {tree : Tree} {item : Value} {expected : List Value}
    (h : mirror.Continues id (before ++ [tree]) expected) (heq : tree.toJson.deepEqual item = true) :
    mirror.Continues id before (item :: expected) := by
  obtain ⟨items, hholds, hitems⟩ := h
  refine ⟨tree :: items, ?_, ?_⟩
  · simpa using hholds
  · simp [Value.deepEqualItems, heq, hitems]

/-- What is left of the new list is put behind the end. -/
theorem apply_keyedTail {sel : IdSelector} {new : List Value} {index : Nat} {offset : Int}
    (hscan : Scannable L config id itemSchema registered diffChild sel [] new)
    (hregistry : mirror.registry id = registered) (hholds : mirror.HoldsList id before)
    (hindex : (index : Int) + offset = before.length) :
    ∃ mirror', (keyedTail id itemSchema index offset new).foldlM (applyChange config) mirror = .ok mirror' ∧
      mirror'.Continues id before new := by
  induction new generalizing mirror before offset with
  | nil => exact ⟨mirror, rfl, [], by simpa using hholds, rfl⟩
  | cons item new ih =>
    obtain ⟨mirror', tree, hinsert, hregistry', hholds', heq⟩ :=
      hscan.insert item List.mem_cons_self mirror before [] hregistry (by simpa using hholds)
    have hindex' : (index : Int) + (offset + 1) = (before ++ [tree]).length := by
      simp only [List.length_append, List.length_singleton]
      omega
    obtain ⟨final, hfold, hcontinues⟩ := ih hscan.newTail hregistry' hholds' hindex'
    refine ⟨final, ?_, hcontinues.cons heq⟩
    rw [keyedTail, signed_eq hindex, List.foldlM_cons, hinsert]
    exact hfold

/-- The old items the new list has no counterpart for stay where they are. -/
theorem Mirror.Continues.rest {trees : List Tree} (hholds : mirror.HoldsList id (before ++ trees)) :
    mirror.Continues id before (trees.map Tree.toJson) := by
  refine ⟨trees, hholds, Value.deepEqualItems_refl ?_⟩
  rw [Value.wfItems_iff]
  intro item hitem
  obtain ⟨tree, _, rfl⟩ := List.mem_map.mp hitem
  exact Tree.toJson_wf tree

theorem keyedScan_nil (view : View) (sel : IdSelector) (known : List String) (items : List Value)
    (index : Nat) (offset : Int) :
    keyedScan view diffChild id itemSchema sel known index items offset [] = .ok [] := by
  induction items generalizing index with
  | nil => rfl
  | cons item items ih => exact ih (index + 1)

theorem unreached_nil {α κ : Type} [DecidableEq κ] (key : α → κ) (known : List κ) (items : List α) :
    unreached key known items [] = items := by
  induction items with
  | nil => rfl
  | cons item items ih => simp [unreached, unreachedFrom, ih]

theorem foldlM_append_ok {changes more : List Change} {mirror' mirror'' : Mirror L}
    (hfirst : changes.foldlM (applyChange config) mirror = .ok mirror')
    (hmore : more.foldlM (applyChange config) mirror' = .ok mirror'') :
    (changes ++ more).foldlM (applyChange config) mirror = .ok mirror'' := by
  rw [List.foldlM_append, hfirst]
  exact hmore

/-- The scan, applied, leaves the new list and behind it what was not reached. -/
theorem apply_keyedScan {view : View} {sel : IdSelector} {known : List String} {trees : List Tree}
    {new : List Value} {index : Nat} {offset : Int} (htype : id.containerType = .list)
    (hscan : Scannable L config id itemSchema registered diffChild sel trees new)
    (hregistry : mirror.registry id = registered) (hholds : mirror.HoldsList id (before ++ trees))
    (hindex : (index : Int) + offset = before.length)
    (hview : ∀ k tree, trees[k]? = some tree → view.itemContainer id (index + k) = tree.id?) :
    ∃ changes mirror', keyedScan view diffChild id itemSchema sel known index (trees.map Tree.toJson)
        offset new = .ok changes ∧
      changes.foldlM (applyChange config) mirror = .ok mirror' ∧
      mirror'.Continues id before (new ++ unreached sel.key known (trees.map Tree.toJson) new) := by
  induction trees generalizing mirror before index offset new with
  | nil =>
    obtain ⟨mirror', hfold, hcontinues⟩ :=
      apply_keyedTail hscan hregistry (by simpa using hholds) hindex
    exact ⟨_, mirror', rfl, hfold, by simpa [unreached] using hcontinues⟩
  | cons tree trees ih =>
    have hviewTail : ∀ k t, trees[k]? = some t → view.itemContainer id (index + 1 + k) = t.id? := by
      intro k t hget
      rw [Nat.add_assoc, Nat.add_comm 1 k]
      exact hview (k + 1) t (by simpa using hget)
    -- What follows once the old item has been settled as `settled`.
    have hnext : ∀ {mirror : Mirror L} {before : List Tree} {offset : Int} {settled : Tree} {item : Value}
        {new : List Value}, Scannable L config id itemSchema registered diffChild sel trees new →
        mirror.registry id = registered → mirror.HoldsList id (before ++ settled :: trees) →
        (index : Int) + offset = before.length → settled.toJson.deepEqual item = true →
        ∃ changes mirror', keyedScan view diffChild id itemSchema sel known (index + 1)
            (trees.map Tree.toJson) offset new = .ok changes ∧
          changes.foldlM (applyChange config) mirror = .ok mirror' ∧
          mirror'.Continues id before
            (item :: (new ++ unreached sel.key known (trees.map Tree.toJson) new)) := by
      intro mirror before offset settled item new hscan hregistry hholds hindex heq
      have hindex' : ((index + 1 : Nat) : Int) + offset = (before ++ [settled]).length := by
        simp only [List.length_append, List.length_singleton]
        omega
      obtain ⟨changes, mirror', hchanges, hfold, hcontinues⟩ :=
        ih hscan hregistry (by simpa using hholds) hindex' hviewTail
      exact ⟨changes, mirror', hchanges, hfold, hcontinues.cons heq⟩
    induction new generalizing mirror before offset with
    | nil =>
      refine ⟨[], mirror, keyedScan_nil view sel known _ index offset, rfl, ?_⟩
      rw [List.nil_append, unreached_nil]
      exact Continues.rest hholds
    | cons item new ihNew =>
      have hsigned := signed_eq hindex
      simp only [List.map_cons, keyedScan, keyedItem, unreached, unreachedFrom]
      by_cases heq : tree.toJson.deepEqual item = true
      · have hkey : sel.key tree.toJson = sel.key item := by
          rw [IdSelector.key, hscan.respects tree List.mem_cons_self item List.mem_cons_self heq, IdSelector.key]
        rw [if_pos heq, if_pos hkey]
        exact hnext hscan.tail.newTail hregistry hholds hindex heq
      · obtain ⟨oldId, hold⟩ := Option.isSome_iff_exists.mp (hscan.oldIds tree List.mem_cons_self)
        obtain ⟨newId, hnew⟩ := Option.isSome_iff_exists.mp (hscan.newIds item List.mem_cons_self)
        have holdKey : sel.key tree.toJson = oldId := by simp [IdSelector.key, hold]
        have hnewKey : sel.key item = newId := by simp [IdSelector.key, hnew]
        rw [if_neg heq, holdKey, hnewKey]
        simp only [hold, hnew]
        by_cases hsame : oldId = newId
        · rw [if_pos hsame, if_pos hsame]
          have hcontainer : view.itemContainer id index = tree.id? := by simpa using hview 0 tree rfl
          rw [hcontainer]
          cases hchild : tree.id? with
          | none =>
            -- A plain item is replaced.
            obtain ⟨middle, inserted, hreplace, hregistry', hholds', hitem⟩ :=
              apply_replacement (.inl htype) (hscan.insert item List.mem_cons_self) hregistry hholds
            obtain ⟨changes, mirror', hchanges, hfold, hcontinues⟩ :=
              hnext hscan.tail.newTail hregistry' hholds' hindex hitem
            refine ⟨_, mirror', by rw [hchanges]; rfl, ?_, hcontinues⟩
            rw [hsigned]
            exact foldlM_append_ok hreplace hfold
          | some child =>
            obtain ⟨first, hfirst, happly⟩ := hscan.recurse tree List.mem_cons_self item List.mem_cons_self
              child hchild (by rw [hold, hnew, hsame]) (Bool.eq_false_iff.mpr heq)
            obtain ⟨middle, tree', hfold', hregistry', hholds', hitem⟩ := happly mirror before trees hregistry hholds
            obtain ⟨changes, mirror', hchanges, hfold, hcontinues⟩ :=
              hnext hscan.tail.newTail hregistry' hholds' hindex hitem
            refine ⟨first ++ changes, mirror', ?_, foldlM_append_ok hfold' hfold, hcontinues⟩
            simp only [hfirst]
            rw [hchanges]
            rfl
        · rw [if_neg hsame, if_neg hsame]
          by_cases hunknown : newId ∉ known
          · rw [if_pos hunknown, if_pos hunknown]
            obtain ⟨middle, inserted, hinsert, hregistry', hholds', hitem⟩ :=
              hscan.insert item List.mem_cons_self mirror before (tree :: trees) hregistry hholds
            have hindex' : (index : Int) + (offset + 1) = (before ++ [inserted]).length := by
              simp only [List.length_append, List.length_singleton]
              omega
            obtain ⟨changes, mirror', hchanges, hfold, hcontinues⟩ :=
              ihNew hscan.newTail hregistry' (by simpa using hholds') hindex'
            refine ⟨insertAt id itemSchema before.length item :: changes, mirror', ?_, ?_, ?_⟩
            · rw [hsigned]
              simp only [List.map_cons, keyedScan] at hchanges
              rw [hchanges]
              rfl
            · rw [List.foldlM_cons, hinsert]
              exact hfold
            · exact hcontinues.cons hitem
          · rw [if_neg hunknown, if_neg hunknown]
            obtain ⟨doc, hdelete, hgone⟩ := @applyChange_deleteAt L config _ _ _ _ (.inl htype) _ hholds
            have hindex' : ((index + 1 : Nat) : Int) + (offset - 1) = before.length := by omega
            obtain ⟨changes, mirror', hchanges, hfold, hcontinues⟩ :=
              @ih { mirror with doc } _ _ _ _ hscan.tail hregistry hgone hindex' hviewTail
            refine ⟨deleteAt id before.length :: changes, mirror', ?_, ?_, hcontinues⟩
            · rw [hsigned, hchanges]
              rfl
            · rw [List.foldlM_cons, hdelete]
              exact hfold

theorem length_eq_of_deepEqualItems {items other : List Value}
    (h : Value.deepEqualItems items other = true) : items.length = other.length := by
  induction items generalizing other with
  | nil => cases other with
    | nil => rfl
    | cons => cases h
  | cons item items ih =>
    cases other with
    | nil => cases h
    | cons first other =>
      simp only [Value.deepEqualItems, Bool.and_eq_true] at h
      simp [ih h.2]

/-- The ids of a list's items. -/
def itemIds (sel : IdSelector) (items : List Value) : List String := items.filterMap (selectId sel)

theorem itemIds_eq_map {sel : IdSelector} {items : List Value}
    (h : ∀ item ∈ items, (selectId sel item).isSome) : itemIds sel items = items.map sel.key := by
  induction items with
  | nil => rfl
  | cons item items ih =>
    obtain ⟨id, hid⟩ := Option.isSome_iff_exists.mp (h item List.mem_cons_self)
    have hrest := ih fun i hi => h i (List.mem_cons_of_mem _ hi)
    rw [itemIds] at hrest
    simp [itemIds, IdSelector.key, hid, hrest]

/-- The differences of two lists with distinct ids, applied in order, always apply; they leave the new
list exactly where the old one is empty, its last item is kept, or the kept items change their
order. -/
theorem diffListWithIdSelector_complete_iff {sel : IdSelector} {trees : List Tree} {new : List Value}
    (htype : id.containerType = .list) (hholds : mirror.HoldsList id trees)
    (hscan : Scannable L config id itemSchema (mirror.registry id) diffChild sel trees new)
    (hdistinct : (itemIds sel (trees.map Tree.toJson)).Nodup) :
    ∃ changes mirror' items, diffListWithIdSelector mirror.view diffChild (trees.map Tree.toJson) new id
        itemSchema sel = .ok changes ∧
      changes.foldlM (applyChange config) mirror = .ok mirror' ∧ mirror'.HoldsList id items ∧
      (Value.deepEqualItems (items.map Tree.toJson) new = true ↔
        trees = [] ∨
          (∃ last ∈ (itemIds sel (trees.map Tree.toJson)).getLast?, last ∈ itemIds sel new) ∨
          ¬ ((itemIds sel new).filter (· ∈ itemIds sel (trees.map Tree.toJson))).Sublist
            (itemIds sel (trees.map Tree.toJson))) := by
  have hview : ∀ k tree, trees[k]? = some tree → mirror.view.itemContainer id (0 + k) = tree.id? := by
    intro k tree hget
    have hcontainer : mirror.view.container id = some (.list id trees) := hholds
    simp [View.itemContainer, hcontainer, hget]
  obtain ⟨changes, mirror', hchanges, hfold, items, hitems, hequal⟩ :=
    @apply_keyedScan L config id itemSchema _ mirror [] _ _ sel (itemIds sel (trees.map Tree.toJson)) trees new 0 0
      htype hscan rfl hholds rfl hview
  refine ⟨changes, mirror', items, hchanges, hfold, hitems, ?_⟩
  have hold : ∀ item ∈ trees.map Tree.toJson, (selectId sel item).isSome := by
    intro item hitem
    obtain ⟨tree, htree, rfl⟩ := List.mem_map.mp hitem
    exact hscan.oldIds tree htree
  have holdIds := itemIds_eq_map hold
  have hnewIds := itemIds_eq_map hscan.newIds
  have hleft := @unreached_eq_nil_iff _ _ _ sel.key (itemIds sel (trees.map Tree.toJson))
    (trees.map Tree.toJson) (holdIds ▸ hdistinct)
    (fun item hitem => by rw [holdIds]; exact List.mem_map_of_mem hitem) new
  rw [← holdIds, ← hnewIds, List.map_eq_nil_iff] at hleft
  rw [← hleft]
  constructor
  · intro heq
    have hlength := (length_eq_of_deepEqualItems hequal).symm.trans (length_eq_of_deepEqualItems heq)
    rw [List.length_append] at hlength
    exact List.length_eq_zero_iff.mp (by omega)
  · intro hnil
    rwa [hnil, List.append_nil] at hequal

end

/-! ## Two items -/

def named (id : String) : Value := .obj [("id", .str id)]

def namedBy : IdSelector := fun item => (item.get "id").bind Value.asStr

def namedId : ContainerID := .root "items" .list

/-- A document with one list of two items. -/
def namedMirror : Mirror referenceLoro where
  doc := ⟨[.list namedId [plain (named "a"), plain (named "b")]], by decide⟩
  state := .obj [("items", .arr [named "a", named "b"])]
  registry := fun _ => none

theorem namedMirror_holds : namedMirror.HoldsList namedId [plain (named "a"), plain (named "b")] := by
  rfl

/-- The two items change places. -/
theorem diffListWithIdSelector_complete_swapped :
    ∃ changes mirror' items, diffListWithIdSelector namedMirror.view (fun _ _ _ _ => .ok [])
        ([plain (named "a"), plain (named "b")].map Tree.toJson) [named "b", named "a"] namedId none
        namedBy = .ok changes ∧
      changes.foldlM (Mirror.applyChange ⟨none, true, {}⟩) namedMirror = .ok mirror' ∧
      mirror'.HoldsList namedId items ∧
      (Value.deepEqualItems (items.map Tree.toJson) [named "b", named "a"] = true ↔
        [plain (named "a"), plain (named "b")] = [] ∨
          (∃ last ∈ (itemIds namedBy ([plain (named "a"), plain (named "b")].map Tree.toJson)).getLast?,
            last ∈ itemIds namedBy [named "b", named "a"]) ∨
          ¬ ((itemIds namedBy [named "b", named "a"]).filter
              (· ∈ itemIds namedBy ([plain (named "a"), plain (named "b")].map Tree.toJson))).Sublist
            (itemIds namedBy ([plain (named "a"), plain (named "b")].map Tree.toJson))) := by
  have hwf : ∀ id, (named id).WF := fun id => by simp [named, Value.WF, Value.WFEntries, KeyMap.Sorted]
  refine diffListWithIdSelector_complete_iff rfl namedMirror_holds ⟨?_, ?_, ?_, ?_, ?_⟩ (by decide)
  · decide
  · decide
  · decide
  · intro item hitem
    refine insertRight_plain (.inl rfl) (plainItem_none item) ?_
    rcases List.mem_pair.mp hitem with rfl | rfl
    · exact hwf "b"
    · exact hwf "a"
  · intro tree htree item _ child hchild
    rcases List.mem_pair.mp htree with rfl | rfl <;> cases hchild

/-- The last item goes: nothing is emitted, and it stays. -/
theorem diffListWithIdSelector_last_stays :
    ¬ ∃ changes mirror' items, diffListWithIdSelector namedMirror.view (fun _ _ _ _ => .ok [])
        ([plain (named "a"), plain (named "b")].map Tree.toJson) [named "a"] namedId none
        namedBy = .ok changes ∧
      changes.foldlM (Mirror.applyChange ⟨none, true, {}⟩) namedMirror = .ok mirror' ∧
      mirror'.HoldsList namedId items ∧
      Value.deepEqualItems (items.map Tree.toJson) [named "a"] = true := by
  rintro ⟨changes, mirror', items, hchanges, hfold, hitems, hequal⟩
  have hnone : diffListWithIdSelector namedMirror.view (fun _ _ _ _ => .ok [])
      ([plain (named "a"), plain (named "b")].map Tree.toJson) [named "a"] namedId none namedBy = .ok [] := by
    rfl
  obtain rfl := Except.ok.inj (hnone.symm.trans hchanges)
  obtain rfl := Except.ok.inj hfold
  obtain rfl := hitems.unique namedMirror_holds
  exact absurd hequal (by decide)

end Zulangue.VtMirror
