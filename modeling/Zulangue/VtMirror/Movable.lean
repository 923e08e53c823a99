import Zulangue.VtMirror.Survivors

/-!
# Movable lists in a new order

The changes of `diff_movable_list`, applied one after the other to the list they were made for.
-/

namespace Zulangue.VtMirror

open Zulangue.Lib Mirror

section
variable {L : Loro} {config : Config} {id : ContainerID} {itemSchema : Option Schema}
  {registered : Option (Option Schema)} {mirror : Mirror L} {done : List Tree}
  {diffChild : Value → Value → ContainerID → Option Schema → Except DiffError (List Change)}

theorem Mirror.foldlM_movable (htype : id.containerType = .movableList) {changes : List Change}
    (hcontainer : ∀ change ∈ changes, change.container = some id) :
    changes.foldlM (applyChange config) mirror = changes.foldlM (applyListChange config true id) mirror := by
  rw [← applyBucket_eq hcontainer]
  simp only [applyBucket, applyContainerChanges, htype]

/-- The differences of a child container bring it to the item; it stays the same container, and nothing
else of the list changes. -/
def RecursionKeeps (L : Loro) (config : Config) (id : ContainerID) (itemSchema : Option Schema)
    (registered : Option (Option Schema))
    (diffChild : Value → Value → ContainerID → Option Schema → Except DiffError (List Change))
    (tree : Tree) (child : ContainerID) (item : Value) : Prop :=
  ∃ changes, diffChild tree.toJson item child itemSchema = .ok changes ∧
    ∀ (mirror : Mirror L) (before after : List Tree), mirror.registry id = registered →
      mirror.HoldsList id (before ++ tree :: after) →
      ∃ mirror' tree', changes.foldlM (applyChange config) mirror = .ok mirror' ∧
        mirror'.registry id = registered ∧ mirror'.HoldsList id (before ++ tree' :: after) ∧
        tree'.toJson.deepEqual item = true ∧ tree'.id? = some child

/-! ## Insertions -/

section
variable {standing : Value → Option Tree}

/-- What stands where an item is wanted: what survives of it, else an equal one. -/
structure Placed (standing : Value → Option Tree) (tree : Tree) (item : Value) : Prop where
  survives : ∀ survivor, standing item = some survivor → tree = survivor
  inserted : standing item = none → tree.toJson.deepEqual item = true

def insertChanges (standing : Value → Option Tree) (id : ContainerID) (itemSchema : Option Schema) (start : Nat)
    (items : List Value) : List Change :=
  (items.zipIdx start).filterMap fun entry =>
    if (standing entry.1).isSome then none else some (insertAt id itemSchema entry.2 entry.1)

/-- Insertions at ascending places, between the survivors in their new order. -/
theorem apply_insertChanges {items : List Value}
    (hinsert : ∀ item ∈ items, InsertRight L config id itemSchema registered item)
    (hregistry : mirror.registry id = registered) (hholds : mirror.HoldsList id (done ++ items.filterMap standing)) :
    ∃ mirror' placed,
      (insertChanges standing id itemSchema done.length items).foldlM (applyChange config) mirror = .ok mirror' ∧
      mirror'.registry id = registered ∧ mirror'.HoldsList id (done ++ placed) ∧
      List.Forall₂ (Placed standing) placed items := by
  induction items generalizing mirror done with
  | nil => exact ⟨mirror, [], rfl, hregistry, hholds, .nil⟩
  | cons item items ih =>
    have hrest := fun i hi => hinsert i (List.mem_cons_of_mem item hi)
    -- What follows once `tree` stands in the item's place.
    have hnext : ∀ {mirror : Mirror L} {tree : Tree}, mirror.registry id = registered →
        mirror.HoldsList id (done ++ tree :: items.filterMap standing) → Placed standing tree item →
        ∃ mirror' placed,
          (insertChanges standing id itemSchema (done.length + 1) items).foldlM (applyChange config) mirror =
            .ok mirror' ∧
          mirror'.registry id = registered ∧ mirror'.HoldsList id (done ++ placed) ∧
          List.Forall₂ (Placed standing) placed (item :: items) := by
      intro mirror tree hregistry hholds hplaced
      obtain ⟨mirror', placed, hfold, hregistry', hholds', hall⟩ :=
        @ih mirror (done ++ [tree]) hrest hregistry (by simpa using hholds)
      rw [List.length_append] at hfold
      exact ⟨mirror', tree :: placed, hfold, hregistry', by simpa using hholds', .cons hplaced hall⟩
    unfold insertChanges at hnext ⊢
    cases hstanding : standing item with
    | some survivor =>
      rw [List.filterMap_cons_some hstanding] at hholds
      simp only [List.zipIdx_cons, List.filterMap_cons, hstanding, Option.isSome_some, if_true]
      apply hnext hregistry hholds
      refine ⟨fun other hother => ?_, fun hnone => ?_⟩
      · exact Option.some.inj (hstanding.symm.trans hother)
      · cases hnone.symm.trans hstanding
    | none =>
      rw [List.filterMap_cons_none hstanding] at hholds
      simp only [List.zipIdx_cons, List.filterMap_cons, hstanding, Option.isSome_none, Bool.false_eq_true, if_false]
      obtain ⟨middle, tree, happly, hregistry', hholds', hequal⟩ :=
        hinsert item List.mem_cons_self mirror done _ hregistry hholds
      rw [List.foldlM_cons, happly]
      apply hnext hregistry' hholds'
      refine ⟨fun other hother => ?_, fun _ => hequal⟩
      cases hother.symm.trans hstanding

/-! ## Updates -/

/-- What stands for an item in the end. -/
structure Settled (standing : Value → Option Tree) (tree : Tree) (item : Value) : Prop where
  equal : tree.toJson.deepEqual item = true
  same : ∀ survivor child, standing item = some survivor → survivor.id? = some child → tree.id? = some child

/-- The changes that bring a survivor up to date. -/
def updateChanges (view : View)
    (diffChild : Value → Value → ContainerID → Option Schema → Except DiffError (List Change)) (id : ContainerID)
    (itemSchema : Option Schema) (info : CommonItem) : Except DiffError (List Change) :=
  if info.oldItem.deepEqual info.newItem then .ok []
  else
    match view.itemContainer id info.oldIndex with
    | some child => diffChild info.oldItem info.newItem child itemSchema
    | none => .ok [deleteAt id info.newIndex, insertAt id itemSchema info.newIndex info.newItem]

/-- One survivor, brought up to date in its new place. -/
theorem apply_updateChanges_one {view : View} {info : CommonItem} {tree : Tree} {after : List Tree}
    (htype : id.containerType = .movableList) (hitem : info.oldItem = tree.toJson)
    (hview : view.itemContainer id info.oldIndex = tree.id?) (hplace : info.newIndex = done.length)
    (hinsert : InsertRight L config id itemSchema registered info.newItem)
    (hrecurse : ∀ child, tree.id? = some child → tree.toJson.deepEqual info.newItem = false →
      RecursionKeeps L config id itemSchema registered diffChild tree child info.newItem)
    (hregistry : mirror.registry id = registered) (hholds : mirror.HoldsList id (done ++ tree :: after)) :
    ∃ changes mirror' tree', updateChanges view diffChild id itemSchema info = .ok changes ∧
      changes.foldlM (applyChange config) mirror = .ok mirror' ∧ mirror'.registry id = registered ∧
      mirror'.HoldsList id (done ++ tree' :: after) ∧ tree'.toJson.deepEqual info.newItem = true ∧
      ∀ child, tree.id? = some child → tree'.id? = some child := by
  unfold updateChanges
  rw [hitem, hview, hplace]
  cases hequal : tree.toJson.deepEqual info.newItem with
  | true => exact ⟨[], mirror, tree, rfl, rfl, hregistry, hholds, hequal, fun _ h => h⟩
  | false =>
    cases hchild : tree.id? with
    | some child =>
      obtain ⟨changes, hchanges, happly⟩ := hrecurse child hchild hequal
      obtain ⟨mirror', tree', hfold, hregistry', hholds', hequal', hsame⟩ := happly mirror done after hregistry hholds
      refine ⟨changes, mirror', tree', hchanges, hfold, hregistry', hholds', hequal', fun other hother => ?_⟩
      rwa [← hother]
    | none =>
      obtain ⟨mirror', tree', hreplace, hregistry', hholds', hequal'⟩ :=
        apply_replacement (.inr htype) hinsert hregistry hholds
      exact ⟨_, mirror', tree', rfl, hreplace, hregistry', hholds', hequal', fun _ h => by cases h⟩

/-- The survivors are brought up to date one after the other. -/
theorem apply_updateChanges {view : View} {found : Value → Option (Nat × Value)} {items : List Value} {placed : List Tree}
    (htype : id.containerType = .movableList)
    (hfound : ∀ item ∈ items, ∀ index oldItem, found item = some (index, oldItem) →
      ∃ tree, standing item = some tree ∧ oldItem = tree.toJson ∧ view.itemContainer id index = tree.id?)
    (hinserted : ∀ item ∈ items, found item = none → standing item = none)
    (hinsert : ∀ item ∈ items, InsertRight L config id itemSchema registered item)
    (hrecurse : ∀ item ∈ items, ∀ tree, standing item = some tree → ∀ child, tree.id? = some child →
      tree.toJson.deepEqual item = false →
      RecursionKeeps L config id itemSchema registered diffChild tree child item)
    (hplaced : List.Forall₂ (Placed standing) placed items) (hregistry : mirror.registry id = registered)
    (hholds : mirror.HoldsList id (done ++ placed)) :
    ∃ changes mirror' settled,
      collectChanges (updateChanges view diffChild id itemSchema) ((items.zipIdx done.length).filterMap fun entry =>
        (found entry.1).map fun found => ⟨found.1, entry.2, found.2, entry.1⟩) = .ok changes ∧
      changes.foldlM (applyChange config) mirror = .ok mirror' ∧ mirror'.HoldsList id (done ++ settled) ∧
      List.Forall₂ (Settled standing) settled items := by
  induction hplaced generalizing mirror done with
  | nil => exact ⟨[], mirror, [], rfl, rfl, hholds, .nil⟩
  | @cons tree item placed items hhead hplaced ih =>
    replace ih := fun {mirror : Mirror L} {done : List Tree} => @ih mirror done
      (fun i hi => hfound i (List.mem_cons_of_mem _ hi)) (fun i hi => hinserted i (List.mem_cons_of_mem _ hi))
      (fun i hi => hinsert i (List.mem_cons_of_mem _ hi)) (fun i hi => hrecurse i (List.mem_cons_of_mem _ hi))
    -- What follows once `settled` stands in the item's place.
    have hnext : ∀ {mirror : Mirror L} {settled : Tree}, mirror.registry id = registered →
        mirror.HoldsList id (done ++ settled :: placed) → Settled standing settled item →
        ∃ changes mirror' all,
          collectChanges (updateChanges view diffChild id itemSchema)
            ((items.zipIdx (done.length + 1)).filterMap fun entry =>
              (found entry.1).map fun found => ⟨found.1, entry.2, found.2, entry.1⟩) = .ok changes ∧
          changes.foldlM (applyChange config) mirror = .ok mirror' ∧ mirror'.HoldsList id (done ++ all) ∧
          List.Forall₂ (Settled standing) all (item :: items) := by
      intro mirror settled hregistry hholds hsettled
      obtain ⟨changes, mirror', all, hchanges, hfold, hholds', hall⟩ :=
        @ih mirror (done ++ [settled]) hregistry (by simpa using hholds)
      rw [List.length_append] at hchanges
      exact ⟨changes, mirror', settled :: all, hchanges, hfold, by simpa using hholds', .cons hsettled hall⟩
    cases hfoundItem : found item with
    | none =>
      have hnone := hinserted item List.mem_cons_self hfoundItem
      simp only [List.zipIdx_cons, List.filterMap_cons, hfoundItem, Option.map_none]
      apply hnext hregistry hholds
      refine ⟨hhead.inserted hnone, fun survivor child hsurvivor => ?_⟩
      cases hsurvivor.symm.trans hnone
    | some entry =>
      obtain ⟨survivor, hstanding, hold, hview⟩ := hfound item List.mem_cons_self entry.1 entry.2 hfoundItem
      obtain rfl := hhead.survives survivor hstanding
      obtain ⟨first, middle, tree', hfirst, hfold, hregistry', hholds', hequal, hsame⟩ :=
        @apply_updateChanges_one L config id itemSchema registered mirror done diffChild view
          ⟨entry.1, done.length, entry.2, item⟩ tree placed htype hold hview rfl (hinsert item List.mem_cons_self)
          (hrecurse item List.mem_cons_self tree hstanding) hregistry hholds
      obtain ⟨changes, mirror', all, hchanges, hrest, hholds'', hall⟩ := hnext hregistry' hholds' (by
        refine ⟨hequal, fun other child hother => ?_⟩
        obtain rfl := Option.some.inj (hstanding.symm.trans hother)
        exact hsame child)
      simp only [List.zipIdx_cons, List.filterMap_cons, hfoundItem, Option.map_some, collectChanges, hfirst]
      rw [hchanges]
      exact ⟨_, mirror', all, rfl, foldlM_append_ok hfold hrest, hholds'', hall⟩

end

/-! ## The new order -/

/-- Two lists whose items have ids of their own, all the old ones among the new ones, with every
insertion and every recursive difference they call for done right. -/
structure Reordered (L : Loro) (config : Config) (id : ContainerID) (itemSchema : Option Schema)
    (registered : Option (Option Schema))
    (diffChild : Value → Value → ContainerID → Option Schema → Except DiffError (List Change))
    (sel : IdSelector) (trees : List Tree) (new : List Value) : Prop where
  oldIds : Identified sel (trees.map Tree.toJson)
  newIds : Identified sel new
  survive : ∀ tree ∈ trees, ∃ item ∈ new, selectId sel item = selectId sel tree.toJson
  respects : ∀ item ∈ new, ∀ value : Value, value.deepEqual item = true → selectId sel value = selectId sel item
  insert : ∀ item ∈ new, InsertRight L config id itemSchema registered item
  recurse : ∀ tree ∈ trees, ∀ item ∈ new, ∀ child, tree.id? = some child →
    selectId sel tree.toJson = selectId sel item → tree.toJson.deepEqual item = false →
    RecursionKeeps L config id itemSchema registered diffChild tree child item

section
variable {sel : IdSelector} {trees : List Tree} {new : List Value}

/-- The tree that survives of an item. -/
def survivingTree (sel : IdSelector) (trees : List Tree) (item : Value) : Option Tree :=
  (survivor sel (trees.map Tree.toJson) item).map fun found => trees.getD found.1 (plain .null)

theorem survivor_tree (h : Identified sel (trees.map Tree.toJson)) {item oldItem : Value} {index : Nat}
    (hid : (selectId sel item).isSome) (hfound : survivor sel (trees.map Tree.toJson) item = some (index, oldItem)) :
    ∃ tree, trees[index]? = some tree ∧ survivingTree sel trees item = some tree ∧ oldItem = tree.toJson ∧
      selectId sel tree.toJson = selectId sel item := by
  obtain ⟨hget, hsame⟩ := (survivor_eq_some_iff h hid).mp hfound
  rw [List.getElem?_map] at hget
  obtain ⟨tree, htree, rfl⟩ := Option.map_eq_some_iff.mp hget
  refine ⟨tree, htree, ?_, rfl, hsame⟩
  simp [survivingTree, hfound, htree]

/-- The old indices of the survivors are all the old indices. -/
theorem survivors_perm (h : Reordered L config id itemSchema registered diffChild sel trees new) :
    ((commonItems sel (trees.map Tree.toJson) new).map (·.oldIndex)).Nodup ∧
      ((commonItems sel (trees.map Tree.toJson) new).map (·.oldIndex)).Perm (List.range trees.length) := by
  have hnodup : ((commonItems sel (trees.map Tree.toJson) new).map (·.oldIndex)).Nodup := by
    have hkeys := h.newIds.distinct
    rw [itemIds_eq_map h.newIds.ids, List.Nodup, List.pairwise_map] at hkeys
    rw [commonItems_oldIndex, List.Nodup, List.pairwise_filterMap]
    apply hkeys.imp_of_mem
    intro first second hfirst hsecond hne i hi j hj heq
    subst heq
    obtain ⟨⟨k, oldItem⟩, hfound, rfl⟩ := Option.map_eq_some_iff.mp hi
    obtain ⟨⟨l, otherItem⟩, hother, hsame⟩ := Option.map_eq_some_iff.mp hj
    obtain rfl : l = k := hsame
    obtain ⟨tree, htree, -, -, hid⟩ := survivor_tree h.oldIds (h.newIds.ids first hfirst) hfound
    obtain ⟨other, hotherTree, -, -, hotherId⟩ := survivor_tree h.oldIds (h.newIds.ids second hsecond) hother
    obtain rfl := Option.some.inj (htree.symm.trans hotherTree)
    apply hne
    rw [IdSelector.key, IdSelector.key, ← hid, hotherId]
  refine ⟨hnodup, ?_⟩
  rw [List.perm_ext_iff_of_nodup hnodup List.nodup_range]
  intro index
  rw [commonItems_oldIndex, List.mem_filterMap, List.mem_range]
  constructor
  · rintro ⟨item, hitem, hindex⟩
    obtain ⟨⟨i, oldItem⟩, hfound, rfl⟩ := Option.map_eq_some_iff.mp hindex
    obtain ⟨tree, htree, -⟩ := survivor_tree h.oldIds (h.newIds.ids item hitem) hfound
    exact (List.getElem?_eq_some_iff.mp htree).1
  · intro hlt
    obtain ⟨item, hitem, hsame⟩ := h.survive trees[index] (List.getElem_mem hlt)
    refine ⟨item, hitem, ?_⟩
    have hget : (trees.map Tree.toJson)[index]? = some trees[index].toJson := by simp [hlt]
    have hfound := (survivor_eq_some_iff h.oldIds (h.newIds.ids item hitem)).mpr ⟨hget, hsame.symm⟩
    exact Option.map_eq_some_iff.mpr ⟨_, hfound, rfl⟩

theorem map_getD_range {α : Type} (items : List α) (default : α) :
    (List.range items.length).map (fun i => items.getD i default) = items := by
  apply List.ext_getElem
  · simp
  · intro i hi hi'
    simp [hi']

/-- The moves put the survivors in the new order. -/
theorem apply_moveChanges (htype : id.containerType = .movableList) (hholds : mirror.HoldsList id trees)
    (h : Reordered L config id itemSchema registered diffChild sel trees new)
    (hturn : MovesInTurn (commonItems sel (trees.map Tree.toJson) new)) :
    ∃ doc, (moveChanges id (commonItems sel (trees.map Tree.toJson) new)).foldlM (applyChange config) mirror =
        .ok { mirror with doc } ∧
      ({ mirror with doc } : Mirror L).HoldsList id (new.filterMap (survivingTree sel trees)) := by
  obtain ⟨hnodup, hperm⟩ := survivors_perm h
  have hmoves := moveChanges_edits hnodup hturn id
  generalize hcommon : commonItems sel (trees.map Tree.toJson) new = common at hturn hnodup hperm hmoves ⊢
  have hrun : ListEdit.runAll (ListEdit.moves (staying common) 0 (common.map (·.oldIndex))) trees =
      some (new.filterMap (survivingTree sel trees)) := by
    have hindices := @ListEdit.runAll_moves (staying common) trees.length [] (List.range trees.length)
      (common.map (·.oldIndex)) (List.Perm.refl _) List.pairwise_lt_range hperm (staying_ascending hnodup)
      (fun y hy => absurd hy List.not_mem_nil) (hturn.inTurn hnodup)
    have hmap := ListEdit.runAll_moves_map (fun i => trees.getD i (plain .null)) (staying common)
      (common.map (·.oldIndex)) 0 (List.range trees.length)
    rw [map_getD_range] at hmap
    simp only [List.nil_append, List.length_nil] at hindices
    rw [hmap, hindices, Option.map_some, ← hcommon, commonItems_oldIndex, List.map_filterMap]
    congr 1
    apply List.filterMap_congr
    intro item _
    rw [Option.map_map]
    rfl
  have hchange : ∀ change ∈ moveChanges id common, change.container = some id := by
    intro change hchange
    obtain ⟨entry, -, hsome⟩ := List.mem_filterMap.mp hchange
    split at hsome
    · obtain rfl := Option.some.inj hsome
      rfl
    · cases hsome
  rw [foldlM_movable htype hchange]
  exact (@foldlM_applyListChange L mirror id trees config true _ _ hmoves (fun _ _ _ => rfl) hholds).1 _ hrun

/-- The changes, with nothing to delete. -/
theorem diffMovableList_eq {view : View} (h : Reordered L config id itemSchema registered diffChild sel trees new)
    {updates : List Change} (hupdates : collectChanges (updateChanges view diffChild id itemSchema)
      (commonItems sel (trees.map Tree.toJson) new) = .ok updates) :
    diffMovableList view diffChild (trees.map Tree.toJson) new id itemSchema sel =
      .ok (moveChanges id (commonItems sel (trees.map Tree.toJson) new) ++
        insertChanges (survivingTree sel trees) id itemSchema 0 new ++ updates) := by
  have hdelete : deletionIndexes sel (trees.map Tree.toJson) new = [] := by
    apply deletionIndexes_eq_nil
    intro item hitem
    obtain ⟨tree, htree, rfl⟩ := List.mem_map.mp hitem
    exact h.survive tree htree
  have hinserts : (new.zipIdx.filterMap fun entry =>
      if ((selectId sel entry.1).bind (oldEntry sel (trees.map Tree.toJson))).isSome then none
      else some (insertAt id itemSchema entry.2 entry.1)) =
        insertChanges (survivingTree sel trees) id itemSchema 0 new := by
    apply List.filterMap_congr
    intro entry _
    rw [survivingTree, Option.isSome_map]
    rfl
  have hdiff : diffMovableList view diffChild (trees.map Tree.toJson) new id itemSchema sel =
      (collectChanges (updateChanges view diffChild id itemSchema)
        (commonItems sel (trees.map Tree.toJson) new)).bind fun updates =>
          .ok ((deletionIndexes sel (trees.map Tree.toJson) new).map (deleteAt id) ++
            moveChanges id (commonItems sel (trees.map Tree.toJson) new) ++
            insertChanges (survivingTree sel trees) id itemSchema 0 new ++ updates) := by
    rw [← hinserts]
    rfl
  rw [hdiff, hupdates, hdelete]
  rfl

theorem deepEqualItems_of_settled {standing : Value → Option Tree} {items : List Tree} {new : List Value}
    (h : List.Forall₂ (Settled standing) items new) : Value.deepEqualItems (items.map Tree.toJson) new = true := by
  induction h with
  | nil => rfl
  | cons hhead _ ih => simp [Value.deepEqualItems, hhead.equal, ih]

theorem itemIds_of_settled {standing : Value → Option Tree} {items : List Tree} {new : List Value}
    (hrespects : ∀ item ∈ new, ∀ value : Value, value.deepEqual item = true → selectId sel value = selectId sel item)
    (h : List.Forall₂ (Settled standing) items new) : itemIds sel (items.map Tree.toJson) = itemIds sel new := by
  induction h with
  | nil => rfl
  | @cons tree item items new hhead _ ih =>
    have hid := hrespects item List.mem_cons_self tree.toJson hhead.equal
    have hrest := ih fun i hi => hrespects i (List.mem_cons_of_mem _ hi)
    unfold itemIds at hrest ⊢
    rw [List.map_cons, List.filterMap_cons, List.filterMap_cons, hid, hrest]

/-- Where the moves are in turn, the differences of two lists, the new one with all the old ids, always
apply; they leave the new list, and every survivor the container that it was. -/
theorem diffMovableList_realises (htype : id.containerType = .movableList) (hholds : mirror.HoldsList id trees)
    (h : Reordered L config id itemSchema (mirror.registry id) diffChild sel trees new)
    (hturn : MovesInTurn (commonItems sel (trees.map Tree.toJson) new)) :
    ∃ changes mirror' items, diffMovableList mirror.view diffChild (trees.map Tree.toJson) new id itemSchema sel =
        .ok changes ∧
      changes.foldlM (applyChange config) mirror = .ok mirror' ∧ mirror'.HoldsList id items ∧
      itemIds sel (items.map Tree.toJson) = itemIds sel new ∧
      Value.deepEqualItems (items.map Tree.toJson) new = true ∧
      ∀ tree ∈ trees, ∀ child, tree.id? = some child → ∀ (place : Nat) item, new[place]? = some item →
        selectId sel item = selectId sel tree.toJson → (items[place]?.bind IdTree.id?) = some child := by
  obtain ⟨doc, hmoves, hmoved⟩ := @apply_moveChanges L config _ _ _ mirror _ _ _ _ htype hholds h hturn
  obtain ⟨middle, placed, hinserts, hregistry, hplaced, hall⟩ :=
    @apply_insertChanges L config id itemSchema (mirror.registry id) { mirror with doc } [] _ new h.insert rfl hmoved
  have hcontainer : mirror.view.container id = some (.list id trees) := hholds
  have hfound : ∀ item ∈ new, ∀ index oldItem, survivor sel (trees.map Tree.toJson) item = some (index, oldItem) →
      ∃ tree, survivingTree sel trees item = some tree ∧ oldItem = tree.toJson ∧
        mirror.view.itemContainer id index = tree.id? := by
    intro item hitem index oldItem hsurvivor
    obtain ⟨tree, htree, hstanding, hold, -⟩ := survivor_tree h.oldIds (h.newIds.ids item hitem) hsurvivor
    exact ⟨tree, hstanding, hold, by simp [View.itemContainer, hcontainer, htree]⟩
  have hstanding : ∀ item ∈ new, ∀ tree, survivingTree sel trees item = some tree →
      tree ∈ trees ∧ selectId sel tree.toJson = selectId sel item := by
    intro item hitem tree hsurviving
    obtain ⟨⟨index, oldItem⟩, hsurvivor, -⟩ := Option.map_eq_some_iff.mp hsurviving
    obtain ⟨other, hother, hsame, -, hid⟩ := survivor_tree h.oldIds (h.newIds.ids item hitem) hsurvivor
    obtain rfl := Option.some.inj (hsurviving.symm.trans hsame)
    exact ⟨List.mem_of_getElem? hother, hid⟩
  obtain ⟨updates, mirror', items, hupdates, hfold, hitems, hsettled⟩ :=
    @apply_updateChanges L config id itemSchema (mirror.registry id) middle [] diffChild (survivingTree sel trees)
      mirror.view (survivor sel (trees.map Tree.toJson)) new placed htype hfound
      (fun item _ hnone => by rw [survivingTree, hnone]; rfl) h.insert
      (fun item hitem tree hsurviving child hchild hdiffers => by
        obtain ⟨hmem, hid⟩ := hstanding item hitem tree hsurviving
        exact h.recurse tree hmem item hitem child hchild hid hdiffers)
      hall hregistry hplaced
  rw [List.length_nil, ← commonItems_eq] at hupdates
  refine ⟨_, mirror', items, diffMovableList_eq h hupdates, ?_, hitems, itemIds_of_settled h.respects hsettled,
    deepEqualItems_of_settled hsettled, ?_⟩
  · exact foldlM_append_ok (foldlM_append_ok hmoves hinserts) hfold
  · intro tree htree child hchild place item hitem hid
    obtain ⟨index, hindex, hget⟩ := List.getElem_of_mem htree
    have hold : (trees.map Tree.toJson)[index]? = some tree.toJson := by simp [hindex, hget]
    have hsurvivor := (survivor_eq_some_iff h.oldIds (h.newIds.ids item (List.mem_of_getElem? hitem))).mpr
      ⟨hold, hid.symm⟩
    have hsurviving : survivingTree sel trees item = some tree := by simp [survivingTree, hsurvivor, hindex, hget]
    obtain ⟨hplace, rfl⟩ := List.getElem?_eq_some_iff.mp hitem
    have hplace' : place < items.length := hsettled.length_eq ▸ hplace
    rw [List.getElem?_eq_getElem hplace', Option.bind_some]
    exact (hsettled.get hplace' hplace).same tree child hsurviving hchild

end

end

/-! ## Three items -/

def shelfId : ContainerID := .root "shelf" .movableList

/-- A document with one movable list of three items. -/
def shelfMirror : Mirror referenceLoro where
  doc := ⟨[.list shelfId [plain (named "a"), plain (named "b"), plain (named "c")]], by decide⟩
  state := .obj [("shelf", .arr [named "a", named "b", named "c"])]
  registry := fun _ => none

theorem shelfMirror_holds :
    shelfMirror.HoldsList shelfId [plain (named "a"), plain (named "b"), plain (named "c")] := by
  rfl

theorem eq_named {value : Value} {id : String} (h : value.deepEqual (named id) = true) : value = named id := by
  unfold named at h
  cases value with
  | obj entries =>
    match entries with
    | [] => simp [Value.deepEqual] at h
    | [(key, item)] =>
      simp only [Value.deepEqual, Bool.and_eq_true] at h
      obtain ⟨found, hfound, hitem⟩ := Value.deepEqualEntries_get h.2
        (show KeyMap.get key [(key, item)] = some item by simp [KeyMap.get])
      unfold KeyMap.get at hfound
      split at hfound
      next hkey =>
        obtain rfl := Option.some.inj hfound
        have hstr : item = .str id := by
          cases item <;> simp_all [Value.deepEqual]
        rw [hkey, hstr]
        rfl
      · cases hfound
    | _ :: _ :: _ => simp [Value.deepEqual] at h
  | _ => simp [Value.deepEqual] at h

/-- The last item comes first, and a new one is put at the end. -/
theorem diffMovableList_realises_rotated :
    ∃ changes mirror' items, diffMovableList shelfMirror.view (fun _ _ _ _ => .ok [])
        ([plain (named "a"), plain (named "b"), plain (named "c")].map Tree.toJson)
        [named "c", named "a", named "b", named "d"] shelfId none namedBy = .ok changes ∧
      changes.foldlM (applyChange ⟨none, true, {}⟩) shelfMirror = .ok mirror' ∧
      mirror'.HoldsList shelfId items ∧
      itemIds namedBy (items.map Tree.toJson) = itemIds namedBy [named "c", named "a", named "b", named "d"] ∧
      Value.deepEqualItems (items.map Tree.toJson) [named "c", named "a", named "b", named "d"] = true ∧
      ∀ tree ∈ [plain (named "a"), plain (named "b"), plain (named "c")], ∀ child, tree.id? = some child →
        ∀ (place : Nat) item, [named "c", named "a", named "b", named "d"][place]? = some item →
          selectId namedBy item = selectId namedBy tree.toJson → (items[place]?.bind IdTree.id?) = some child := by
  have hnew : ∀ item ∈ [named "c", named "a", named "b", named "d"], ∃ id, item = named id := by
    intro item hitem
    simp only [List.mem_cons, List.not_mem_nil, or_false] at hitem
    rcases hitem with rfl | rfl | rfl | rfl <;> exact ⟨_, rfl⟩
  apply diffMovableList_realises rfl shelfMirror_holds
  · refine ⟨⟨?_, ?_⟩, ⟨?_, ?_⟩, ?_, ?_, ?_, ?_⟩
    · decide
    · decide
    · decide
    · decide
    · decide
    · intro item hitem value hequal
      obtain ⟨id, rfl⟩ := hnew item hitem
      rw [eq_named hequal]
    · intro item hitem
      obtain ⟨id, rfl⟩ := hnew item hitem
      exact insertRight_plain (.inr rfl) (plainItem_none _) (by simp [named, Value.WF, Value.WFEntries, KeyMap.Sorted])
    · intro tree htree item _ child hchild
      simp only [List.mem_cons, List.not_mem_nil, or_false] at htree
      rcases htree with rfl | rfl | rfl <;> cases hchild
  · exact ⟨by decide, by decide, by decide⟩

/-- Three items in reverse: the one in the middle keeps its index and is not moved, so it ends up last. -/
theorem diffMovableList_reversed :
    ¬ ∃ changes mirror' items, diffMovableList shelfMirror.view (fun _ _ _ _ => .ok [])
        ([plain (named "a"), plain (named "b"), plain (named "c")].map Tree.toJson)
        [named "c", named "b", named "a"] shelfId none namedBy = .ok changes ∧
      changes.foldlM (applyChange ⟨none, true, {}⟩) shelfMirror = .ok mirror' ∧
      mirror'.HoldsList shelfId items ∧
      itemIds namedBy (items.map Tree.toJson) = itemIds namedBy [named "c", named "b", named "a"] := by
  rintro ⟨changes, mirror', items, hchanges, hfold, hitems, hids⟩
  have hmove : diffMovableList shelfMirror.view (fun _ _ _ _ => .ok [])
      ([plain (named "a"), plain (named "b"), plain (named "c")].map Tree.toJson)
      [named "c", named "b", named "a"] shelfId none namedBy = .ok [moveChange shelfId ⟨2, 0, named "c", named "c"⟩] := by
    rfl
  obtain rfl := Except.ok.inj (hmove.symm.trans hchanges)
  obtain ⟨doc, hcall, hmoved⟩ := @call_edit referenceLoro shelfMirror shelfId _ (.move 2 0)
    (.listMove shelfId 2 0) _ shelfMirror_holds rfl rfl
  have happly : [moveChange shelfId ⟨2, 0, named "c", named "c"⟩].foldlM (applyChange ⟨none, true, {}⟩) shelfMirror =
      .ok { shelfMirror with doc } := by
    rw [List.foldlM_cons, applyChange_movable rfl rfl]
    change (shelfMirror.call (.listMove shelfId 2 0)).bind _ = _
    rw [hcall]
    rfl
  obtain rfl := Except.ok.inj (happly.symm.trans hfold)
  obtain rfl := hitems.unique hmoved
  exact absurd hids (by decide)

end Zulangue.VtMirror
