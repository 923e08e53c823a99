import Zulangue.VtMirror.PlainEdits

/-!
# Lists without ids

`diff_list` compares position by position. Items of the old list that the new one has no position
for are deleted at ascending positions, as if the list did not close up behind each deletion.
-/

namespace Zulangue.VtMirror

open Zulangue.Lib Mirror

/-- An item that the item schema leaves a plain value. -/
def PlainItem (itemSchema : Option Schema) (item : Value) : Prop :=
  ∀ container index, (insertAt container itemSchema index item).kind = .insert

theorem plainItem_none (item : Value) : PlainItem none item := fun _ _ => rfl

theorem tryUpdateToInsertContainer_insert {change : Change} {toUpdate : Bool} {schema : Option Schema}
    (h : (tryUpdateToInsertContainer change toUpdate schema).kind = .insert) :
    tryUpdateToInsertContainer change toUpdate schema = change := by
  unfold tryUpdateToInsertContainer at h ⊢
  split
  · rfl
  · split
    · rfl
    · simp_all only
      split <;> simp_all

theorem insertAt_plain {itemSchema : Option Schema} {item : Value} (h : PlainItem itemSchema item)
    (container : ContainerID) (index : Nat) :
    insertAt container itemSchema index item =
      { container := some container, key := .index index, value := some item, kind := .insert } :=
  tryUpdateToInsertContainer_insert (h container index)

/-! ## The script -/

section
variable {view : View}
  {diffChild : Value → Value → ContainerID → Option Schema → Except DiffError (List Change)}
  {container : ContainerID} {itemSchema : Option Schema} {old new : List Value}

/-- What is put in the place of an item. -/
def updateEdits (index : Nat) (oldItem newItem : Value) : List (ListEdit Tree) :=
  if oldItem.deepEqual newItem then [] else [.delete index, .insert index (plain newItem)]

def positionalEdits (old new : List Value) : List (ListEdit Tree) :=
  ((old.zip new).mapIdx fun index pair => updateEdits index pair.1 pair.2).flatten ++
    (List.range' new.length (old.length - new.length)).map .delete ++
    (new.drop old.length).mapIdx fun i item => .insert (old.length + i) (plain item)

theorem itemContainer_plain (hview : view.container container = some (.list container (old.map plain)))
    (index : Nat) : view.itemContainer container index = none := by
  simp only [View.itemContainer, hview, List.getElem?_map]
  cases old[index]? <;> rfl

/-- The changes at one position. -/
def positionalUpdate (container : ContainerID) (itemSchema : Option Schema) (index : Nat)
    (oldItem newItem : Value) : List Change :=
  if oldItem.deepEqual newItem then []
  else [deleteAt container index, insertAt container itemSchema index newItem]

theorem diffList_plain (hview : view.container container = some (.list container (old.map plain))) :
    diffList view diffChild old new container itemSchema =
      .ok (((old.zip new).mapIdx fun index pair =>
          positionalUpdate container itemSchema index pair.1 pair.2).flatten ++
        (List.range' new.length (old.length - new.length)).map (deleteAt container) ++
        (new.drop old.length).mapIdx fun i item =>
          insertAt container itemSchema (old.length + i) item) := by
  unfold diffList
  rw [@collectChanges_ok _ _ fun entry : Nat × Value × Value =>
    positionalUpdate container itemSchema entry.1 entry.2.1 entry.2.2]
  · simp only [List.flatMap_def, List.mapIdx_eq_zipIdx_map, List.map_map]
    rfl
  · rintro ⟨index, oldItem, newItem⟩ _
    simp only [positionalUpdate, itemContainer_plain hview]
    split <;> rfl

/-- The changes of a list of plain items, one edit each. -/
theorem diffList_edits (hview : view.container container = some (.list container (old.map plain)))
    (hplain : ∀ item ∈ new, PlainItem itemSchema item) :
    ∃ changes, diffList view diffChild old new container itemSchema = .ok changes ∧
      (∀ change ∈ changes, change.container = some container ∧ change.isMove = false) ∧
      changes.map Change.edit? = (positionalEdits old new).map some := by
  refine ⟨_, diffList_plain hview, ?_, ?_⟩
  · intro change hchange
    rcases List.mem_append.mp hchange with hchange | hinsert
    · rcases List.mem_append.mp hchange with hupdates | hdelete
      · obtain ⟨changes, hchanges, hmem⟩ := List.mem_flatten.mp hupdates
        obtain ⟨i, hi, rfl⟩ := List.mem_mapIdx.mp hchanges
        have hitem : PlainItem itemSchema (old.zip new)[i].2 :=
          hplain _ (List.of_mem_zip (List.getElem_mem hi)).2
        unfold positionalUpdate at hmem
        split at hmem
        · cases hmem
        · rcases List.mem_pair.mp hmem with rfl | rfl
          · exact ⟨rfl, rfl⟩
          · rw [insertAt_plain hitem]
            exact ⟨rfl, rfl⟩
      · obtain ⟨index, _, rfl⟩ := List.mem_map.mp hdelete
        exact ⟨rfl, rfl⟩
    · obtain ⟨i, hi, rfl⟩ := List.mem_mapIdx.mp hinsert
      have hitem : PlainItem itemSchema (new.drop old.length)[i] :=
        hplain _ (List.mem_of_mem_drop (List.getElem_mem hi))
      rw [insertAt_plain hitem]
      exact ⟨rfl, rfl⟩
  · simp only [positionalEdits, List.map_append, List.map_flatten, List.mapIdx_eq_zipIdx_map, List.map_map]
    congr 1
    · congr 2
      refine List.map_congr_left fun entry hentry => ?_
      have hitem := hplain _ (List.of_mem_zip (List.fst_mem_of_mem_zipIdx hentry)).2
      simp only [Function.comp_apply, positionalUpdate, updateEdits]
      split
      · rfl
      · rw [insertAt_plain hitem]
        rfl
    · refine List.map_congr_left fun entry hentry => ?_
      have hitem := hplain _ (List.mem_of_mem_drop (List.fst_mem_of_mem_zipIdx hentry))
      simp only [Function.comp_apply]
      rw [insertAt_plain hitem]
      rfl

end

/-! ## What the script leaves -/

theorem map_fst_zip_take {α β : Type} (as : List α) (bs : List β) :
    (as.zip bs).map Prod.fst = as.take bs.length := by
  induction as generalizing bs with
  | nil => simp
  | cons a as ih =>
    cases bs with
    | nil => rfl
    | cons b bs => simp [ih]

/-- What stands at a position both lists have. -/
def chosen (pair : Value × Value) : Value :=
  if pair.1.deepEqual pair.2 then pair.1 else pair.2

theorem map_snd_zip_take {α β : Type} (as : List α) (bs : List β) :
    (as.zip bs).map Prod.snd = bs.take as.length := by
  induction as generalizing bs with
  | nil => simp
  | cons a as ih =>
    cases bs with
    | nil => rfl
    | cons b bs => simp [ih]

theorem runAll_updateEdits (oldItem newItem : Value) (before after : List Tree) :
    ListEdit.runAll (updateEdits before.length oldItem newItem) (before ++ plain oldItem :: after) =
      some (before ++ plain (chosen (oldItem, newItem)) :: after) := by
  by_cases heq : oldItem.deepEqual newItem
  · simp [updateEdits, chosen, heq]
  · simp [updateEdits, chosen, heq, ListEdit.run_delete, ListEdit.run_insert]

/-- Positions both lists have are settled one after the other. -/
theorem runAll_updates (pairs : List (Value × Value)) (before after : List Tree) :
    ListEdit.runAll
        (pairs.mapIdx fun i pair => updateEdits (before.length + i) pair.1 pair.2).flatten
        (before ++ pairs.map (fun pair => plain pair.1) ++ after) =
      some (before ++ pairs.map (fun pair => plain (chosen pair)) ++ after) := by
  induction pairs generalizing before with
  | nil => rfl
  | cons pair pairs ih =>
    have hfirst := runAll_updateEdits pair.1 pair.2 before (pairs.map (fun pair => plain pair.1) ++ after)
    have hrest := ih (before ++ [plain (chosen pair)])
    simp only [List.length_append, List.length_singleton, List.append_assoc, List.singleton_append,
      Nat.add_assoc, Nat.add_comm 1] at hrest
    simp only [List.mapIdx_cons, List.flatten_cons, ListEdit.runAll_append, List.map_cons,
      List.append_assoc, List.cons_append, Nat.add_zero]
    rw [hfirst, Option.bind_some]
    exact hrest

theorem runAll_positionalEdits (old new : List Value) :
    ListEdit.runAll (positionalEdits old new) (old.map plain) =
      if old.length ≤ new.length + 1 then
        some ((old.zip new).map (fun pair => plain (chosen pair)) ++ (new.drop old.length).map plain)
      else none := by
  have hold : old.map plain =
      [] ++ (old.zip new).map (fun pair => plain pair.1) ++ (old.drop new.length).map plain := by
    have hzip : (old.zip new).map (fun pair => plain pair.1) = (old.take new.length).map plain := by
      rw [← map_fst_zip_take, List.map_map]
      rfl
    rw [List.nil_append, hzip, ← List.map_append, List.take_append_drop]
  have hupdates := runAll_updates (old.zip new) [] ((old.drop new.length).map plain)
  simp only [List.length_nil, Nat.zero_add, List.nil_append] at hupdates hold
  rw [positionalEdits, ListEdit.runAll_append, ListEdit.runAll_append, hold, hupdates, Option.bind_some]
  rcases Nat.lt_or_ge new.length old.length with hlt | hge
  · have hnone : new.drop old.length = [] := List.drop_eq_nil_of_le hlt.le
    have hlen : ((old.zip new).map fun pair => plain (chosen pair)).length = new.length := by
      simp [hlt.le]
    by_cases hone : old.length = new.length + 1
    · obtain ⟨last, hlast⟩ : ∃ last, old.drop new.length = [last] :=
        List.length_eq_one_iff.mp (by rw [List.length_drop]; omega)
      have hcount : old.length - new.length = 1 := by omega
      have hdelete := ListEdit.run_delete ((old.zip new).map fun pair => plain (chosen pair)) [] (plain last)
      rw [hlen] at hdelete
      rw [List.append_nil] at hdelete
      rw [if_pos (by omega), hcount, hlast, hnone]
      simp [hdelete]
    · have hfail := @ListEdit.runAll_ascending_deletes _
        ((old.zip new).map (fun pair => plain (chosen pair)) ++ (old.drop new.length).map plain)
        new.length (old.length - new.length) (by omega)
        (by simp only [List.length_append, hlen, List.length_map, List.length_drop]; omega)
      have hlong : ¬ old.length ≤ new.length + 1 := by omega
      rw [hfail, if_neg hlong]
      rfl
  · have hcount : old.length - new.length = 0 := by omega
    have hshort : old.length ≤ new.length + 1 := by omega
    have hlen : ((old.zip new).map fun pair => plain (chosen pair)).length = old.length := by
      simp [hge]
    have hinserts := ListEdit.runAll_inserts ((old.zip new).map fun pair => plain (chosen pair))
      ((new.drop old.length).map plain)
    rw [if_pos hshort, hcount, List.drop_eq_nil_of_le hge]
    simp only [List.mapIdx_eq_zipIdx_map, List.zipIdx_map, List.map_map, hlen] at hinserts ⊢
    simpa [Function.comp_def] using hinserts

/-- The script leaves the new list where the old one is at most one longer and what passes for
equal is stored alike. -/
theorem runAll_positionalEdits_iff (old new : List Value) :
    ListEdit.runAll (positionalEdits old new) (old.map plain) = some (new.map plain) ↔
      old.length ≤ new.length + 1 ∧ ∀ pair ∈ old.zip new,
        pair.1.deepEqual pair.2 = true → jsonToLoro pair.1 = jsonToLoro pair.2 := by
  have hnew : new.map plain = (old.zip new).map (fun pair => plain pair.2) ++ (new.drop old.length).map plain := by
    have hzip : (old.zip new).map (fun pair => plain pair.2) = (new.take old.length).map plain := by
      rw [← map_snd_zip_take, List.map_map]
      rfl
    rw [hzip, ← List.map_append, List.take_append_drop]
  have hpair : ∀ pair : Value × Value, plain (chosen pair) = plain pair.2 ↔
      (pair.1.deepEqual pair.2 = true → jsonToLoro pair.1 = jsonToLoro pair.2) := by
    intro pair
    by_cases heq : pair.1.deepEqual pair.2
    · simp [chosen, heq, plain]
    · simp [chosen, heq]
  rw [runAll_positionalEdits]
  by_cases hshort : old.length ≤ new.length + 1
  · rw [if_pos hshort, Option.some.injEq, hnew, List.append_left_inj]
    simp only [hshort, true_and, List.map_inj_left, hpair]
  · simp [hshort]

/-! ## The differences of lists -/

section
variable {L : Loro} {config : Config} {mirror : Mirror L} {id : ContainerID} {itemSchema : Option Schema}
  {old new : List Value}
  {diffChild : Value → Value → ContainerID → Option Schema → Except DiffError (List Change)}

/-- The differences, applied, do what the script does. -/
theorem diffList_applies_iff (hrefuses : L.Refuses) (htype : id.containerType = .list)
    (hold : mirror.HoldsList id (old.map plain)) (hplain : ∀ item ∈ new, PlainItem itemSchema item)
    (next : List Tree) :
    (∃ changes mirror', diffList mirror.view diffChild old new id itemSchema = .ok changes ∧
        mirror.applyChangesToLoro config changes = .ok mirror' ∧ mirror'.HoldsList id next) ↔
      ListEdit.runAll (positionalEdits old new) (old.map plain) = some next := by
  obtain ⟨changes, hchanges, hon, hedits⟩ := @diffList_edits _ diffChild _ _ _ _ hold hplain
  have happly := @applyChangesToLoro_edits L mirror id _ config false hrefuses _ _ next
    htype (fun c hc => (hon c hc).1) hedits
    (fun c hc hmove => absurd hmove (by simp [(hon c hc).2])) hold
  rw [← happly]
  constructor
  · rintro ⟨changes', mirror', hdiff, happly, hnew⟩
    obtain rfl := Except.ok.inj (hchanges.symm.trans hdiff)
    exact ⟨mirror', happly, hnew⟩
  · rintro ⟨mirror', happly, hnew⟩
    exact ⟨changes, mirror', hchanges, happly, hnew⟩

/-- Applying the differences of two lists of plain values leaves the new one exactly where no more
than one item goes and what passes for equal is stored alike. -/
theorem diffList_complete_iff (hrefuses : L.Refuses) (htype : id.containerType = .list)
    (hold : mirror.HoldsList id (old.map plain)) (hplain : ∀ item ∈ new, PlainItem itemSchema item) :
    (∃ changes mirror', diffList mirror.view diffChild old new id itemSchema = .ok changes ∧
        mirror.applyChangesToLoro config changes = .ok mirror' ∧
        mirror'.HoldsList id (new.map plain)) ↔
      old.length ≤ new.length + 1 ∧ ∀ pair ∈ old.zip new,
        pair.1.deepEqual pair.2 = true → jsonToLoro pair.1 = jsonToLoro pair.2 := by
  rw [diffList_applies_iff hrefuses htype hold hplain, runAll_positionalEdits_iff]

end

def countingItems (n : Nat) : List Value := (List.range n).map fun i => .num (.int i)

def countingId : ContainerID := .root "items" .list

/-- A document with one list of the first three numbers. -/
def countingMirror : Mirror referenceLoro where
  doc := ⟨[.list countingId ((countingItems 3).map plain)], by decide⟩
  state := .obj [("items", .arr (countingItems 3))]
  registry := fun _ => none

theorem countingMirror_holds : countingMirror.HoldsList countingId ((countingItems 3).map plain) := by
  rfl

/-- One number goes. -/
theorem diffList_complete_shorter :
    ∃ changes mirror', diffList countingMirror.view (fun _ _ _ _ => .ok []) (countingItems 3)
        (countingItems 2) countingId none = .ok changes ∧
      countingMirror.applyChangesToLoro ⟨none, true, {}⟩ changes = .ok mirror' ∧
      mirror'.HoldsList countingId ((countingItems 2).map plain) := by
  refine (diffList_complete_iff referenceLoro_refuses rfl countingMirror_holds
    fun item _ => plainItem_none item).mpr ⟨by decide, fun pair hpair _ => ?_⟩
  have heq : ∀ pair ∈ (countingItems 3).zip (countingItems 2), pair.1 = pair.2 := by
    simp [countingItems, List.range_succ]
  rw [heq pair hpair]

/-- Two numbers go: the second deletion is behind the end. -/
theorem diffList_two_shorter :
    ¬ ∃ changes mirror', diffList countingMirror.view (fun _ _ _ _ => .ok []) (countingItems 3)
        (countingItems 1) countingId none = .ok changes ∧
      countingMirror.applyChangesToLoro ⟨none, true, {}⟩ changes = .ok mirror' ∧
      mirror'.HoldsList countingId ((countingItems 1).map plain) := by
  rw [diffList_applies_iff referenceLoro_refuses rfl countingMirror_holds fun item _ => plainItem_none item,
    runAll_positionalEdits_iff]
  exact fun h => absurd h.1 (by decide)

end Zulangue.VtMirror
