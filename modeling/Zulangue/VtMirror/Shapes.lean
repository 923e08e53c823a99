import Zulangue.VtMirror.Becomes
import Zulangue.VtMirror.Blocks
import Zulangue.VtMirror.Keyed

/-!
# What a stored value can become

Below a map without a schema the mirror writes plain values, lists of plain values and maps. Which new
values the differences bring such a tree to depends on the child containers it has.
-/

namespace Zulangue.VtMirror

open Zulangue.Lib Mirror

/-- Neither an array nor an object. -/
def isScalar (value : Value) : Bool := !(value.isObject || value.isArray)

mutual

/-- The value can take the place of the tree: a child list takes an array that is at most one item
shorter, a child map an object whose fields take the place of its own. -/
def Takes : Tree → Value → Prop
  | .leaf _, _ => True
  | .cell _ _, _ => True
  | .list _ items, value => isScalar value ∨ ∃ newItems, value = .arr newItems ∧ items.length ≤ newItems.length + 1
  | .map _ entries, value => isScalar value ∨ ∃ newEntries, value = .obj newEntries ∧ TakesEntries entries newEntries

def TakesEntries : List (String × Tree) → List (String × Value) → Prop
  | [], _ => True
  | (key, tree) :: entries, newEntries =>
    (∀ item, KeyMap.get key newEntries = some item → Takes tree item) ∧ TakesEntries entries newEntries

end

theorem takesEntries_iff {entries : List (String × Tree)} (h : KeyMap.Sorted entries) (newEntries : List (String × Value)) :
    TakesEntries entries newEntries ↔ ∀ key tree item, KeyMap.get key entries = some tree →
      KeyMap.get key newEntries = some item → Takes tree item := by
  induction entries with
  | nil => simp [TakesEntries]
  | cons entry entries ih =>
    obtain ⟨k, value⟩ := entry
    rw [TakesEntries, ih h.tail]
    constructor
    · rintro ⟨hhead, htail⟩ key tree item hget hitem
      by_cases hkey : key = k
      · subst hkey
        rw [KeyMap.get_cons, if_pos rfl] at hget
        obtain rfl := Option.some.inj hget
        exact hhead item hitem
      · rw [KeyMap.get_cons, if_neg hkey] at hget
        exact htail key tree item hget hitem
    · intro hall
      refine ⟨fun item hitem => hall k value item (by simp [KeyMap.get]) hitem, fun key tree item hget hitem => ?_⟩
      have hkey : key ≠ k := by
        rintro rfl
        rw [h.get_head] at hget
        cases hget
      exact hall key tree item (by rw [KeyMap.get_cons, if_neg hkey, hget]) hitem

/-! ## Equal values -/

/-- What is stored at a key and what is wanted there. -/
def Meets : Option Tree → Option Value → Prop
  | some tree, some item => tree.toJson.deepEqual item = true
  | none, none => True
  | _, _ => False

theorem deepEqualEntries_iff {entries : List (String × Value)} {other : List (String × Value)} :
    Value.deepEqualEntries entries other = true ↔
      ∀ entry ∈ entries, ∃ item, KeyMap.get entry.1 other = some item ∧ entry.2.deepEqual item = true := by
  induction entries with
  | nil => simp [Value.deepEqualEntries]
  | cons entry entries ih =>
    obtain ⟨key, value⟩ := entry
    rw [Value.deepEqualEntries, Bool.and_eq_true, ih, List.forall_mem_cons]
    apply and_congr_left'
    cases KeyMap.get key other <;> simp

theorem deepEqual_map_iff {id : ContainerID} {entries : List (String × Tree)} {other : List (String × Value)}
    (h : KeyMap.Sorted entries) (h' : KeyMap.Sorted other) :
    (Tree.toJson (.map id entries)).deepEqual (.obj other) = true ↔
      ∀ key, Meets (KeyMap.get key entries) (KeyMap.get key other) := by
  rw [Tree.toJson_map h, Value.deepEqual, Bool.and_eq_true, deepEqualEntries_iff, beq_iff_eq]
  have hlength : (KeyMap.mapValues Tree.toJson entries).length = (entries.map (·.1)).length := by
    simp [KeyMap.mapValues]
  have hlength' : other.length = (other.map (·.1)).length := by simp
  rw [hlength, hlength']
  constructor
  · rintro ⟨hsize, hall⟩
    have hsub : entries.map (·.1) ⊆ other.map (·.1) := by
      intro key hkey
      obtain ⟨tree, hget⟩ := KeyMap.mem_keys_iff.mp hkey
      obtain ⟨item, hitem, -⟩ := hall (key, tree.toJson) (List.mem_map_of_mem (KeyMap.mem_of_get hget))
      exact KeyMap.mem_keys_iff.mpr ⟨item, hitem⟩
    have hperm := (List.subperm_of_subset h.keys_nodup hsub).perm_of_length_le (Nat.le_of_eq hsize.symm)
    intro key
    cases hget : KeyMap.get key entries with
    | some tree =>
      obtain ⟨item, hitem, hequal⟩ := hall (key, tree.toJson) (List.mem_map_of_mem (KeyMap.mem_of_get hget))
      rw [hitem]
      exact hequal
    | none =>
      cases hother : KeyMap.get key other with
      | none => trivial
      | some item =>
        obtain ⟨tree, htree⟩ := KeyMap.mem_keys_iff.mp (hperm.symm.subset (KeyMap.mem_keys_iff.mpr ⟨item, hother⟩))
        cases hget.symm.trans htree
  · intro hall
    have hkeys : ∀ key, key ∈ entries.map (·.1) ↔ key ∈ other.map (·.1) := by
      intro key
      rw [KeyMap.mem_keys_iff, KeyMap.mem_keys_iff]
      have hkey := hall key
      cases hget : KeyMap.get key entries <;> cases hother : KeyMap.get key other <;>
        simp [hget, hother, Meets] at hkey ⊢
    constructor
    · exact ((List.perm_ext_iff_of_nodup h.keys_nodup h'.keys_nodup).mpr hkeys).length_eq
    · intro entry hentry
      obtain ⟨⟨key, tree⟩, hmem, rfl⟩ := List.mem_map.mp hentry
      have hkey := hall key
      rw [h.get_of_mem hmem] at hkey
      cases hother : KeyMap.get key other with
      | none =>
        rw [hother] at hkey
        cases hkey
      | some item =>
        rw [hother] at hkey
        exact ⟨item, rfl, hkey⟩

theorem takes_of_deepEqual {tree : Tree} (h : Written tree) : ∀ {value : Value}, value.WF →
    tree.toJson.deepEqual value = true → Takes tree value := by
  induction h with
  | leaf value => exact fun _ _ => trivial
  | @list id items _ _ =>
    intro value _ hequal
    rw [Tree.toJson, Tree.toJsonItems_eq_map] at hequal
    cases value with
    | arr newItems =>
      have hlength := length_eq_of_deepEqualItems hequal
      simp only [List.length_map] at hlength
      exact .inr ⟨newItems, rfl, by simp only [List.length_map]; omega⟩
    | _ => simp [Value.deepEqual] at hequal
  | @map id entries _ hsorted _ _ ih =>
    intro value hwf hequal
    cases value with
    | obj newEntries =>
      refine .inr ⟨newEntries, rfl, ?_⟩
      rw [takesEntries_iff hsorted]
      intro key tree item hget hitem
      have hmeets := (deepEqual_map_iff hsorted hwf.1).mp hequal key
      rw [hget, hitem] at hmeets
      exact ih _ (KeyMap.mem_of_get hget) ((Value.wf_obj_iff.mp hwf).2 _ (KeyMap.mem_of_get hitem)) hmeets
    | _ =>
      rw [Tree.toJson] at hequal
      simp [Value.deepEqual] at hequal

/-! ## Applying changes -/

section
variable {L : Loro} {config : Config} {mirror : Mirror L} {c : ContainerID}

/-- The changes bring the container's tree to the value exactly if it takes the value; they fail only if
it does not. -/
def Reaches (L : Loro) (config : Config) (c : ContainerID) (tree : Tree) (value : Value) (changes : List Change) :
    Prop :=
  ∀ mirror : Mirror L, mirror.At c tree → (∀ d ∈ tree.ids, mirror.getContainerSchema d = none) →
    (∀ error, (ordered changes).foldlM (applyChange config) mirror = .error error → ¬ Takes tree value) ∧
    ∀ mirror', (ordered changes).foldlM (applyChange config) mirror = .ok mirror' →
      ∃ tree' : Tree, tree'.id? = some c ∧ mirror.Becomes c tree' mirror' ∧ Written tree' ∧
        (tree'.toJson.deepEqual value = true ↔ Takes tree value)

/-- The call behind an edit, and nothing outside the list changed. -/
theorem edit_becomes {edit : ListEdit Tree} {op : Op} {items next : List Tree} (hat : mirror.At c (.list c items))
    (hop : editOp c edit op) (hrun : edit.run items = some next) :
    ∃ doc, mirror.call op = .ok { mirror with doc } ∧ mirror.Becomes c (.list c next) { mirror with doc } := by
  obtain ⟨rfl, heffect⟩ := @editOp_effect _ items (L.nextId mirror.doc) _ _ hop
  rw [hrun] at heffect
  exact call_becomes op hat heffect

/-- Changes of plain items change nothing outside their list. -/
theorem foldlM_edits_becomes {changes : List Change} {edits : List (ListEdit Tree)} {items next : List Tree}
    (hedits : changes.map Change.edit? = edits.map some) (hmove : ∀ change ∈ changes, change.isMove = false)
    (hat : mirror.At c (.list c items)) (hrun : ListEdit.runAll edits items = some next) :
    ∃ doc, changes.foldlM (applyListChange config false c) mirror = .ok { mirror with doc } ∧
      mirror.Becomes c (.list c next) { mirror with doc } := by
  induction changes generalizing edits mirror items with
  | nil =>
    obtain rfl : edits = [] := by simpa using hedits.symm
    obtain rfl := Option.some.inj hrun
    exact ⟨mirror.doc, rfl, Becomes.refl hat⟩
  | cons change changes ih =>
    cases edits with
    | nil => cases hedits
    | cons edit edits =>
      simp only [List.map_cons, List.cons.injEq] at hedits
      have hstill := hmove change List.mem_cons_self
      obtain ⟨op, hop, happly⟩ := @applyListChange_edit L c config false _ _ hedits.1
        (fun hmoves => absurd hmoves (by simp [hstill])) mirror
      rw [ListEdit.runAll_cons] at hrun
      cases hfirst : edit.run items with
      | none =>
        rw [hfirst] at hrun
        cases hrun
      | some middle =>
        rw [hfirst] at hrun
        obtain ⟨doc, hcall, hbecomes⟩ := edit_becomes hat hop hfirst
        obtain ⟨doc', hrest, hbecomes'⟩ := @ih { mirror with doc } _ _ hedits.2
          (fun c hc => hmove c (List.mem_cons_of_mem _ hc)) (hbecomes.at hat rfl) hrun
        refine ⟨doc', ?_, hbecomes.trans rfl hbecomes'⟩
        rw [List.foldlM_cons, happly, hcall]
        exact hrest

theorem deepEqualItems_chosen {old new : List Value} (hold : ∀ item ∈ old, stored item = item) (hnew : Value.WFItems new) :
    Value.deepEqualItems (((old.zip new).map (fun pair => plain (chosen pair)) ++
      (new.drop old.length).map plain).map Tree.toJson) new = true := by
  induction old generalizing new with
  | nil =>
    rw [List.zip_nil_left, List.length_nil, List.drop_zero, List.map_nil, List.nil_append, List.map_map]
    exact stored_deepEqualItems hnew
  | cons item old ih =>
    cases new with
    | nil => rfl
    | cons newItem new =>
      have hrest := ih (fun i hi => hold i (List.mem_cons_of_mem _ hi)) hnew.2
      have hfirst : (Tree.toJson (plain (chosen (item, newItem)))).deepEqual newItem = true := by
        unfold chosen
        by_cases hequal : item.deepEqual newItem = true
        · rw [if_pos hequal]
          change (stored item).deepEqual newItem = true
          rw [hold item List.mem_cons_self]
          exact hequal
        · rw [if_neg hequal]
          exact stored_deepEqual hnew.1
      simp only [List.zip_cons_cons, List.map_cons, List.cons_append, List.length_cons, List.drop_succ_cons,
        Value.deepEqualItems, hfirst, Bool.true_and]
      exact hrest

theorem written_chosen (htype : c.containerType = .list) {old new : List Value} (hold : ∀ item ∈ old, stored item = item)
    (hnew : (Value.arr new).WF) :
    Written (.list c ((old.zip new).map (fun pair => plain (chosen pair)) ++ (new.drop old.length).map plain)) := by
  have hitems : (old.zip new).map (fun pair => plain (chosen pair)) ++ (new.drop old.length).map plain =
      ((old.zip new).map chosen ++ new.drop old.length).map plain := by
    rw [List.map_append, List.map_map]
    rfl
  rw [hitems]
  refine .list htype fun item hitem => ?_
  rcases List.mem_append.mp hitem with hzip | hdrop
  · obtain ⟨pair, hpair, rfl⟩ := List.mem_map.mp hzip
    obtain ⟨hfirst, hsecond⟩ := List.of_mem_zip hpair
    unfold chosen
    split
    · rw [← hold _ hfirst]
      exact loroToJson_wf _
    · exact Value.wf_arr_iff.mp hnew _ hsecond
  · exact Value.wf_arr_iff.mp hnew _ (List.mem_of_mem_drop hdrop)

/-- A list of plain values. -/
theorem reaches_list (hrefuses : L.Refuses) (htype : c.containerType = .list) {view : View} {items newItems : List Value}
    {diffChild : Value → Value → ContainerID → Option Schema → Except DiffError (List Change)}
    (hview : view.container c = some (.list c (items.map plain))) (hstored : ∀ item ∈ items, stored item = item)
    (hwf : (Value.arr newItems).WF) :
    ∃ changes, diffList view diffChild items newItems c none = .ok changes ∧
      (∀ change ∈ changes, change.container = some c) ∧
      Reaches L config c (.list c (items.map plain)) (.arr newItems) changes := by
  obtain ⟨changes, hchanges, hon, hedits⟩ := @diffList_edits view diffChild c none items newItems hview
    (fun item _ => plainItem_none item)
  refine ⟨changes, hchanges, fun change hchange => (hon change hchange).1, ?_⟩
  intro mirror hat _
  have htakes : Takes (.list c (items.map plain)) (.arr newItems) ↔ items.length ≤ newItems.length + 1 := by
    simp [Takes, isScalar, Value.isArray]
  have happly : (ordered changes).foldlM (applyChange config) mirror =
      changes.foldlM (applyListChange config false c) mirror := by
    rw [ordered_same fun change hchange => (hon change hchange).1,
      ← applyBucket_eq fun change hchange => (hon change hchange).1]
    simp only [applyBucket, applyContainerChanges, htype]
  have hrun := runAll_positionalEdits items newItems
  rw [happly, htakes]
  by_cases hshort : items.length ≤ newItems.length + 1
  · rw [if_pos hshort] at hrun
    obtain ⟨doc, hfold, hbecomes⟩ := @foldlM_edits_becomes L config mirror c _ _ _ _ hedits
      (fun change hchange => (hon change hchange).2) hat hrun
    rw [hfold]
    refine ⟨fun error herror => (by cases herror), fun mirror' hok => ?_⟩
    obtain rfl := Except.ok.inj hok
    refine ⟨_, rfl, hbecomes, written_chosen htype hstored hwf, iff_of_true ?_ hshort⟩
    rw [Tree.toJson, Tree.toJsonItems_eq_map]
    exact deepEqualItems_chosen hstored hwf
  · rw [if_neg hshort] at hrun
    obtain ⟨error, herror⟩ := (@foldlM_applyListChange L mirror c (items.map plain) config false _ _ hedits
      (fun change hchange hmoves => absurd hmoves (by simp [(hon change hchange).2])) hat.container).2 hrefuses hrun
    rw [herror]
    exact ⟨fun _ _ => hshort, fun mirror' hok => (by cases hok)⟩

end

end Zulangue.VtMirror
