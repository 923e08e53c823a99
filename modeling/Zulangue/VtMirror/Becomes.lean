import Zulangue.VtMirror.Edit
import Zulangue.VtMirror.PlainEdits
import Zulangue.VtMirror.Stored

/-!
# A container and what becomes of it

Calls on a container, and on what is inside it, change the document there and nowhere else. Containers
made without a schema are registered without one, and hold plain values.
-/

namespace Zulangue.VtMirror

open Zulangue.Lib Mirror

/-! ## What is written -/

/-- What the mirror writes without a schema. -/
inductive Written : Tree → Prop
  | leaf (value : LoroValue) : Written (.leaf value)
  | list {id : ContainerID} {items : List Value} : id.containerType = .list → (∀ item ∈ items, item.WF) →
    Written (.list id (items.map plain))
  | map {id : ContainerID} {entries : List (String × Tree)} : id.containerType = .map → KeyMap.Sorted entries →
    (∀ entry ∈ entries, entry.1 ≠ "") → (∀ entry ∈ entries, Written entry.2) → Written (.map id entries)

/-- No object has an empty key, and no array more items than can be counted. -/
inductive Regular : Value → Prop
  | null : Regular .null
  | bool (b : Bool) : Regular (.bool b)
  | num (n : Number) : Regular (.num n)
  | str (s : String) : Regular (.str s)
  | arr {items : List Value} : items.length ≤ Word.u64Max → (∀ item ∈ items, Regular item) → Regular (.arr items)
  | obj {entries : List (String × Value)} : (∀ entry ∈ entries, entry.1 ≠ "") → (∀ entry ∈ entries, Regular entry.2) →
    Regular (.obj entries)

/-- Entries under which a map is written. -/
def WrittenEntries (entries : List (String × Tree)) : Prop := ∀ entry ∈ entries, entry.1 ≠ "" ∧ Written entry.2

theorem WrittenEntries.insert {entries : List (String × Tree)} (h : WrittenEntries entries) {key : String}
    (hkey : key ≠ "") {tree : Tree} (htree : Written tree) : WrittenEntries (KeyMap.insert key tree entries) := by
  intro entry hentry
  rcases KeyMap.mem_insert hentry with rfl | hmem
  · exact ⟨hkey, htree⟩
  · exact h entry hmem

theorem WrittenEntries.erase {entries : List (String × Tree)} (h : WrittenEntries entries) (key : String) :
    WrittenEntries (KeyMap.erase key entries) :=
  fun entry hentry => h entry ((KeyMap.erase_sublist key entries).subset hentry)

namespace Mirror

section
variable {L : Loro} {config : Config} {mirror mirror' mirror'' : Mirror L} {c d : ContainerID} {o new newer : Tree}

/-- The container `c` is `new` now, nothing outside it changed, and what was registered since has no
schema. -/
structure Becomes (mirror : Mirror L) (c : ContainerID) (new : Tree) (mirror' : Mirror L) : Prop where
  view : mirror'.view = IdTree.replaceItems c new mirror.view
  registry : ∀ d, mirror'.registry d = mirror.registry d ∨ mirror'.registry d = some none

theorem Becomes.refl (hat : mirror.At c o) : mirror.Becomes c o mirror where
  view := (IdTree.replaceItems_found mirror.view_nodup hat).symm
  registry _ := .inl rfl

theorem Becomes.at (h : mirror.Becomes c new mirror') (hat : mirror.At c o) (hid : new.id? = some c) :
    mirror'.At c new := by
  unfold At
  rw [h.view]
  exact IdTree.findItems_replaceItems hid hat.mem

theorem Becomes.trans (h : mirror.Becomes c new mirror') (hid : new.id? = some c)
    (h' : mirror'.Becomes c newer mirror'') : mirror.Becomes c newer mirror'' where
  view := by rw [h'.view, h.view, IdTree.replaceItems_replaceItems hid]
  registry d := by
    rcases h'.registry d with heq | heq
    · rw [heq]
      exact h.registry d
    · exact .inr heq

/-- What becomes of a container inside `c` becomes of `c` there. -/
theorem Becomes.inside {sub : Tree} (h : mirror.Becomes d new mirror') (hat : mirror.At c o)
    (hfind : IdTree.find? d o = some sub) : mirror.Becomes c (IdTree.replace d new o) mirror' where
  view := by
    rw [h.view]
    exact (IdTree.nestedItems new mirror.view_nodup hat (IdTree.mem_of_find? hfind)).2
  registry := h.registry

theorem Becomes.schema (h : mirror.Becomes c new mirror') (hnone : mirror.getContainerSchema d = none) :
    mirror'.getContainerSchema d = none := by
  unfold getContainerSchema at hnone ⊢
  rcases h.registry d with heq | heq
  · rw [heq, hnone]
  · rw [heq]
    rfl

theorem call_becomes (op : Op) {tree : Tree} (hat : mirror.At op.target tree)
    (heffect : op.effect (L.nextId mirror.doc) tree = some new) :
    ∃ doc, mirror.call op = .ok { mirror with doc } ∧ mirror.Becomes op.target new { mirror with doc } := by
  obtain ⟨doc, hcall, hview⟩ := Mirror.call_ok op hat.container heffect
  have hput : mirror.view.put op.target new = IdTree.replaceItems op.target new mirror.view := if_pos hat.mem
  exact ⟨doc, hcall, hview.trans hput, fun _ => .inl rfl⟩

/-! ## New containers with plain values -/

/-- A new map with the schema is filled without containers of its own. -/
def FillsPlainly (L : Loro) (config : Config) (c : ContainerID) (schema : Option Schema) : Prop :=
  ∀ (mirror : Mirror L) key value entries, initializeEntries config c schema ((key, value) :: entries) mirror =
    (mirror.call (.mapInsert c key (jsonToLoro value))).bind (initializeEntries config c schema entries)

theorem fillsPlainly_none : FillsPlainly L config c none := fun _ _ _ _ => rfl

/-- There the values are plain. -/
theorem initializeEntries_becomes {schema : Option Schema} (hplain : FillsPlainly L config c schema)
    {done entries : List (String × Value)} (hat : mirror.At c (.map c (KeyMap.mapValues plain done)))
    (hsorted : KeyMap.Sorted (done ++ entries)) :
    ∃ doc, initializeEntries config c schema entries mirror = .ok { mirror with doc } ∧
      mirror.Becomes c (.map c (KeyMap.mapValues plain (done ++ entries))) { mirror with doc } := by
  induction entries generalizing done mirror with
  | nil =>
    refine ⟨mirror.doc, rfl, ?_⟩
    rw [List.append_nil]
    exact Becomes.refl hat
  | cons entry entries ih =>
    obtain ⟨key, value⟩ := entry
    have hlast : KeyMap.insert key (plain value) (KeyMap.mapValues plain done) =
        KeyMap.mapValues plain (done ++ [(key, value)]) := by
      rw [KeyMap.insert_of_forall_lt]
      · simp [KeyMap.mapValues]
      · intro e he
        obtain ⟨first, hfirst, rfl⟩ := List.mem_map.mp he
        exact (List.pairwise_append.mp hsorted).2.2 first hfirst _ List.mem_cons_self
    obtain ⟨doc, hcall, hbecomes⟩ := @call_becomes L mirror _ (.mapInsert c key (jsonToLoro value)) _ hat rfl
    obtain ⟨doc', hrest, hbecomes'⟩ := @ih { mirror with doc } (done ++ [(key, value)])
      (by rw [← hlast]; exact hbecomes.at hat rfl) (by simpa using hsorted)
    refine ⟨doc', ?_, ?_⟩
    · rw [hplain, hcall]
      exact hrest
    · have htotal : mirror.Becomes c _ { mirror with doc := doc' } := hbecomes.trans rfl hbecomes'
      simpa using htotal

/-- Without a schema, a new list is filled with plain values. -/
theorem initializeItems_becomes {done items : List Value} (hat : mirror.At c (.list c (done.map plain))) :
    ∃ doc, initializeItems config c none done.length items mirror = .ok { mirror with doc } ∧
      mirror.Becomes c (.list c ((done ++ items).map plain)) { mirror with doc } := by
  induction items generalizing done mirror with
  | nil =>
    refine ⟨mirror.doc, rfl, ?_⟩
    rw [List.append_nil]
    exact Becomes.refl hat
  | cons item items ih =>
    have hlast : (done.map plain).insertIdx done.length (plain item) = (done ++ [item]).map plain := by
      have hend := ListEdit.insertIdx_append_length (done.map plain) [] (plain item)
      rw [List.append_nil, List.length_map] at hend
      rw [hend, List.map_append]
      rfl
    have heffect : (Op.listInsert c done.length (jsonToLoro item)).effect (L.nextId mirror.doc)
        (.list c (done.map plain)) = some (.list c ((done ++ [item]).map plain)) := by
      rw [← hlast]
      simp [Op.effect, plain]
    obtain ⟨doc, hcall, hbecomes⟩ := call_becomes (.listInsert c done.length (jsonToLoro item)) hat heffect
    have ih := @ih { mirror with doc } (done ++ [item]) (hbecomes.at hat rfl)
    rw [List.length_append] at ih
    obtain ⟨doc', hrest, hbecomes'⟩ := ih
    refine ⟨doc', ?_, ?_⟩
    · simp only [initializeItems, Option.any_none, Bool.false_and, Bool.false_eq_true, if_false, hcall]
      exact hrest
    · have htotal : mirror.Becomes c _ { mirror with doc := doc' } := hbecomes.trans rfl hbecomes'
      simpa using htotal

theorem deepEqual_plain_list {id : ContainerID} {items : List Value} (h : (Value.arr items).WF) :
    (Tree.toJson (.list id (items.map plain))).deepEqual (.arr items) = true := by
  have hstored := stored_deepEqual h
  rw [stored_arr] at hstored
  rw [Tree.toJson, Tree.toJsonItems_eq_map, List.map_map]
  exact hstored

theorem deepEqual_plain_map {id : ContainerID} {entries : List (String × Value)} (h : (Value.obj entries).WF) :
    (Tree.toJson (.map id (KeyMap.mapValues plain entries))).deepEqual (.obj entries) = true := by
  have hsorted : KeyMap.Sorted entries := h.1
  have hstored := stored_deepEqual h
  rw [stored_obj hsorted] at hstored
  rw [Tree.toJson_map (KeyMap.sorted_mapValues hsorted _), KeyMap.mapValues, KeyMap.mapValues, List.map_map]
  exact hstored

theorem written_plain_map {id : ContainerID} (htype : id.containerType = .map) {entries : List (String × Value)}
    (hwf : (Value.obj entries).WF) (hregular : Regular (.obj entries)) :
    Written (.map id (KeyMap.mapValues plain entries)) := by
  cases hregular with
  | obj hkeys _ =>
    refine .map htype (KeyMap.sorted_mapValues hwf.1 _) ?_ ?_
    · intro entry hentry
      obtain ⟨first, hfirst, rfl⟩ := List.mem_map.mp hentry
      exact hkeys first hfirst
    · intro entry hentry
      obtain ⟨first, _, rfl⟩ := List.mem_map.mp hentry
      exact .leaf _

/-- A new container without a schema, at a key of the map `c`. -/
theorem createContainer_becomes {entries : List (String × Tree)} {type : ContainerType} {child : Tree} {value : Value}
    (hat : mirror.At c (.map c entries)) (key : String) (htype : newContainerType config none value = some type)
    (hempty : (L.nextId mirror.doc type).empty = some child) :
    ∃ doc, mirror.createContainer config none value (.mapInsertContainer c key) =
        .ok (L.nextId mirror.doc type, mirror.created doc (L.nextId mirror.doc type) none) ∧
      (mirror.created doc (L.nextId mirror.doc type) none).At (L.nextId mirror.doc type) child ∧
      ∀ full mirror', (mirror.created doc (L.nextId mirror.doc type) none).Becomes (L.nextId mirror.doc type) full mirror' →
        mirror.Becomes c (.map c (KeyMap.insert key full entries)) mirror' := by
  have hfresh : L.nextId mirror.doc type ∉ (IdTree.map c entries : Tree).ids :=
    fun hmem => L.nextId_fresh mirror.doc type (IdTree.findItems_subset hat _ hmem)
  simp only [IdTree.ids, List.mem_cons, not_or] at hfresh
  have hself := IdTree.find?_self (Op.id?_of_empty hempty).1
  have hfind : IdTree.find? (L.nextId mirror.doc type) (.map c (KeyMap.insert key child entries)) = some child := by
    rw [IdTree.find?, if_neg (Ne.symm hfresh.1)]
    exact (IdTree.fresh_insert child key hfresh.2 hself).1
  obtain ⟨doc, hcall, hbecomes⟩ := @call_becomes L mirror (.map c (KeyMap.insert key child entries))
    (.mapInsertContainer c key type) _ hat (by simp [Op.effect, hempty])
  have hat' := hbecomes.at hat rfl
  have hchild := At.inside hat' hfind
  have hcreated : mirror.Becomes c (.map c (KeyMap.insert key child entries))
      (mirror.created doc (L.nextId mirror.doc type) none) := by
    refine ⟨hbecomes.view, fun d => ?_⟩
    by_cases hd : d = L.nextId mirror.doc type
    · rw [hd]
      exact .inr created_registry_self
    · exact .inl (created_registry_of_ne hd)
  refine ⟨doc, createContainer_ok htype hcall hempty hchild.container, hchild, ?_⟩
  intro full mirror' hfull
  have hinside := hfull.inside (hcreated.at hat rfl) hfind
  have hreplace : IdTree.replace (L.nextId mirror.doc type) full (.map c (KeyMap.insert key child entries)) =
      .map c (KeyMap.insert key full entries) := by
    rw [IdTree.replace, if_neg (Ne.symm hfresh.1), (IdTree.fresh_insert full key hfresh.2 hself).2,
      IdTree.replace_self (Op.id?_of_empty hempty).1]
  rw [hreplace] at hinside
  exact hcreated.trans rfl hinside

/-- An array or an object put at a key of a map gets a container of its own, with plain values inside. -/
theorem insertContainerIntoMap_becomes (hdefault : config.inferOptions = {}) {entries : List (String × Tree)}
    (hat : mirror.At c (.map c entries)) (key : String) {value : Value} (hwf : value.WF) (hregular : Regular value)
    (hnested : (value.isObject || value.isArray) = true) :
    ∃ mirror' : Mirror L, ∃ child : Tree, mirror.insertContainerIntoMap config c none key value = .ok mirror' ∧
      mirror.Becomes c (.map c (KeyMap.insert key child entries)) mirror' ∧
      child.toJson.deepEqual value = true ∧ Written child := by
  cases value with
  | obj fields =>
    have htype : newContainerType config none (.obj fields) = some .map := by
      simp [newContainerType, tryInferContainerType]
    have hempty := L.empty_map mirror.doc
    obtain ⟨doc, hcreate, hchild, hinto⟩ := createContainer_becomes hat key htype hempty
    obtain ⟨doc', hinit, hfull⟩ := @initializeEntries_becomes L config _ _ _ fillsPlainly_none [] fields hchild hwf.1
    refine ⟨_, _, ?_, hinto _ _ hfull, deepEqual_plain_map hwf, written_plain_map (L.nextId_type _ _) hwf hregular⟩
    simp only [insertContainerIntoMap, hcreate, bind, Except.bind, initializeContainer, L.nextId_type]
    exact hinit
  | arr items =>
    have htype : newContainerType config none (.arr items) = some .list := by
      simp [newContainerType, tryInferContainerType, hdefault]
    have hempty : (L.nextId mirror.doc .list).empty = some (.list (L.nextId mirror.doc .list) []) := by
      simp [ContainerID.empty, L.nextId_type]
    obtain ⟨doc, hcreate, hchild, hinto⟩ := createContainer_becomes hat key htype hempty
    obtain ⟨doc', hinit, hfull⟩ := @initializeItems_becomes L config _ _ [] items hchild
    refine ⟨_, _, ?_, hinto _ _ hfull, deepEqual_plain_list hwf, .list (L.nextId_type _ _) (Value.wf_arr_iff.mp hwf)⟩
    simp only [insertContainerIntoMap, hcreate, bind, Except.bind, initializeContainer, L.nextId_type,
      Option.bind_none]
    exact hinit
  | _ => cases hnested

/-! ## One change of a map -/

variable {entries : List (String × Tree)} {key : String}

theorem applyChange_map (htype : c.containerType = .map) {change : Change} (hcontainer : change.container = some c) :
    mirror.applyChange config change = applyMapChange config c mirror change := by
  simp [applyChange, applyBucket, applyContainerChanges, hcontainer, htype]

theorem applyChange_delete_becomes (htype : c.containerType = .map) (hat : mirror.At c (.map c entries))
    (hkey : key ≠ "") :
    ∃ doc, mirror.applyChange config { container := some c, key := .prop key, value := none, kind := .delete } =
        .ok { mirror with doc } ∧
      mirror.Becomes c (.map c (KeyMap.erase key entries)) { mirror with doc } := by
  obtain ⟨doc, hcall, hbecomes⟩ := @call_becomes L mirror _ (.mapDelete c key) _ hat rfl
  refine ⟨doc, ?_, hbecomes⟩
  rw [applyChange_map htype rfl]
  unfold applyMapChange
  simp only [String.isEmpty_iff, hkey, if_false]
  exact hcall

/-- What is put at a key is equal to the value. -/
theorem applyChange_insertChild_becomes (hdefault : config.inferOptions = {}) (htype : c.containerType = .map)
    (hat : mirror.At c (.map c entries)) (hschema : mirror.getContainerSchema c = none) (hkey : key ≠ "") {value : Value}
    (hwf : value.WF) (hregular : Regular value) :
    ∃ mirror' : Mirror L, ∃ child : Tree, mirror.applyChange config (insertChildToMap (some c) key value) = .ok mirror' ∧
      mirror.Becomes c (.map c (KeyMap.insert key child entries)) mirror' ∧
      child.toJson.deepEqual value = true ∧ Written child := by
  have hchildSchema : mirror.getSchemaForChildContainer c key = none := by
    simp [getSchemaForChildContainer, getSchemaForChild, hschema]
  have hcontainer : (insertChildToMap (some c) key value).container = some c := by
    unfold insertChildToMap
    split
    · rfl
    · split <;> rfl
  rw [applyChange_map htype hcontainer]
  unfold insertChildToMap applyMapChange
  by_cases hobject : value.isObject = true
  · rw [if_pos hobject]
    simp only [Option.getD_some, hchildSchema, String.isEmpty_iff, hkey, if_false]
    exact insertContainerIntoMap_becomes hdefault hat key hwf hregular (by simp [hobject])
  · rw [if_neg hobject]
    by_cases harray : value.isArray = true
    · rw [if_pos harray]
      simp only [Option.getD_some, hchildSchema, String.isEmpty_iff, hkey, if_false]
      exact insertContainerIntoMap_becomes hdefault hat key hwf hregular (by simp [harray])
    · rw [if_neg harray]
      obtain ⟨doc, hcall, hbecomes⟩ := @call_becomes L mirror _ (.mapInsert c key (jsonToLoro value)) _ hat rfl
      refine ⟨_, plain value, ?_, hbecomes, stored_deepEqual hwf, .leaf _⟩
      simp only [Option.getD_some, String.isEmpty_iff, hkey, if_false]
      exact hcall

end

end Mirror

end Zulangue.VtMirror
