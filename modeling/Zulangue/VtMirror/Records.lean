import Zulangue.VtMirror.Movable
import Zulangue.VtMirror.ShapeChange

/-!
# Lists of records

Items whose schema is a map of plain fields are kept in child maps. Records are put in as they are, and
the differences of two records bring the child map of the one to the other.
-/

namespace Zulangue.VtMirror

open Zulangue.Lib Mirror

/-! ## Writes to a map -/

section
variable {L : Loro} {config : Config} {mirror : Mirror L} {c : ContainerID} {entries : List (String × Tree)}

/-- A value put at a key, or a deletion. -/
def writeChange (c : ContainerID) : String × Option Value → Change
  | (key, some value) => { container := some c, key := .prop key, value := some value, kind := .insert }
  | (key, none) => deleteKey c key

/-- What the writes put into the document. -/
def plainWrites (writes : List (String × Option Value)) : List (String × Option Tree) :=
  writes.map fun write => (write.1, write.2.map plain)

theorem applyChange_write_becomes (htype : c.containerType = .map) (hat : mirror.At c (.map c entries))
    {write : String × Option Value} (hkey : write.1 ≠ "") :
    ∃ doc, mirror.applyChange config (writeChange c write) = .ok { mirror with doc } ∧
      mirror.Becomes c (.map c (KeyMap.set write.1 (write.2.map plain) entries)) { mirror with doc } := by
  obtain ⟨key, value⟩ := write
  cases value with
  | none => exact applyChange_delete_becomes htype hat hkey
  | some value =>
    obtain ⟨doc, hcall, hbecomes⟩ := @call_becomes L mirror _ (.mapInsert c key (jsonToLoro value)) _ hat rfl
    refine ⟨doc, ?_, hbecomes⟩
    rw [applyChange_map htype rfl]
    unfold applyMapChange writeChange
    simp only [String.isEmpty_iff, show key ≠ "" from hkey, if_false, Option.getD_some]
    exact hcall

/-- Writes to a map, one after the other. -/
theorem run_writes {writes : List (String × Option Value)} (htype : c.containerType = .map)
    (hat : mirror.At c (.map c entries)) (hkeys : ∀ write ∈ writes, write.1 ≠ "") :
    ∃ doc, (writes.map (writeChange c)).foldlM (applyChange config) mirror = .ok { mirror with doc } ∧
      mirror.Becomes c (.map c (KeyMap.setAll (plainWrites writes) entries)) { mirror with doc } := by
  induction writes generalizing mirror entries with
  | nil => exact ⟨mirror.doc, rfl, Becomes.refl hat⟩
  | cons write writes ih =>
    obtain ⟨doc, happly, hbecomes⟩ := @applyChange_write_becomes L config mirror c entries htype hat write
      (hkeys write List.mem_cons_self)
    obtain ⟨doc', hfold, hbecomes'⟩ := @ih { mirror with doc } _ (hbecomes.at hat rfl)
      fun w hw => hkeys w (List.mem_cons_of_mem _ hw)
    refine ⟨doc', ?_, hbecomes.trans rfl hbecomes'⟩
    rw [List.map_cons, List.foldlM_cons, happly]
    exact hfold

end

/-! ## The differences of two records -/

/-- No field has a container of its own. -/
def PlainFields (fields : List (String × Schema)) : Prop :=
  ∀ key field, KeyMap.get key fields = some field → field.containerType = none

/-- An object of scalars under keys that are not empty. -/
structure IsRecord (entries : List (String × Value)) : Prop where
  wf : (Value.obj entries).WF
  keys : ∀ entry ∈ entries, entry.1 ≠ ""
  scalars : ∀ entry ∈ entries, isScalar entry.2 = true

section
variable {view : View} {inferOptions : Option InferContainerOptions} {fields : List (String × Schema)}
  {diffChild : Value → Value → ContainerID → Option Schema → Except DiffError (List Change)}
  {c : ContainerID} {stored : List (String × Tree)} {wanted : List (String × Value)}

/-- The field is left as it is: the old value is not falsy, and equal. -/
def keepsField (old : Value) (field : String × Value) : Bool :=
  match objectGet old field.1 with
  | some oldItem => !isFalsy (some oldItem) && oldItem.deepEqual field.2
  | none => false

/-- The writes that make a map of one record out of that of another. -/
def recordWrites (old : Value) (keys : List String) (wanted : List (String × Value)) : List (String × Option Value) :=
  (keys.filter fun key => (KeyMap.get key wanted).isNone).map (fun key => (key, none)) ++
    (wanted.filter fun field => !keepsField old field).map fun field => (field.1, some field.2)

theorem diffMapEntry_scalar (hfields : PlainFields fields) (htext : (inferOptions.getD {}).defaultLoroText = false)
    (old : Value) (field : String × Value) (hscalar : isScalar field.2 = true) :
    diffMapEntry view inferOptions diffChild old (some c) (some fields) field.1 field.2 =
      .ok (if keepsField old field then [] else [writeChange c (field.1, some field.2)]) := by
  obtain ⟨key, item⟩ := field
  have hschema : ((KeyMap.get key fields).bind Schema.containerType) = none := by
    cases hget : KeyMap.get key fields with
    | none => rfl
    | some field => exact hfields key field hget
  have hinfer : tryInferContainerType item inferOptions = none := by
    cases item with
    | obj _ => cases hscalar
    | arr _ => cases hscalar
    | str s => simp [tryInferContainerType, htext]
    | _ => rfl
  have hinsert : insertChildToMap (some c) key item = writeChange c (key, some item) := by
    cases item with
    | obj _ => cases hscalar
    | arr _ => cases hscalar
    | _ => rfl
  unfold diffMapEntry keepsField
  simp only [Option.bind_some, hschema, hinfer, Option.none_or]
  cases hold : objectGet old key with
  | none => rfl
  | some oldItem =>
    by_cases hfalsy : isFalsy (some oldItem) = true
    · simp only [hfalsy, if_true, Bool.not_true, Bool.false_and, Bool.false_eq_true, if_false]
      rfl
    · by_cases hequal : oldItem.deepEqual item = true
      · simp [hfalsy, hequal]
      · simp only [hfalsy, hequal, if_false, Bool.and_false, Bool.false_eq_true, hinsert]

theorem diffMap_record (hfields : PlainFields fields) (htext : (inferOptions.getD {}).defaultLoroText = false)
    (options : SchemaOptions) (hsorted : KeyMap.Sorted stored) (hrecord : IsRecord wanted) :
    diffMap view inferOptions diffChild (Tree.toJson (.map c stored)) (.obj wanted) (some c) (some (.map fields options)) =
      .ok ((recordWrites (Tree.toJson (.map c stored)) (stored.map (·.1)) wanted).map (writeChange c)) := by
  have hupdates : collectChanges (fun field => diffMapEntry view inferOptions diffChild (Tree.toJson (.map c stored))
      (some c) (some fields) field.1 field.2) wanted = .ok (wanted.flatMap fun field =>
        if keepsField (Tree.toJson (.map c stored)) field then [] else [writeChange c (field.1, some field.2)]) :=
    collectChanges_ok fun field hfield => diffMapEntry_scalar hfields htext _ field (hrecord.scalars field hfield)
  have hputs : ∀ fs : List (String × Value), (fs.flatMap fun field =>
      if keepsField (Tree.toJson (.map c stored)) field then [] else [writeChange c (field.1, some field.2)]) =
        (fs.filter fun field => !keepsField (Tree.toJson (.map c stored)) field).map
          fun field => writeChange c (field.1, some field.2) := by
    intro fs
    induction fs with
    | nil => rfl
    | cons field fs ih =>
      rw [List.flatMap_cons, List.filter_cons, ih]
      cases keepsField (Tree.toJson (.map c stored)) field <;> rfl
  have hdeletes := @deleteBlocks_eq c stored (.obj wanted) hsorted
  have hblocks : (deleteBlocks c stored (.obj wanted)).flatMap (·.2) =
      ((stored.map (·.1)).filter fun key => (KeyMap.get key wanted).isNone).map (deleteKey c) := by
    rw [deleteBlocks, List.flatMap_map, List.filter_map, List.map_map, List.map_eq_flatMap]
    rfl
  have hdiff : diffMap view inferOptions diffChild (Tree.toJson (.map c stored)) (.obj wanted) (some c)
      (some (.map fields options)) = (collectChanges (fun field => diffMapEntry view inferOptions diffChild
        (Tree.toJson (.map c stored)) (some c) (some fields) field.1 field.2) wanted).bind fun updates =>
          .ok ((deleteBlocks c stored (.obj wanted)).flatMap (·.2) ++ updates) := by
    rw [← hdeletes]
    rfl
  rw [hdiff, hupdates, hputs, hblocks, recordWrites, List.map_append, List.map_map, List.map_map]
  rfl

end

section
variable {c : ContainerID} {stored : List (String × Tree)} {wanted : List (String × Value)}

theorem mem_recordWrites {old : Value} {keys : List String} {key : String} {value : Option Value} :
    (key, value) ∈ recordWrites old keys wanted ↔
      value = none ∧ key ∈ keys ∧ KeyMap.get key wanted = none ∨
        ∃ item, value = some item ∧ (key, item) ∈ wanted ∧ keepsField old (key, item) = false := by
  rw [recordWrites, List.mem_append, List.mem_map, List.mem_map]
  constructor
  · rintro (⟨k, hk, heq⟩ | ⟨field, hfield, heq⟩)
    · obtain ⟨rfl, rfl⟩ := Prod.mk.inj heq
      obtain ⟨hmem, hnone⟩ := List.mem_filter.mp hk
      exact .inl ⟨rfl, hmem, Option.isNone_iff_eq_none.mp hnone⟩
    · obtain ⟨rfl, rfl⟩ := Prod.mk.inj heq
      obtain ⟨hmem, hchanged⟩ := List.mem_filter.mp hfield
      exact .inr ⟨field.2, rfl, hmem, by simpa using hchanged⟩
  · rintro (⟨rfl, hmem, hnone⟩ | ⟨item, rfl, hmem, hchanged⟩)
    · exact .inl ⟨key, List.mem_filter.mpr ⟨hmem, Option.isNone_iff_eq_none.mpr hnone⟩, rfl⟩
    · exact .inr ⟨(key, item), List.mem_filter.mpr ⟨hmem, by simp [hchanged]⟩, rfl⟩

theorem recordWrites_ne_empty {old : Value} (hkeys : ∀ entry ∈ stored, entry.1 ≠ "") (hrecord : IsRecord wanted) :
    ∀ write ∈ recordWrites old (stored.map (·.1)) wanted, write.1 ≠ "" := by
  intro write hwrite
  rcases mem_recordWrites.mp hwrite with ⟨-, hkey, -⟩ | ⟨item, -, hmem, -⟩
  · obtain ⟨entry, hentry, heq⟩ := List.mem_map.mp hkey
    rw [← heq]
    exact hkeys entry hentry
  · exact hrecord.keys _ hmem

/-- After the writes every key is as it is wanted. -/
theorem recordWrites_meets (hsorted : KeyMap.Sorted stored) (hrecord : IsRecord wanted) (key : String) :
    Meets (KeyMap.get key (KeyMap.setAll (plainWrites
        (recordWrites (Tree.toJson (.map c stored)) (stored.map (·.1)) wanted)) stored)) (KeyMap.get key wanted) := by
  have hsortedWanted : KeyMap.Sorted wanted := hrecord.wf.1
  refine KeyMap.setAll_induction (P := fun tree => Meets tree (KeyMap.get key wanted)) hsorted ?_ ?_
  · rintro write hwrite rfl
    obtain ⟨⟨key, value⟩, hmem, rfl⟩ := List.mem_map.mp hwrite
    rcases mem_recordWrites.mp hmem with ⟨rfl, -, hnone⟩ | ⟨item, rfl, hitem, -⟩
    · rw [hnone]
      trivial
    · rw [hsortedWanted.get_of_mem hitem]
      exact stored_deepEqual ((Value.wf_obj_iff.mp hrecord.wf).2 _ hitem)
  · intro hunwritten
    have hkept : ∀ value, (key, value) ∉ recordWrites (Tree.toJson (.map c stored)) (stored.map (·.1)) wanted :=
      fun value hmem => hunwritten _ (List.mem_map_of_mem hmem) rfl
    cases hget : KeyMap.get key wanted with
    | none =>
      cases hold : KeyMap.get key stored with
      | none => trivial
      | some tree =>
        exact hkept none (mem_recordWrites.mpr (.inl ⟨rfl, KeyMap.mem_keys_iff.mpr ⟨tree, hold⟩, hget⟩))
    | some item =>
      cases hkeeps : keepsField (Tree.toJson (.map c stored)) (key, item) with
      | false => exact absurd (mem_recordWrites.mpr (.inr ⟨item, rfl, KeyMap.mem_of_get hget, hkeeps⟩)) (hkept _)
      | true =>
        have hold : objectGet (Tree.toJson (.map c stored)) key = (KeyMap.get key stored).map Tree.toJson := by
          rw [Tree.toJson_map hsorted]
          exact KeyMap.get_mapValues _ _ _
        rw [keepsField, hold] at hkeeps
        cases hstored : KeyMap.get key stored with
        | none => simp [hstored] at hkeeps
        | some tree =>
          simp only [hstored, Option.map_some, Bool.and_eq_true] at hkeeps
          exact hkeeps.2

end

section
variable {L : Loro} {config : Config} {view : View} {inferOptions : Option InferContainerOptions}
  {fields : List (String × Schema)} {c : ContainerID} {stored : List (String × Tree)} {wanted : List (String × Value)}

/-- The differences of a child map bring it to the record. -/
theorem diffContainer_record (htype : c.containerType = .map) (hfields : PlainFields fields)
    (htext : (inferOptions.getD {}).defaultLoroText = false) (options : SchemaOptions)
    (hsorted : KeyMap.Sorted stored) (hkeys : ∀ entry ∈ stored, entry.1 ≠ "") (hrecord : IsRecord wanted) :
    ∃ changes, diffContainer view (Tree.toJson (.map c stored)) (.obj wanted) (some c) (some (.map fields options))
        inferOptions = .ok changes ∧
      ∀ mirror : Mirror L, mirror.At c (.map c stored) →
        ∃ doc entries, changes.foldlM (applyChange config) mirror = .ok { mirror with doc } ∧
          mirror.Becomes c (.map c entries) { mirror with doc } ∧
          (Tree.toJson (.map c entries)).deepEqual (.obj wanted) = true := by
  have htypeOf : containerIdToContainerType c = some .map := by simp [containerIdToContainerType, htype]
  have hlike : isObjectLike (Tree.toJson (.map c stored)) = true := by
    rw [Tree.toJson]
    rfl
  have hlikeNew : isObjectLike (.obj wanted) = true := rfl
  refine ⟨(recordWrites (Tree.toJson (.map c stored)) (stored.map (·.1)) wanted).map (writeChange c), ?_,
    fun mirror hat => ?_⟩
  · rw [diffContainer_eq]
    unfold diffContainerWith
    simp only [htypeOf, hlike, hlikeNew, Option.all_some, Schema.isMap, Bool.and_self, if_true]
    exact diffMap_record hfields htext options hsorted hrecord
  · obtain ⟨doc, hfold, hbecomes⟩ := @run_writes L config mirror c stored _ htype hat
      (recordWrites_ne_empty hkeys hrecord)
    refine ⟨doc, _, hfold, hbecomes, ?_⟩
    rw [deepEqual_map_iff (KeyMap.sorted_setAll hsorted _) hrecord.wf.1]
    exact recordWrites_meets hsorted hrecord

end

/-! ## Records in a list -/

/-- The trees of a list of records: maps without an empty key. -/
def RecordTree (tree : Tree) : Prop :=
  ∃ child entries, tree = .map child entries ∧ child.containerType = .map ∧ KeyMap.Sorted entries ∧
    ∀ entry ∈ entries, entry.1 ≠ ""

def RecordValue (item : Value) : Prop := ∃ entries, item = .obj entries ∧ IsRecord entries

section
variable {L : Loro} {config : Config} {id : ContainerID} {registered : Option (Option Schema)}
  {mirror : Mirror L} {before after : List Tree} {tree : Tree} {fields : List (String × Schema)}
  {options : SchemaOptions} {item : Value}

/-- A list with an item is in the document. -/
theorem Mirror.HoldsList.itemAt (h : mirror.HoldsList id (before ++ tree :: after)) :
    mirror.ItemAt id before tree after := by
  unfold HoldsList View.container at h
  unfold ItemAt At
  cases hfind : IdTree.findItems id mirror.view with
  | some found => rwa [hfind, Option.some_or] at h
  | none =>
    -- A root that is not in the document yet has no items.
    rw [hfind, Option.none_or] at h
    split at h
    · unfold ContainerID.empty at h
      split at h <;> simp at h
    · cases h

theorem fillsPlainly_record (hfields : PlainFields fields) (c : ContainerID) :
    FillsPlainly L config c (some (.map fields options)) := by
  intro mirror key value entries
  rw [initializeEntries_cons, if_neg]
  cases hget : KeyMap.get key fields with
  | none => simp
  | some field => simp [hfields key field hget]

/-- A record is put in as a map of plain values. -/
theorem insertRight_record (htype : id.containerType = .list ∨ id.containerType = .movableList)
    (hfields : PlainFields fields)
    (hregistered : (registered.bind fun schema => schema.bind Schema.item?) = some (.map fields options))
    (hitem : RecordValue item) : InsertRight L config id (some (.map fields options)) registered item := by
  obtain ⟨wanted, rfl, hrecord⟩ := hitem
  intro mirror before after hregistry hholds
  let new := L.nextId mirror.doc .map
  have hschema : mirror.getSchemaForChildContainerIndex id = some (.map fields options) := by
    have hitem : (mirror.getContainerSchema id).bind Schema.item? = some (.map fields options) := by
      rw [getContainerSchema, hregistry, Option.bind_assoc]
      exact hregistered
    rw [getSchemaForChildContainerIndex, hitem]
    rfl
  have hchange : ∀ movable, applyListChange config movable id mirror
      (insertAt id (some (.map fields options)) before.length (.obj wanted)) =
        mirror.insertContainerIntoList config id (mirror.getSchemaForChildContainerIndex id) before.length (.obj wanted) :=
    fun _ => rfl
  have happly : mirror.applyChange config (insertAt id (some (.map fields options)) before.length (.obj wanted)) =
      mirror.insertContainerIntoList config id (some (.map fields options)) before.length (.obj wanted) := by
    rcases htype with htype | htype
    · rw [applyChange_list htype rfl, hchange, hschema]
    · rw [applyChange_movable htype rfl, hchange, hschema]
  have hempty := L.empty_map mirror.doc
  have heffect : (Op.listInsertContainer id before.length .map).effect (L.nextId mirror.doc) (.list id (before ++ after)) =
      some (.list id (before ++ .map new [] :: after)) := by
    simp [Op.effect, hempty, ListEdit.insertIdx_append_length, new]
  obtain ⟨doc, hcall, hview⟩ := Mirror.call_ok (.listInsertContainer id before.length .map) hholds heffect
  let created := mirror.created doc new (some (.map fields options))
  have hat : created.ItemAt id before (.map new []) after := by
    have hfind : IdTree.findItems id (L.view doc) = some (.list id (before ++ .map new [] :: after)) := by
      rw [hview]
      exact View.findItems_put rfl
    exact hfind
  have hself : IdTree.find? new (.map new [] : Tree) = some (.map new []) := IdTree.find?_self rfl
  have hcreate := createContainer_ok (show newContainerType config (some (.map fields options)) (.obj wanted) =
    some .map from rfl) hcall hempty (hat.at hself).container
  obtain ⟨doc', hinit, hfull⟩ := @initializeEntries_becomes L config created new _ (fillsPlainly_record hfields new) []
    wanted (hat.at hself) hrecord.wf.1
  obtain ⟨hin, hreplace⟩ := hat.inside hself
  have hinside := hfull.inside hat hin
  rw [hreplace, IdTree.replace_self rfl] at hinside
  have hne : id ≠ new := by
    have hnodup := hat.nodup
    simp only [idsItems_append, IdTree.idsItems, IdTree.ids, List.nodup_cons, List.mem_append, List.mem_cons,
      not_or] at hnodup
    exact hnodup.1.2.1.1
  refine ⟨{ created with doc := doc' }, _, ?_, ?_, At.container (hinside.at hat rfl),
    deepEqual_plain_map hrecord.wf⟩
  · rw [happly]
    simp only [insertContainerIntoList, hcreate, bind, Except.bind, initializeContainer, L.nextId_type]
    exact hinit
  · exact (created_registry_of_ne hne).trans hregistry

/-- The differences of two records bring the item of a list to the new record, in the same container. -/
theorem recursion_record {view : View} {inferOptions : Option InferContainerOptions} {child : ContainerID}
    (hfields : PlainFields fields) (htext : (inferOptions.getD {}).defaultLoroText = false)
    (htree : RecordTree tree) (hid : tree.id? = some child) (hitem : RecordValue item) :
    RecursionKeeps L config id (some (.map fields options)) registered
      (fun oldItem newItem child schema => diffContainer view oldItem newItem (some child) schema inferOptions)
      tree child item := by
  obtain ⟨c, stored, rfl, htype, hsorted, hkeys⟩ := htree
  obtain ⟨wanted, rfl, hrecord⟩ := hitem
  obtain rfl : c = child := Option.some.inj hid
  obtain ⟨changes, hchanges, hrun⟩ := @diffContainer_record L config view inferOptions fields c stored wanted htype
    hfields htext options hsorted hkeys hrecord
  refine ⟨changes, hchanges, fun mirror before after hregistry hholds => ?_⟩
  have hat := hholds.itemAt
  have hself : IdTree.find? c (.map c stored : Tree) = some (.map c stored) := IdTree.find?_self rfl
  obtain ⟨doc, entries, hfold, hbecomes, hequal⟩ := hrun mirror (hat.at hself)
  obtain ⟨hin, hreplace⟩ := hat.inside hself
  have hinside := hbecomes.inside hat hin
  rw [hreplace, IdTree.replace_self rfl] at hinside
  exact ⟨_, _, hfold, hregistry, At.container (hinside.at hat rfl), hequal, rfl⟩

theorem RecursionKeeps.right {itemSchema : Option Schema} {child : ContainerID}
    {diffChild : Value → Value → ContainerID → Option Schema → Except DiffError (List Change)}
    (h : RecursionKeeps L config id itemSchema registered diffChild tree child item) :
    RecursionRight L config id itemSchema registered diffChild tree child item := by
  obtain ⟨changes, hchanges, hrun⟩ := h
  refine ⟨changes, hchanges, fun mirror before after hregistry hholds => ?_⟩
  obtain ⟨mirror', tree', hfold, hregistry', hholds', hequal, -⟩ := hrun mirror before after hregistry hholds
  exact ⟨mirror', tree', hfold, hregistry', hholds', hequal⟩

end

/-! ## What the list differences are given -/

section
variable {L : Loro} {config : Config} {id : ContainerID} {registered : Option (Option Schema)} {sel : IdSelector}
  {trees : List Tree} {new : List Value}

variable {fields : List (String × Schema)} {options : SchemaOptions} {view : View}
  {inferOptions : Option InferContainerOptions}

/-- The differences of a list whose items are all plain. -/
theorem scannable_plain {itemSchema : Option Schema} {old : List Value}
    {diffChild : Value → Value → ContainerID → Option Schema → Except DiffError (List Change)}
    (htype : id.containerType = .list) (hplain : ∀ item ∈ new, PlainItem itemSchema item ∧ item.WF)
    (holdIds : ∀ tree ∈ old.map plain, (selectId sel tree.toJson).isSome)
    (hnewIds : ∀ item ∈ new, (selectId sel item).isSome)
    (hrespects : ∀ tree ∈ old.map plain, ∀ item ∈ new, tree.toJson.deepEqual item = true →
      selectId sel tree.toJson = selectId sel item) :
    Scannable L config id itemSchema registered diffChild sel (old.map plain) new where
  oldIds := holdIds
  newIds := hnewIds
  respects := hrespects
  insert item hitem := insertRight_plain (.inl htype) (hplain item hitem).1 (hplain item hitem).2
  recurse tree htree item _ child hchild := by
    obtain ⟨value, -, rfl⟩ := List.mem_map.mp htree
    cases hchild

section
variable (htype : id.containerType = .list) (hfields : PlainFields fields)
  (htext : (inferOptions.getD {}).defaultLoroText = false)
  (hstored : ∀ tree ∈ trees, RecordTree tree) (hwanted : ∀ item ∈ new, RecordValue item)
  (holdIds : ∀ tree ∈ trees, (selectId sel tree.toJson).isSome) (hnewIds : ∀ item ∈ new, (selectId sel item).isSome)
  (hrespects : ∀ tree ∈ trees, ∀ item ∈ new, tree.toJson.deepEqual item = true →
    selectId sel tree.toJson = selectId sel item)
include htype hfields htext hstored hwanted holdIds hnewIds hrespects

/-- The differences of a list of records. -/
theorem scannable_records
    (hregistered : (registered.bind fun schema => schema.bind Schema.item?) = some (.map fields options)) :
    Scannable L config id (some (.map fields options)) registered
      (fun oldItem newItem child schema => diffContainer view oldItem newItem (some child) schema inferOptions)
      sel trees new where
  oldIds := holdIds
  newIds := hnewIds
  respects := hrespects
  insert item hitem := insertRight_record (.inl htype) hfields hregistered (hwanted item hitem)
  recurse tree htree item hitem _ hid _ _ :=
    (recursion_record hfields htext (hstored tree htree) hid (hwanted item hitem)).right

end

/-- The differences of a movable list of records. -/
theorem reordered_records (htype : id.containerType = .movableList) (hfields : PlainFields fields)
    (htext : (inferOptions.getD {}).defaultLoroText = false)
    (hregistered : (registered.bind fun schema => schema.bind Schema.item?) = some (.map fields options))
    (hstored : ∀ tree ∈ trees, RecordTree tree) (hwanted : ∀ item ∈ new, RecordValue item)
    (holdIds : Identified sel (trees.map Tree.toJson)) (hnewIds : Identified sel new)
    (hsurvive : ∀ tree ∈ trees, ∃ item ∈ new, selectId sel item = selectId sel tree.toJson)
    (hrespects : ∀ item ∈ new, ∀ value : Value, value.deepEqual item = true → selectId sel value = selectId sel item) :
    Reordered L config id (some (.map fields options)) registered
      (fun oldItem newItem child schema => diffContainer view oldItem newItem (some child) schema inferOptions)
      sel trees new where
  oldIds := holdIds
  newIds := hnewIds
  survive := hsurvive
  respects := hrespects
  insert item hitem := insertRight_record (.inr htype) hfields hregistered (hwanted item hitem)
  recurse tree htree item hitem _ hid _ _ :=
    recursion_record hfields htext (hstored tree htree) hid (hwanted item hitem)

end

/-- A list of records with one record. -/
def recordMirror : Mirror referenceLoro where
  doc := ⟨[.list namedId [.map (.normal 0 0 .map) [("id", .leaf (.string "a"))]]], by decide⟩
  state := .obj [("items", .arr [named "a"])]
  registry := fun _ => some (some (.list (some (.map [] {})) (some namedBy) {}))

end Zulangue.VtMirror
