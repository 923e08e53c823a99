import Zulangue.VtMirror.Shapes

/-!
# The keys of a map, one by one

The differences of two maps are blocks of changes, one block for each key. A block settles its key and
leaves the others alone, so the blocks can be applied in any order.
-/

namespace Zulangue.VtMirror

open Zulangue.Lib Mirror

section
variable {L : Loro} {config : Config} {mirror : Mirror L} {c : ContainerID} {stored : List (String × Tree)}
  {wanted : List (String × Value)} {key : String}

/-- What is stored at the key takes what is wanted there. -/
def FitsAt (stored : List (String × Tree)) (wanted : List (String × Value)) (key : String) : Prop :=
  ∀ tree item, KeyMap.get key stored = some tree → KeyMap.get key wanted = some item → Takes tree item

/-- The changes settle the key of the map `c`: afterwards it is as wanted exactly if what was stored
there takes what is wanted. -/
def Settles (L : Loro) (config : Config) (c : ContainerID) (stored : List (String × Tree))
    (wanted : List (String × Value)) (key : String) (changes : List Change) : Prop :=
  ∀ (mirror : Mirror L) (entries : List (String × Tree)), mirror.At c (.map c entries) → KeyMap.Sorted entries →
    WrittenEntries entries → KeyMap.get key entries = KeyMap.get key stored →
    (∀ d ∈ (IdTree.map c stored : Tree).ids, mirror.getContainerSchema d = none) →
    (∀ error, (ordered changes).foldlM (applyChange config) mirror = .error error → ¬ FitsAt stored wanted key) ∧
    ∀ mirror', (ordered changes).foldlM (applyChange config) mirror = .ok mirror' →
      ∃ entries', KeyMap.Sorted entries' ∧ WrittenEntries entries' ∧ mirror.Becomes c (.map c entries') mirror' ∧
        (∀ k, k ≠ key → KeyMap.get k entries' = KeyMap.get k entries) ∧
        (Meets (KeyMap.get key entries') (KeyMap.get key wanted) ↔ FitsAt stored wanted key)

/-- Nothing is done where all is as wanted. -/
theorem settles_nil (hmeets : Meets (KeyMap.get key stored) (KeyMap.get key wanted)) (hfits : FitsAt stored wanted key) :
    Settles L config c stored wanted key [] := by
  intro mirror entries hat hsorted hwritten hget _
  refine ⟨fun error herror => (by cases herror), fun mirror' hok => ?_⟩
  obtain rfl := Except.ok.inj hok
  refine ⟨entries, hsorted, hwritten, Becomes.refl hat, fun _ _ => rfl, iff_of_true ?_ hfits⟩
  rw [hget]
  exact hmeets

theorem ordered_singleton (change : Change) : ordered [change] = [change] :=
  @ordered_same change.container _ (by simp)

def deleteKey (c : ContainerID) (key : String) : Change :=
  { container := some c, key := .prop key, value := none, kind := .delete }

theorem settles_delete (htype : c.containerType = .map) (hkey : key ≠ "") (hwanted : KeyMap.get key wanted = none) :
    Settles L config c stored wanted key [deleteKey c key] := by
  intro mirror entries hat hsorted hwritten _ _
  obtain ⟨doc, happly, hbecomes⟩ := @applyChange_delete_becomes L config mirror c entries key htype hat hkey
  have hfold : [deleteKey c key].foldlM (applyChange config) mirror = .ok { mirror with doc } := by
    rw [List.foldlM_cons, deleteKey, happly]
    rfl
  rw [ordered_singleton, hfold]
  refine ⟨fun error herror => (by cases herror), fun mirror' hok => ?_⟩
  obtain rfl := Except.ok.inj hok
  refine ⟨_, KeyMap.sorted_erase hsorted key, hwritten.erase key, hbecomes, fun k hk => ?_,
    iff_of_true ?_ fun tree item _ hitem => ?_⟩
  · rw [KeyMap.get_erase hsorted, if_neg hk]
  · rw [KeyMap.get_erase hsorted, if_pos rfl, hwanted]
    trivial
  · cases hwanted.symm.trans hitem

theorem settles_insert (hdefault : config.inferOptions = {}) (htype : c.containerType = .map) (hkey : key ≠ "")
    {item : Value} (hwanted : KeyMap.get key wanted = some item) (hwf : item.WF) (hregular : Regular item)
    (hfits : FitsAt stored wanted key) :
    Settles L config c stored wanted key [insertChildToMap (some c) key item] := by
  intro mirror entries hat hsorted hwritten _ hschema
  obtain ⟨after, child, happly, hbecomes, hequal, hchild⟩ := @applyChange_insertChild_becomes L config mirror c entries
    key hdefault htype hat (hschema c List.mem_cons_self) hkey item hwf hregular
  have hfold : [insertChildToMap (some c) key item].foldlM (applyChange config) mirror = .ok after := by
    rw [List.foldlM_cons, happly]
    rfl
  rw [ordered_singleton, hfold]
  refine ⟨fun error herror => (by cases herror), fun mirror' hok => ?_⟩
  obtain rfl := Except.ok.inj hok
  refine ⟨_, KeyMap.sorted_insert hsorted key child, hwritten.insert hkey hchild, hbecomes,
    fun k hk => KeyMap.get_insert_of_ne hk _ _,
    iff_of_true ?_ hfits⟩
  rw [KeyMap.get_insert_self, hwanted]
  exact hequal

/-- The differences of a child container settle its key. -/
theorem settles_child {tree : Tree} {child : ContainerID} {item : Value} {changes : List Change}
    (hstored : KeyMap.get key stored = some tree) (hid : tree.id? = some child)
    (hwanted : KeyMap.get key wanted = some item) (hreaches : Reaches L config child tree item changes) :
    Settles L config c stored wanted key changes := by
  intro mirror entries hat hsorted hwritten hget hschema
  rw [hstored] at hget
  have hnodup := IdTree.nodup_of_findItems mirror.view_nodup hat
  simp only [IdTree.ids, List.nodup_cons] at hnodup
  have hchild : child ∈ tree.ids := IdTree.mem_ids_self hid
  have hne : c ≠ child := fun heq => hnodup.1 (heq ▸ IdTree.mem_idsEntries_of_get hget hchild)
  have hfind : IdTree.find? child (.map c entries) = some tree := by
    rw [IdTree.find?, if_neg hne, (IdTree.nested_get tree hsorted hnodup.2 hget hchild).1]
    exact IdTree.find?_self hid
  have hinner : ∀ d ∈ tree.ids, mirror.getContainerSchema d = none := fun d hd =>
    hschema d (List.mem_cons_of_mem _ (IdTree.mem_idsEntries_of_get hstored hd))
  have hfits : FitsAt stored wanted key ↔ Takes tree item := by
    constructor
    · exact fun hall => hall tree item hstored hwanted
    · intro htakes other otherItem hother hotherItem
      obtain rfl := Option.some.inj (hstored.symm.trans hother)
      obtain rfl := Option.some.inj (hwanted.symm.trans hotherItem)
      exact htakes
  obtain ⟨hfail, hok⟩ := hreaches mirror (At.inside hat hfind) hinner
  rw [hfits]
  refine ⟨hfail, fun mirror' hfold => ?_⟩
  obtain ⟨tree', hid', hbecomes, hwritten', hequal⟩ := hok mirror' hfold
  have hreplace : IdTree.replace child tree' (.map c entries) = .map c (KeyMap.insert key tree' entries) := by
    rw [IdTree.replace, if_neg hne, (IdTree.nested_get tree' hsorted hnodup.2 hget hchild).2, IdTree.replace_self hid]
  have hinside := hbecomes.inside hat hfind
  rw [hreplace] at hinside
  have hkey := (hwritten _ (KeyMap.mem_of_get hget)).1
  refine ⟨_, KeyMap.sorted_insert hsorted key tree', hwritten.insert hkey hwritten', hinside,
    fun k hk => KeyMap.get_insert_of_ne hk _ _, ?_⟩
  rw [KeyMap.get_insert_self, hwanted]
  exact hequal

/-! ## All keys -/

/-- Blocks for different keys, one after the other. -/
theorem run_blocks {blocks : List (String × List Change)} {entries : List (String × Tree)}
    (hkeys : (blocks.map (·.1)).Nodup) (hsettles : ∀ b ∈ blocks, Settles L config c stored wanted b.1 b.2)
    (hat : mirror.At c (.map c entries)) (hsorted : KeyMap.Sorted entries) (hwritten : WrittenEntries entries)
    (hget : ∀ b ∈ blocks, KeyMap.get b.1 entries = KeyMap.get b.1 stored)
    (hschema : ∀ d ∈ (IdTree.map c stored : Tree).ids, mirror.getContainerSchema d = none) :
    (∀ error, (blocks.flatMap fun b => ordered b.2).foldlM (applyChange config) mirror = .error error →
      ∃ b ∈ blocks, ¬ FitsAt stored wanted b.1) ∧
    ∀ mirror', (blocks.flatMap fun b => ordered b.2).foldlM (applyChange config) mirror = .ok mirror' →
      ∃ entries', KeyMap.Sorted entries' ∧ WrittenEntries entries' ∧ mirror.Becomes c (.map c entries') mirror' ∧
        (∀ k, k ∉ blocks.map (·.1) → KeyMap.get k entries' = KeyMap.get k entries) ∧
        ∀ b ∈ blocks, (Meets (KeyMap.get b.1 entries') (KeyMap.get b.1 wanted) ↔ FitsAt stored wanted b.1) := by
  induction blocks generalizing mirror entries with
  | nil =>
    refine ⟨fun error herror => (by cases herror), fun mirror' hok => ?_⟩
    obtain rfl := Except.ok.inj hok
    exact ⟨entries, hsorted, hwritten, Becomes.refl hat, fun _ _ => rfl, List.forall_mem_nil _⟩
  | cons b blocks ih =>
    obtain ⟨hnew, hkeys⟩ := List.nodup_cons.mp hkeys
    obtain ⟨hfail, hok⟩ := hsettles b List.mem_cons_self mirror entries hat hsorted hwritten
      (hget b List.mem_cons_self) hschema
    rw [List.flatMap_cons, List.foldlM_append]
    cases hfirst : (ordered b.2).foldlM (applyChange config) mirror with
    | error error =>
      refine ⟨fun _ _ => ⟨b, List.mem_cons_self, hfail error hfirst⟩, fun mirror' hfold => ?_⟩
      cases hfold
    | ok middle =>
      obtain ⟨entries', hsorted', hwritten', hbecomes, hothers, hsettled⟩ := hok middle hfirst
      have hget' : ∀ b' ∈ blocks, KeyMap.get b'.1 entries' = KeyMap.get b'.1 stored := by
        intro b' hb'
        have hmem : b'.1 ∈ blocks.map (·.1) := List.mem_map_of_mem hb'
        have hne : b'.1 ≠ b.1 := by
          intro heq
          rw [heq] at hmem
          exact hnew hmem
        rw [hothers b'.1 hne]
        exact hget b' (List.mem_cons_of_mem _ hb')
      obtain ⟨hrestFail, hrestOk⟩ := ih hkeys (fun b' hb' => hsettles b' (List.mem_cons_of_mem _ hb'))
        (hbecomes.at hat rfl) hsorted' hwritten' hget' (fun d hd => hbecomes.schema (hschema d hd))
      constructor
      · intro error herror
        obtain ⟨b', hb', hunfit⟩ := hrestFail error herror
        exact ⟨b', List.mem_cons_of_mem _ hb', hunfit⟩
      · intro mirror' hfold
        obtain ⟨final, hsortedFinal, hwrittenFinal, hbecomes', hothers', hall⟩ := hrestOk mirror' hfold
        refine ⟨final, hsortedFinal, hwrittenFinal, hbecomes.trans rfl hbecomes', fun k hk => ?_, ?_⟩
        · simp only [List.map_cons, List.mem_cons, not_or] at hk
          rw [hothers' k hk.2, hothers k hk.1]
        · intro b' hb'
          rcases List.mem_cons.mp hb' with rfl | hrest
          · rw [hothers' _ hnew]
            exact hsettled
          · exact hall b' hrest

/-! ## The differences at one key -/

variable {view : View} {inferOptions : Option InferContainerOptions}
  {diffChild : Value → Value → ContainerID → Option Schema → Except DiffError (List Change)}

/-- The differences of a child container do their work. -/
def ChildRight (L : Loro) (config : Config) (tree : Tree) (child : ContainerID) (item : Value)
    (outcome : Except DiffError (List Change)) : Prop :=
  (∀ error, outcome = .error error → ¬ Takes tree item) ∧
  ∀ changes, outcome = .ok changes → (∀ change ∈ changes, ∃ d ∈ tree.ids, change.container = some d) ∧
    Reaches L config child tree item changes

/-- Where the changes of a key belong: to the map itself, or inside the child at the key. -/
def Belong (c : ContainerID) (stored : List (String × Tree)) (key : String) (changes : List Change) : Prop :=
  (∀ change ∈ changes, change.container = some c) ∨
    ∃ tree, KeyMap.get key stored = some tree ∧ ∀ change ∈ changes, ∃ d ∈ tree.ids, change.container = some d

theorem insertChildToMap_container {container : Option ContainerID} {item : Value} :
    (insertChildToMap container key item).container = container := by
  unfold insertChildToMap
  split
  · rfl
  · split <;> rfl

theorem takes_of_isScalar {tree : Tree} {item : Value} (h : isScalar item = true) : Takes tree item := by
  cases tree with
  | leaf _ => trivial
  | cell _ _ => trivial
  | list _ _ => exact .inl h
  | map _ _ => exact .inl h

/-- What is inserted for a value without a schema. -/
theorem tryInferContainerType_nested (hinfer : inferOptions.getD {} = {}) {item : Value} :
    (isScalar item = true ∧ tryInferContainerType item inferOptions = none ∧
      insertChildToMap (some c) key item = { container := some c, key := .prop key, value := some item, kind := .insert }) ∨
    (isScalar item = false ∧ ∃ type, tryInferContainerType item inferOptions = some type ∧
      (∀ value, isValueOfContainerType type value = !isScalar value) ∧
      insertChildToMap (some c) key item =
        { container := some c, key := .prop key, value := some item, kind := .insertContainer type }) := by
  cases item with
  | obj entries =>
    refine .inr ⟨rfl, .map, rfl, fun value => ?_, rfl⟩
    simp [isValueOfContainerType, isScalar]
  | arr items =>
    refine .inr ⟨rfl, .list, by simp [tryInferContainerType, hinfer], fun value => ?_, rfl⟩
    simp [isValueOfContainerType, isScalar]
  | str s => exact .inl ⟨rfl, by simp [tryInferContainerType, hinfer], rfl⟩
  | null => exact .inl ⟨rfl, rfl, rfl⟩
  | bool b => exact .inl ⟨rfl, rfl, rfl⟩
  | num n => exact .inl ⟨rfl, rfl, rfl⟩

/-- A tree that is read as a scalar has no container. -/
theorem takes_of_toJson_scalar {tree : Tree} (h : isScalar tree.toJson = true) (item : Value) : Takes tree item := by
  cases tree with
  | leaf _ => trivial
  | cell _ _ => trivial
  | list id items =>
    rw [Tree.toJson] at h
    cases h
  | map id entries =>
    rw [Tree.toJson] at h
    cases h

theorem diffMapEntry_settles (hdefault : config.inferOptions = {}) (hinfer : inferOptions.getD {} = {})
    (htype : c.containerType = .map) (hview : view.container c = some (.map c stored)) (hsorted : KeyMap.Sorted stored)
    (hwritten : ∀ entry ∈ stored, Written entry.2) (hkey : key ≠ "") {item : Value}
    (hwanted : KeyMap.get key wanted = some item) (hwf : item.WF) (hregular : Regular item)
    (hchild : ∀ tree child, KeyMap.get key stored = some tree → tree.id? = some child → isScalar item = false →
      ChildRight L config tree child item (diffChild tree.toJson item child none)) :
    (∀ error, diffMapEntry view inferOptions diffChild (Tree.toJson (.map c stored)) (some c) none key item =
      .error error → ¬ FitsAt stored wanted key) ∧
    ∀ changes, diffMapEntry view inferOptions diffChild (Tree.toJson (.map c stored)) (some c) none key item =
      .ok changes → Belong c stored key changes ∧ Settles L config c stored wanted key changes := by
  have hold : objectGet (Tree.toJson (.map c stored)) key = (KeyMap.get key stored).map Tree.toJson := by
    rw [Tree.toJson_map hsorted]
    exact KeyMap.get_mapValues _ _ _
  have hentry : view.entryContainer c key = (KeyMap.get key stored).bind IdTree.id? := by
    simp [View.entryContainer, hview]
  -- The value is put at the key whenever nothing stored there stands in its way.
  have hinsert : FitsAt stored wanted key → Belong c stored key [insertChildToMap (some c) key item] ∧
      Settles L config c stored wanted key [insertChildToMap (some c) key item] := by
    intro hfits
    refine ⟨.inl fun change hchange => ?_, settles_insert hdefault htype hkey hwanted hwf hregular hfits⟩
    rw [List.mem_singleton.mp hchange]
    exact insertChildToMap_container
  have hfits : ∀ {tree}, KeyMap.get key stored = some tree → Takes tree item → FitsAt stored wanted key := by
    intro tree hget htakes other otherItem hother hotherItem
    obtain rfl := Option.some.inj (hget.symm.trans hother)
    obtain rfl := Option.some.inj (hwanted.symm.trans hotherItem)
    exact htakes
  have hdone : ∀ {outcome : Except DiffError (List Change)} {changes : List Change}, outcome = .ok changes →
      Belong c stored key changes ∧ Settles L config c stored wanted key changes →
      (∀ error, outcome = .error error → ¬ FitsAt stored wanted key) ∧
      ∀ changes, outcome = .ok changes → Belong c stored key changes ∧ Settles L config c stored wanted key changes := by
    intro outcome changes hok hright
    refine ⟨fun error herror => ?_, fun other hother => ?_⟩
    · cases hok.symm.trans herror
    · obtain rfl := Except.ok.inj (hok.symm.trans hother)
      exact hright
  unfold diffMapEntry
  rw [hold]
  simp only [Option.bind_none, Option.none_or]
  obtain ⟨hscalar, htypeOf, hchange⟩ | ⟨hnested, type, htypeOf, hvalueOf, hchange⟩ :=
    @tryInferContainerType_nested c key _ hinfer item
  · -- A scalar is put at the key, whatever is there.
    have hall : FitsAt stored wanted key := by
      intro tree other _ hother
      obtain rfl := Option.some.inj (hwanted.symm.trans hother)
      exact takes_of_isScalar hscalar
    have hright := hinsert hall
    rw [hchange] at hright
    simp only [htypeOf]
    cases hget : KeyMap.get key stored with
    | none => exact hdone rfl hright
    | some tree =>
      simp only [Option.map_some]
      split
      · exact hdone rfl hright
      · split
        next hequal =>
          refine hdone rfl ⟨.inl (List.forall_mem_nil _), settles_nil ?_ hall⟩
          rw [hget, hwanted]
          exact hequal
        · rw [hchange]
          exact hdone rfl hright
  · simp only [htypeOf]
    cases hget : KeyMap.get key stored with
    | none =>
      have hall : FitsAt stored wanted key := fun tree _ htree => by cases hget.symm.trans htree
      have hright := hinsert hall
      rw [hchange] at hright
      exact hdone rfl hright
    | some tree =>
      simp only [Option.map_some]
      by_cases hfalsy : isFalsy (some tree.toJson) = true
      · have hscalarOld : isScalar tree.toJson = true := by
          cases htree : tree.toJson with
          | arr _ => simp [isFalsy, htree] at hfalsy
          | obj _ => simp [isFalsy, htree] at hfalsy
          | _ => rfl
        have hright := hinsert (hfits hget (takes_of_toJson_scalar hscalarOld item))
        rw [hchange] at hright
        rw [if_pos hfalsy]
        exact hdone rfl hright
      · rw [if_neg hfalsy]
        by_cases hequal : tree.toJson.deepEqual item = true
        · rw [if_pos hequal]
          have htakes := takes_of_deepEqual (hwritten _ (KeyMap.mem_of_get hget)) hwf hequal
          refine hdone rfl ⟨.inl (List.forall_mem_nil _), settles_nil ?_ (hfits hget htakes)⟩
          rw [hget, hwanted]
          exact hequal
        · rw [if_neg hequal, hvalueOf, hvalueOf, hnested, hentry, hget, Option.bind_some]
          cases hscalarOld : isScalar tree.toJson with
          | true =>
            exact hdone rfl (hinsert (hfits hget (takes_of_toJson_scalar hscalarOld item)))
          | false =>
            rw [if_pos (show (!false && !false) = true from rfl),
              if_neg (show ¬ c.containerType ≠ .map from fun hne => hne htype)]
            cases hid : tree.id? with
            | none =>
              have htakes : Takes tree item := by
                cases tree with
                | leaf _ => trivial
                | _ => cases hid
              exact hdone rfl (hinsert (hfits hget htakes))
            | some child =>
              obtain ⟨hfail, hok⟩ := hchild tree child hget hid hnested
              refine ⟨fun error herror hall => ?_, fun changes hchanges => ?_⟩
              · exact hfail error herror (hall tree item hget hwanted)
              · obtain ⟨hinside, hreaches⟩ := hok changes hchanges
                exact ⟨.inr ⟨tree, hget, hinside⟩, settles_child hget hid hwanted hreaches⟩

end

end Zulangue.VtMirror
