import Zulangue.VtMirror.Calls

/-!
# Edits below an item of a list

A call on a container inside an item replaces it there and leaves the other items alone.
Creating a text container and filling it is one such edit, and so is filling a map.
-/

namespace Zulangue.VtMirror

open Zulangue.Lib Mirror

/-! ## Calls inside an item -/

/-- The list `u` holds `t`, with `before` in front of it and `after` behind it. -/
def Mirror.ItemAt {L : Loro} (mirror : Mirror L) (u : ContainerID) (before : List Tree)
    (t : Tree) (after : List Tree) : Prop :=
  mirror.At u (.list u (before ++ t :: after))

section
variable {L : Loro} {mirror : Mirror L} {u : ContainerID} {before after : List Tree} {t : Tree}

theorem Mirror.view_nodup (mirror : Mirror L) : (IdTree.idsItems mirror.view).Nodup :=
  L.ids_nodup mirror.doc

theorem Mirror.At.inside {c d : ContainerID} {o sub : Tree} (hat : mirror.At c o)
    (hfind : IdTree.find? d o = some sub) : mirror.At d sub := by
  have hnested := IdTree.nestedItems sub mirror.view_nodup hat (IdTree.mem_of_find? hfind)
  exact hnested.1.trans hfind

theorem idsItems_append (items rest : List Tree) :
    IdTree.idsItems (items ++ rest) = IdTree.idsItems items ++ IdTree.idsItems rest := by
  induction items with
  | nil => rfl
  | cons item items ih => simp [IdTree.idsItems, ih]

theorem Mirror.ItemAt.nodup (hat : mirror.ItemAt u before t after) :
    (u :: IdTree.idsItems (before ++ t :: after)).Nodup :=
  IdTree.nodup_of_findItems mirror.view_nodup hat

theorem Mirror.ItemAt.nodup_item (hat : mirror.ItemAt u before t after) : t.ids.Nodup := by
  have hitems := (List.nodup_cons.mp hat.nodup).2
  rw [idsItems_append] at hitems
  have htail := (List.nodup_append.mp hitems).2.1
  exact (List.nodup_append.mp htail).1

/-- A container inside the item is found there. -/
theorem Mirror.ItemAt.inside {c : ContainerID} {sub : Tree} (hat : mirror.ItemAt u before t after)
    (hfind : IdTree.find? c t = some sub) :
    IdTree.find? c (.list u (before ++ t :: after)) = some sub ∧
      ∀ new, IdTree.replace c new (.list u (before ++ t :: after)) =
        .list u (before ++ IdTree.replace c new t :: after) := by
  obtain ⟨hu, hitems⟩ := List.nodup_cons.mp hat.nodup
  have hc : c ∈ t.ids := IdTree.mem_of_find? hfind
  have hget : (before ++ t :: after)[before.length]? = some t := by simp
  have hmem := IdTree.mem_idsItems_of_getElem? hget hc
  have hne : u ≠ c := fun h => hu (h ▸ hmem)
  constructor
  · have hnested := IdTree.nested_getElem? t hitems hget hc
    simp [IdTree.find?, hne, hnested.1, hfind]
  · intro new
    have hnested := IdTree.nested_getElem? new hitems hget hc
    simp [IdTree.replace, hne, hnested.2]

theorem Mirror.ItemAt.at {c : ContainerID} {sub : Tree} (hat : mirror.ItemAt u before t after)
    (hfind : IdTree.find? c t = some sub) : mirror.At c sub :=
  Mirror.At.inside hat (hat.inside hfind).1

/-- The id of the next container is not used in the list. -/
theorem Mirror.ItemAt.fresh (hat : mirror.ItemAt u before t after) (type : ContainerType) :
    u ≠ L.nextId mirror.doc type ∧ L.nextId mirror.doc type ∉ IdTree.idsItems before ∧
      L.nextId mirror.doc type ∉ t.ids ∧ L.nextId mirror.doc type ∉ IdTree.idsItems after := by
  have hnot : L.nextId mirror.doc type ∉ (IdTree.list u (before ++ t :: after)).ids :=
    fun hmem => L.nextId_fresh mirror.doc type (IdTree.findItems_subset hat _ hmem)
  simp only [IdTree.ids, idsItems_append, IdTree.idsItems, List.mem_cons, List.mem_append,
    not_or] at hnot
  exact ⟨Ne.symm hnot.1, hnot.2.1, hnot.2.2.1, hnot.2.2.2⟩

/-- A call on a container inside the item replaces it inside the item. -/
theorem Mirror.ItemAt.call (hat : mirror.ItemAt u before t after) (op : Op) {sub new : Tree}
    (hfind : IdTree.find? op.target t = some sub)
    (heffect : op.effect (L.nextId mirror.doc) sub = some new) :
    ∃ doc, mirror.call op = .ok { mirror with doc } ∧
      ({ mirror with doc } : Mirror L).ItemAt u before (IdTree.replace op.target new t) after := by
  have hsub := hat.at hfind
  obtain ⟨hin, hreplace⟩ := hat.inside hfind
  obtain ⟨doc, hcall, hview⟩ := Mirror.call_ok op hsub.container heffect
  refine ⟨doc, hcall, ?_⟩
  have hnested := IdTree.nestedItems new mirror.view_nodup hat (IdTree.mem_of_find? hin)
  have hput : mirror.view.put op.target new = IdTree.replaceItems op.target new mirror.view :=
    if_pos hsub.mem
  rw [hput, hnested.2, hreplace] at hview
  have hid : (IdTree.list u (before ++ IdTree.replace op.target new t :: after) : Tree).id? =
      some u := rfl
  have hfound := IdTree.findItems_replaceItems hid hat.mem
  rw [← hview] at hfound
  exact hfound

end

/-! ## New containers -/

theorem registerTree_empty {id : ContainerID} {child : Tree} (h : id.empty = some child)
    (schema : Option Schema) (registry : Registry) :
    registerTree schema child registry = Function.update registry id (some schema) := by
  unfold ContainerID.empty at h
  split at h <;> simp only [Option.some.injEq, reduceCtorEq] at h <;> subst h <;> rfl

mutual

/-- Registering a tree says nothing of the containers that are not in it. -/
theorem registerTree_of_notMem {id : ContainerID} (schema : Option Schema) :
    ∀ {t : Tree} (registry : Registry), id ∉ t.ids → registerTree schema t registry id = registry id
  | .leaf _, _, _ => rfl
  | .cell c _, _, h => by
    simp only [IdTree.ids, List.mem_singleton] at h
    exact Function.update_of_ne h _ _
  | .list c items, registry, h => by
    simp only [IdTree.ids, List.mem_cons, not_or] at h
    rw [registerTree, registerItems_of_notMem _ _ h.2]
    exact Function.update_of_ne h.1 _ _
  | .map c entries, registry, h => by
    simp only [IdTree.ids, List.mem_cons, not_or] at h
    rw [registerTree, registerEntries_of_notMem _ _ h.2]
    exact Function.update_of_ne h.1 _ _

theorem registerItems_of_notMem {id : ContainerID} (schema : Option Schema) :
    ∀ {items : List Tree} (registry : Registry), id ∉ IdTree.idsItems items →
      registerItems schema items registry id = registry id
  | [], _, _ => rfl
  | _ :: _, registry, h => by
    simp only [IdTree.idsItems, List.mem_append, not_or] at h
    rw [registerItems, registerItems_of_notMem _ _ h.2, registerTree_of_notMem _ _ h.1]

theorem registerEntries_of_notMem {id : ContainerID} (schema : Option Schema) :
    ∀ {entries : List (String × Tree)} (registry : Registry), id ∉ IdTree.idsEntries entries →
      registerEntries schema entries registry id = registry id
  | [], _, _ => rfl
  | (_, _) :: _, registry, h => by
    simp only [IdTree.idsEntries, List.mem_append, not_or] at h
    exact (registerEntries_of_notMem schema _ h.2).trans (registerTree_of_notMem _ _ h.1)

end

theorem Loro.empty_text (L : Loro) (doc : L.Doc) : (L.nextId doc .text).empty =
    some (.cell (L.nextId doc .text) (.string "")) := by
  simp [ContainerID.empty, L.nextId_type]

theorem Loro.empty_map (L : Loro) (doc : L.Doc) : (L.nextId doc .map).empty =
    some (.map (L.nextId doc .map) []) := by
  simp [ContainerID.empty, L.nextId_type]

section
variable {L : Loro}

/-- The mirror with another document, and `n` registered. -/
def Mirror.created (mirror : Mirror L) (doc : L.Doc) (n : ContainerID) (schema : Option Schema) :
    Mirror L :=
  { mirror with doc, registry := Function.update mirror.registry n (some schema) }

variable {mirror : Mirror L} {u : ContainerID} {before after : List Tree} {t : Tree}
  {config : Config} {schema : Option Schema} {value : Value}

theorem Mirror.created_registry_of_ne {doc : L.Doc} {n d : ContainerID} (hne : d ≠ n) :
    (mirror.created doc n schema).registry d = mirror.registry d :=
  Function.update_of_ne hne _ _

theorem Mirror.created_registry_self {doc : L.Doc} {n : ContainerID} :
    (mirror.created doc n schema).registry n = some schema :=
  Function.update_self _ _ _

/-- A container that a call made is registered with its schema. -/
theorem Mirror.createContainer_ok {op : ContainerType → Op} {type : ContainerType} {child : Tree}
    {doc : L.Doc} (htype : newContainerType config schema value = some type)
    (hcall : mirror.call (op type) = .ok { mirror with doc })
    (hempty : (L.nextId mirror.doc type).empty = some child)
    (hfound : (L.view doc).container (L.nextId mirror.doc type) = some child) :
    mirror.createContainer config schema value op =
      .ok (L.nextId mirror.doc type, mirror.created doc (L.nextId mirror.doc type) schema) := by
  have hregister : ({ mirror with doc } : Mirror L).registerContainer (L.nextId mirror.doc type)
      schema = mirror.created doc (L.nextId mirror.doc type) schema := by
    have hfound' : ({ mirror with doc } : Mirror L).view.container (L.nextId mirror.doc type) =
      some child := hfound
    simp [registerContainer, hfound', registerTree_empty hempty, Mirror.created]
  simp [createContainer, htype, hcall, hregister, bind, Except.bind, pure, Except.pure]

/-- A new container at a key of a map inside the item. -/
theorem Mirror.ItemAt.create (hat : mirror.ItemAt u before t after) {m : ContainerID}
    {entries : List (String × Tree)} {type : ContainerType} {child : Tree} (key : String)
    (hfind : IdTree.find? m t = some (.map m entries))
    (htype : newContainerType config schema value = some type)
    (hempty : (L.nextId mirror.doc type).empty = some child) :
    ∃ doc, mirror.createContainer config schema value (.mapInsertContainer m key) =
        .ok (L.nextId mirror.doc type, mirror.created doc (L.nextId mirror.doc type) schema) ∧
      (mirror.created doc (L.nextId mirror.doc type) schema).ItemAt u before
        (IdTree.replace m (.map m (KeyMap.insert key child entries)) t) after := by
  have heffect : (Op.mapInsertContainer m key type).effect (L.nextId mirror.doc) (.map m entries) =
      some (.map m (KeyMap.insert key child entries)) := by
    simp [Op.effect, hempty]
  obtain ⟨doc, hcall, hat'⟩ := hat.call (.mapInsertContainer m key type) hfind heffect
  have hchild := (Op.id?_of_empty hempty).1
  have hfound := (IdTree.replace_fresh hfind (hat.fresh type).2.2.1 hchild hat'.nodup_item).1
  exact ⟨doc, createContainer_ok htype hcall hempty (hat'.at hfound).container, hat'⟩

/-- A text put at a key of a map inside the item. -/
theorem Mirror.ItemAt.insertText (hat : mirror.ItemAt u before t after) {m : ContainerID}
    {entries : List (String × Tree)} (hfind : IdTree.find? m t = some (.map m entries))
    (config : Config) (key s : String) (options : SchemaOptions) :
    ∃ doc, mirror.insertContainerIntoMap config m (some (.text options)) key (.str s) =
        .ok (mirror.created doc (L.nextId mirror.doc .text) (some (.text options))) ∧
      (mirror.created doc (L.nextId mirror.doc .text) (some (.text options))).ItemAt u before
        (IdTree.replace m (.map m
          (KeyMap.insert key (.cell (L.nextId mirror.doc .text) (.string s)) entries)) t) after := by
  have hempty := L.empty_text mirror.doc
  have htype : newContainerType config (some (.text options)) (.str s) = some .text := rfl
  obtain ⟨doc, hcreate, hat'⟩ := hat.create key hfind htype hempty
  obtain ⟨hfound, hreplace⟩ := IdTree.replace_fresh hfind (hat.fresh .text).2.2.1 rfl hat'.nodup_item
  obtain ⟨doc', hcall, hat''⟩ := hat'.call (.textUpdate (L.nextId mirror.doc .text) s) hfound rfl
  rw [Op.target, hreplace] at hat''
  refine ⟨doc', ?_, hat''⟩
  have hinit : initializeContainer config (L.nextId mirror.doc .text) (some (.text options)) (.str s)
      (mirror.created doc (L.nextId mirror.doc .text) (some (.text options))) =
      .ok (mirror.created doc' (L.nextId mirror.doc .text) (some (.text options))) := by
    simp only [initializeContainer, L.nextId_type]
    exact hcall
  simp only [insertContainerIntoMap, hcreate, bind, Except.bind]
  exact hinit

/-! ## Filling a map -/

/-- Texts with the containers that hold them. -/
abbrev TextCells := List (String × ContainerID × String)

def TextCells.entries (cells : TextCells) : List (String × Tree) :=
  KeyMap.mapValues (fun cell => .cell cell.1 (.string cell.2)) cells

def TextCells.texts (cells : TextCells) : List (String × String) :=
  KeyMap.mapValues (fun cell => cell.2) cells

/-- The ids of the list and of its other items. -/
def Outside (u : ContainerID) (before after : List Tree) (d : ContainerID) : Prop :=
  d = u ∨ d ∈ IdTree.idsItems before ∨ d ∈ IdTree.idsItems after

/-- The ids that an edit of the map `m` in the item `b` does not register anew. -/
def Untouched (u : ContainerID) (before after : List Tree) (b m d : ContainerID) : Prop :=
  Outside u before after d ∨ d = b ∨ d = m

theorem Mirror.ItemAt.ne_of_outside {n d : ContainerID} (hat : mirror.ItemAt u before t after)
    (hn : n ∈ t.ids) (hd : Outside u before after d) : d ≠ n := by
  have hnodup := hat.nodup
  simp only [idsItems_append, IdTree.idsItems, List.nodup_cons, List.nodup_append,
    List.mem_append, not_or] at hnodup
  obtain ⟨hu, _, ⟨_, _, hafter⟩, hbefore⟩ := hnodup
  rintro rfl
  rcases hd with rfl | h | h
  · exact hu.2.1 hn
  · exact hbefore d h d (.inl hn) rfl
  · exact hafter d hn d h rfl

theorem Mirror.ItemAt.ne_fresh {b m d : ContainerID} (hat : mirror.ItemAt u before t after)
    (hb : b ∈ t.ids) (hm : m ∈ t.ids) (hd : Untouched u before after b m d) (type : ContainerType) :
    d ≠ L.nextId mirror.doc type := by
  obtain ⟨hlist, hbefore, hitem, hafter⟩ := hat.fresh type
  intro heq
  rcases hd with (rfl | h | h) | rfl | rfl
  · exact hlist heq
  · exact hbefore (heq ▸ h)
  · exact hafter (heq ▸ h)
  · exact hitem (heq ▸ hb)
  · exact hitem (heq ▸ hm)

/-- A map of texts is filled key by key, each text in a container of its own. -/
theorem Mirror.ItemAt.fillTexts {fields : List (String × Schema)} {options : SchemaOptions}
    {texts : List (String × String)} {done : TextCells} {b m : ContainerID}
    (hat : mirror.ItemAt u before (IdTree.replace m (.map m done.entries) t) after)
    (hid : t.id? = some b) (hm : m ∈ t.ids)
    (hfields : ∀ entry ∈ texts, ∃ options, KeyMap.get entry.1 fields = some (.text options))
    (hsorted : KeyMap.Sorted (done.texts ++ texts)) (config : Config) :
    ∃ (mirror' : Mirror L) (cells : TextCells),
      initializeEntries config m (some (.map fields options)) (KeyMap.mapValues .str texts) mirror =
        .ok mirror' ∧
      mirror'.ItemAt u before (IdTree.replace m (.map m (done ++ cells).entries) t) after ∧
      cells.texts = texts ∧ (∀ cell ∈ cells, cell.2.1.containerType = .text) ∧
      mirror'.state = mirror.state ∧
      ∀ d, Untouched u before after b m d → mirror'.registry d = mirror.registry d := by
  induction texts generalizing done mirror with
  | nil =>
    refine ⟨mirror, [], rfl, ?_, rfl, List.forall_mem_nil _, rfl, fun _ _ => rfl⟩
    rw [List.append_nil]
    exact hat
  | cons entry texts ih =>
    obtain ⟨key, s⟩ := entry
    obtain ⟨o, hget⟩ := hfields (key, s) List.mem_cons_self
    have hmap : (IdTree.map m done.entries : Tree).id? = some m := rfl
    have hfind := IdTree.find?_replace hmap hm
    obtain ⟨doc, hinsert, hat'⟩ := hat.insertText hfind config key s o
    have hlast : KeyMap.insert key (.cell (L.nextId mirror.doc .text) (.string s)) done.entries =
        (done ++ [(key, L.nextId mirror.doc .text, s)]).entries := by
      rw [KeyMap.insert_of_forall_lt]
      · simp [TextCells.entries, KeyMap.mapValues]
      · intro e he
        obtain ⟨cell, hcell, rfl⟩ := List.mem_map.mp he
        have hpair := (List.pairwise_append.mp hsorted).2.2
        exact hpair (cell.1, cell.2.2) (List.mem_map_of_mem hcell) _ List.mem_cons_self
    rw [hlast, IdTree.replace_replace hmap] at hat'
    have hsorted' : KeyMap.Sorted
        (TextCells.texts (done ++ [(key, L.nextId mirror.doc .text, s)]) ++ texts) := by
      simpa [TextCells.texts, KeyMap.mapValues] using hsorted
    obtain ⟨mirror', cells, hinit, hat'', htexts, htypes, hstate, hregistry⟩ := ih hat'
      (fun e he => hfields e (List.mem_cons_of_mem _ he)) hsorted'
    refine ⟨mirror', (key, L.nextId mirror.doc .text, s) :: cells, ?_, ?_, ?_, ?_, hstate, ?_⟩
    · rw [KeyMap.mapValues_cons, initializeEntries_container hget rfl rfl, hinsert]
      exact hinit
    · simpa using hat''
    · rw [TextCells.texts, KeyMap.mapValues_cons]
      exact congrArg _ htexts
    · intro cell hcell
      rcases List.mem_cons.mp hcell with rfl | hrest
      · exact L.nextId_type _ _
      · exact htypes cell hrest
    · intro d hd
      have hb := IdTree.mem_ids_self (IdTree.id?_replace hid hmap)
      have hm' := IdTree.mem_of_find? hfind
      rw [hregistry d hd]
      exact created_registry_of_ne (hat.ne_fresh hb hm' hd .text)

end

end Zulangue.VtMirror
