import Zulangue.VtMirror.Apply

/-!
# Calls on attached containers, and differences that touch one place

What one call does to the mirror, how changes of one container are grouped, and the
differences of states that agree everywhere but at one key.
-/

namespace Zulangue.VtMirror

open Zulangue.Lib Mirror

/-! ## Calls -/

/-- What the mirror knows of a container: its node in the document. -/
def Mirror.At {L : Loro} (mirror : Mirror L) (id : ContainerID) (tree : Tree) : Prop :=
  IdTree.findItems id mirror.view = some tree

section
variable {L : Loro} {mirror : Mirror L}

theorem Mirror.At.container {id : ContainerID} {tree : Tree} (h : mirror.At id tree) :
    mirror.view.container id = some tree :=
  View.container_of_findItems h

theorem Mirror.At.mem {id : ContainerID} {tree : Tree} (h : mirror.At id tree) :
    id ∈ mirror.view.ids :=
  View.mem_ids_of_findItems h

theorem Mirror.At.listItems {id : ContainerID} {items : List Tree}
    (h : mirror.At id (.list id items)) : mirror.listItems id = items := by
  simp [Mirror.listItems, h.container]

/-- A call that its container takes changes the document there and nothing else. -/
theorem Mirror.call_ok (op : Op) {tree new : Tree}
    (hcontainer : mirror.view.container op.target = some tree)
    (heffect : op.effect (L.nextId mirror.doc) tree = some new) :
    ∃ doc, mirror.call op = .ok { mirror with doc } ∧
      L.view doc = mirror.view.put op.target new := by
  have happly : (L.view mirror.doc).apply (L.nextId mirror.doc) op =
      some (mirror.view.put op.target new) := by
    have hcontainer : (L.view mirror.doc).container op.target = some tree := hcontainer
    simp [View.apply, hcontainer, heffect, Mirror.view]
  obtain ⟨doc, hdoc, hview⟩ := L.apply_view mirror.doc op _ happly
  exact ⟨doc, by simp [Mirror.call, hdoc], hview⟩

/-- Deleting one item of a list. -/
theorem Mirror.call_listDelete {id : ContainerID} {items : List Tree}
    (h : mirror.At id (.list id items)) {index : Nat} (hlt : index < items.length) :
    ∃ doc, mirror.call (.listDelete id index 1) = .ok { mirror with doc } ∧
      L.view doc = mirror.view.put id (.list id (items.take index ++ items.drop (index + 1))) ∧
      IdTree.findItems id (L.view doc) =
        some (.list id (items.take index ++ items.drop (index + 1))) := by
  have heffect : (Op.listDelete id index 1).effect (L.nextId mirror.doc) (.list id items) =
      some (.list id (items.take index ++ items.drop (index + 1))) := by
    have hle : index + 1 ≤ items.length := hlt
    simp [Op.effect, hle]
  obtain ⟨doc, hcall, hview⟩ := Mirror.call_ok (.listDelete id index 1) h.container heffect
  exact ⟨doc, hcall, hview, by rw [hview]; exact View.findItems_put rfl⟩

end

/-! ## Buckets -/

theorem addToBucket_same {container : Option ContainerID} {change : Change}
    (h : change.container = container) (bucket : List Change) :
    addToBucket change [(container, bucket)] = [(container, bucket ++ [change])] := by
  simp [addToBucket, h]

/-- Changes of one container share one bucket. -/
theorem groupByContainer_same {container : Option ContainerID} {changes : List Change}
    (h : ∀ change ∈ changes, change.container = container) (hne : changes ≠ []) :
    groupByContainer changes = [(container, changes)] := by
  have hfold : ∀ (rest bucket : List Change), (∀ change ∈ rest, change.container = container) →
      rest.foldl (fun buckets change => addToBucket change buckets) [(container, bucket)] =
        [(container, bucket ++ rest)] := by
    intro rest
    induction rest with
    | nil => simp
    | cons change rest ih =>
      intro bucket hall
      rw [List.foldl_cons, addToBucket_same (hall change List.mem_cons_self),
        ih _ fun c hc => hall c (List.mem_cons_of_mem _ hc)]
      simp
  cases changes with
  | nil => exact absurd rfl hne
  | cons change rest =>
    have hfirst := h change List.mem_cons_self
    simpa [groupByContainer, addToBucket, hfirst] using
      hfold rest [change] fun c hc => h c (List.mem_cons_of_mem _ hc)

/-- Applying changes of one container. -/
theorem Mirror.applyChangesToLoro_same {L : Loro} {config : Config} {mirror : Mirror L}
    {container : ContainerID} {changes : List Change}
    (h : ∀ change ∈ changes, change.container = some container) (hne : changes ≠ []) :
    mirror.applyChangesToLoro config changes =
      mirror.applyContainerChanges config container changes := by
  rw [Mirror.applyChangesToLoro, groupByContainer_same h hne]
  simp [applyBucket]

theorem Mirror.applyChangesToLoro_one {L : Loro} (config : Config) (mirror : Mirror L)
    {change : Change} {container : ContainerID} (h : change.container = some container) :
    mirror.applyChangesToLoro config [change] =
      mirror.applyContainerChanges config container [change] := by
  refine applyChangesToLoro_same (fun c hc => ?_) (List.cons_ne_nil _ _)
  rw [List.mem_singleton.mp hc]
  exact h

/-- Every change ends up in a bucket of its container. -/
theorem addToBucket_perm (change : Change)
    {buckets : List (Option ContainerID × List Change)}
    (h : ∀ bucket ∈ buckets, ∀ c ∈ bucket.2, c.container = bucket.1) :
    ((addToBucket change buckets).flatMap (·.2)).Perm (change :: buckets.flatMap (·.2)) ∧
      ∀ bucket ∈ addToBucket change buckets, ∀ c ∈ bucket.2, c.container = bucket.1 := by
  induction buckets with
  | nil => simp [addToBucket]
  | cons bucket buckets ih =>
    obtain ⟨container, first⟩ := bucket
    have hfirst := h (container, first) List.mem_cons_self
    have hrest := fun b hb => h b (List.mem_cons_of_mem _ hb)
    by_cases heq : container = change.container
    · simp only [addToBucket, heq, if_true, List.flatMap_cons, List.append_assoc]
      constructor
      · exact List.perm_middle
      · intro b hb c hc
        rcases List.mem_cons.mp hb with rfl | hin
        · rcases List.mem_append.mp hc with hold | hnew
          · exact (hfirst c hold).trans heq
          · rw [List.mem_singleton.mp hnew]
        · exact hrest b hin c hc
    · obtain ⟨hperm, hall⟩ := ih hrest
      simp only [addToBucket, heq, if_false, List.flatMap_cons]
      constructor
      · exact (hperm.append_left first).trans List.perm_middle
      · intro b hb
        rcases List.mem_cons.mp hb with rfl | hin
        · exact hfirst
        · exact hall b hin

theorem groupByContainer_perm (changes : List Change) :
    ((groupByContainer changes).flatMap (·.2)).Perm changes ∧
      ∀ bucket ∈ groupByContainer changes, ∀ c ∈ bucket.2, c.container = bucket.1 := by
  have hfold : ∀ (rest : List Change) (buckets : List (Option ContainerID × List Change)),
      (∀ bucket ∈ buckets, ∀ c ∈ bucket.2, c.container = bucket.1) →
      ((rest.foldl (fun buckets change => addToBucket change buckets) buckets).flatMap (·.2)).Perm
          (rest ++ buckets.flatMap (·.2)) ∧
        ∀ bucket ∈ rest.foldl (fun buckets change => addToBucket change buckets) buckets,
          ∀ c ∈ bucket.2, c.container = bucket.1 := by
    intro rest
    induction rest with
    | nil => exact fun buckets h => ⟨.refl _, h⟩
    | cons change rest ih =>
      intro buckets h
      obtain ⟨hperm, hall⟩ := addToBucket_perm change h
      obtain ⟨hperm', hall'⟩ := ih _ hall
      exact ⟨hperm'.trans ((hperm.append_left rest).trans List.perm_middle), hall'⟩
  simpa [groupByContainer] using hfold changes [] (List.forall_mem_nil _)

/-- One change, on its own. -/
def Mirror.applyChange {L : Loro} (config : Config) (mirror : Mirror L) (change : Change) :
    Outcome L :=
  mirror.applyBucket config (change.container, [change])

section
variable {α β ε : Type} {f g : α → β → Except ε α}

theorem foldlM_of_forall {bs : List β} (h : ∀ a, ∀ b ∈ bs, g a b = [b].foldlM f a) (a : α) :
    bs.foldlM f a = bs.foldlM g a := by
  induction bs generalizing a with
  | nil => rfl
  | cons b bs ih =>
    have hb : g a b = f a b := by
      rw [h a b List.mem_cons_self]
      cases hf : f a b <;> simp [List.foldlM, hf, bind, Except.bind, pure, Except.pure]
    rw [List.foldlM_cons, List.foldlM_cons, hb]
    congr 1
    funext next
    exact ih (fun a b hb => h a b (List.mem_cons_of_mem _ hb)) next

theorem foldlM_ok {bs : List β} (h : ∀ a, ∀ b ∈ bs, g a b = .ok a) (a : α) :
    bs.foldlM g a = .ok a := by
  induction bs generalizing a with
  | nil => rfl
  | cons b bs ih =>
    rw [List.foldlM_cons, h a b List.mem_cons_self]
    exact ih (fun a b hb => h a b (List.mem_cons_of_mem _ hb)) a

end

/-- A bucket is applied change by change. -/
theorem Mirror.applyBucket_eq {L : Loro} {config : Config} {container : Option ContainerID}
    {changes : List Change} (h : ∀ c ∈ changes, c.container = container) (mirror : Mirror L) :
    mirror.applyBucket config (container, changes) = changes.foldlM (applyChange config) mirror := by
  have hchange : ∀ m : Mirror L, ∀ c ∈ changes,
      applyChange config m c = m.applyBucket config (container, [c]) := by
    intro m c hc
    rw [applyChange, h c hc]
  cases container with
  | none => exact foldlM_of_forall hchange mirror
  | some id =>
    cases htype : id.containerType with
    | map | list | movableList | text =>
      simp only [applyBucket, applyContainerChanges, htype] at hchange ⊢
      exact foldlM_of_forall hchange mirror
    | tree | counter | unknown =>
      simp only [applyBucket, applyContainerChanges, htype] at hchange ⊢
      exact (foldlM_ok hchange mirror).symm

/-- The changes are applied one by one, in the order of the buckets. -/
theorem Mirror.applyChangesToLoro_eq {L : Loro} (config : Config) (mirror : Mirror L) (changes : List Change) :
    mirror.applyChangesToLoro config changes =
      ((groupByContainer changes).flatMap (·.2)).foldlM (applyChange config) mirror := by
  have hflat : ∀ (buckets : List (Option ContainerID × List Change)) (mirror : Mirror L),
      (∀ bucket ∈ buckets, ∀ c ∈ bucket.2, c.container = bucket.1) →
      buckets.foldlM (applyBucket config) mirror =
        (buckets.flatMap (·.2)).foldlM (applyChange config) mirror := by
    intro buckets
    induction buckets with
    | nil => exact fun _ _ => rfl
    | cons bucket buckets ih =>
      intro mirror h
      rw [List.foldlM_cons, List.flatMap_cons, List.foldlM_append,
        applyBucket_eq (h bucket List.mem_cons_self)]
      congr 1
      funext next
      exact ih next fun b hb => h b (List.mem_cons_of_mem _ hb)
  exact hflat _ _ (groupByContainer_perm changes).2

/-- Grouping only reorders the changes. -/
theorem Mirror.applyChangesToLoro_perm {L : Loro} (config : Config) (mirror : Mirror L)
    (changes : List Change) : ∃ ordered : List Change, ordered.Perm changes ∧
      mirror.applyChangesToLoro config changes = ordered.foldlM (applyChange config) mirror :=
  ⟨_, (groupByContainer_perm changes).1, applyChangesToLoro_eq config mirror changes⟩

/-! ## Differences in one place -/

theorem collectChanges_ok {α : Type} {f : α → Except DiffError (List Change)}
    {changes : α → List Change} {as : List α} (h : ∀ a ∈ as, f a = .ok (changes a)) :
    collectChanges f as = .ok (as.flatMap changes) := by
  induction as with
  | nil => rfl
  | cons a as ih =>
    rw [collectChanges, h a List.mem_cons_self, ih fun b hb => h b (List.mem_cons_of_mem _ hb)]
    rfl

theorem collectChanges_eq_error {α : Type} {f : α → Except DiffError (List Change)} {as : List α} {error : DiffError}
    (h : collectChanges f as = .error error) : ∃ a ∈ as, f a = .error error := by
  induction as with
  | nil => cases h
  | cons a as ih =>
    rw [collectChanges] at h
    cases hfirst : f a with
    | error other =>
      rw [hfirst] at h
      obtain rfl : other = error := Except.error.inj h
      exact ⟨a, List.mem_cons_self, hfirst⟩
    | ok first =>
      rw [hfirst] at h
      cases hrest : collectChanges f as with
      | error other =>
        rw [hrest] at h
        obtain rfl : other = error := Except.error.inj h
        obtain ⟨b, hb, hfail⟩ := ih hrest
        exact ⟨b, List.mem_cons_of_mem _ hb, hfail⟩
      | ok rest =>
        rw [hrest] at h
        cases h

theorem collectChanges_eq_ok {α : Type} {f : α → Except DiffError (List Change)} {as : List α} {changes : List Change}
    (h : collectChanges f as = .ok changes) :
    ∃ g : α → List Change, (∀ a ∈ as, f a = .ok (g a)) ∧ changes = as.flatMap g := by
  refine ⟨fun a => (f a).toOption.getD [], ?_⟩
  induction as generalizing changes with
  | nil =>
    obtain rfl := Except.ok.inj h
    exact ⟨List.forall_mem_nil _, rfl⟩
  | cons a as ih =>
    rw [collectChanges] at h
    cases hfirst : f a with
    | error other =>
      rw [hfirst] at h
      cases h
    | ok first =>
      rw [hfirst] at h
      cases hrest : collectChanges f as with
      | error other =>
        rw [hrest] at h
        cases h
      | ok rest =>
        rw [hrest] at h
        obtain rfl := Except.ok.inj h
        obtain ⟨hall, heq⟩ := ih hrest
        refine ⟨List.forall_mem_cons.mpr ⟨by simp [hfirst, Except.toOption], hall⟩, ?_⟩
        rw [List.flatMap_cons, ← heq, hfirst]
        rfl

theorem collectChanges_map {α β : Type} (f : β → Except DiffError (List Change)) (g : α → β)
    (as : List α) : collectChanges f (as.map g) = collectChanges (fun a => f (g a)) as := by
  induction as with
  | nil => rfl
  | cons a as ih => simp only [List.map_cons, collectChanges, ih]

/-- When only one element has changes, they are all the changes. -/
theorem collectChanges_single {α : Type} {f : α → Except DiffError (List Change)}
    {as : List α} {a : α} (hmem : a ∈ as) (hnodup : as.Nodup)
    (hothers : ∀ b ∈ as, b ≠ a → f b = .ok []) : collectChanges f as = f a := by
  induction as with
  | nil => cases hmem
  | cons first rest ih =>
    obtain ⟨hfirst, hrest⟩ := List.nodup_cons.mp hnodup
    by_cases heq : first = a
    · subst heq
      have hnil : collectChanges f rest = .ok (rest.flatMap fun _ => []) :=
        collectChanges_ok fun b hb =>
          hothers b (List.mem_cons_of_mem _ hb) fun e => hfirst (e ▸ hb)
      rw [collectChanges, hnil]
      cases f first <;> simp [bind, Except.bind, pure, Except.pure]
    · have hin : a ∈ rest := (List.mem_cons.mp hmem).resolve_left (Ne.symm heq)
      rw [collectChanges, hothers first List.mem_cons_self heq,
        ih hin hrest fun b hb => hothers b (List.mem_cons_of_mem _ hb)]
      cases f a <;> simp [bind, Except.bind, pure, Except.pure]

section
variable {view : View} {inferOptions : Option InferContainerOptions}
  {diffChild : Value → Value → ContainerID → Option Schema → Except DiffError (List Change)}

/-- A value that stays and is not falsy makes no change. -/
theorem diffMapEntry_same {oldState : Value} {container : Option ContainerID}
    {fields : Option (List (String × Schema))} {key : String} {value : Value} (hwf : value.WF)
    (hget : objectGet oldState key = some value) (hfalsy : isFalsy (some value) = false) :
    diffMapEntry view inferOptions diffChild oldState container fields key value = .ok [] := by
  simp [diffMapEntry, hget, hfalsy, Value.deepEqual_refl hwf]

/-- Objects that differ at one key differ by what that key's values differ. -/
theorem diffMap_insert {entries : List (String × Value)} {key : String} {new : Value}
    {container : Option ContainerID} {schema : Option Schema} (hsorted : KeyMap.Sorted entries)
    (hwf : ∀ entry ∈ entries, entry.2.WF)
    (hfalsy : ∀ entry ∈ entries, entry.1 ≠ key → isFalsy (some entry.2) = false) :
    diffMap view inferOptions diffChild (.obj entries) (.obj (KeyMap.insert key new entries))
        container schema =
      diffMapEntry view inferOptions diffChild (.obj entries) container
        (schema.bind Schema.fields?) key new := by
  have hsorted' := KeyMap.sorted_insert hsorted key new
  have hdeletes : ((objectEntries (.obj entries)).filterMap fun (entry : String × Value) =>
      if (objectGet (.obj (KeyMap.insert key new entries)) entry.1).isNone then
        some ({ container, key := .prop entry.1, value := none, kind := .delete } : Change)
      else none) = [] := by
    refine List.filterMap_eq_nil_iff.mpr fun entry hentry => ?_
    have hentry : entry ∈ entries := hentry
    have hsome : (objectGet (.obj (KeyMap.insert key new entries)) entry.1).isNone = false := by
      by_cases hkey : entry.1 = key
      · simp [objectGet, hkey]
      · simp [objectGet, KeyMap.get_insert, hkey, hsorted.get_of_mem (v := entry.2) hentry]
    simp [hsome]
  have hmem : (key, new) ∈ KeyMap.insert key new entries :=
    KeyMap.mem_of_get (KeyMap.get_insert_self key new entries)
  have hupdates : collectChanges
      (fun (entry : String × Value) => diffMapEntry view inferOptions diffChild (.obj entries) container
        (schema.bind Schema.fields?) entry.1 entry.2)
      (objectEntries (.obj (KeyMap.insert key new entries))) =
      diffMapEntry view inferOptions diffChild (.obj entries) container
        (schema.bind Schema.fields?) key new := by
    refine collectChanges_single (a := (key, new)) hmem hsorted'.nodup fun entry hentry hne => ?_
    have hold : entry ∈ entries := (KeyMap.mem_insert hentry).resolve_left hne
    have hkey : entry.1 ≠ key := by
      intro hkey
      have hget' := hsorted'.get_of_mem (k := entry.1) (v := entry.2) hentry
      rw [hkey, KeyMap.get_insert_self] at hget'
      exact hne (Prod.ext hkey (Option.some.inj hget').symm)
    exact diffMapEntry_same (hwf _ hold) (hsorted.get_of_mem (v := entry.2) hold)
      (hfalsy _ hold hkey)
  unfold diffMap
  rw [hupdates, hdeletes]
  cases diffMapEntry view inferOptions diffChild (.obj entries) container
    (schema.bind Schema.fields?) key new <;> simp [bind, Except.bind, pure, Except.pure]

/-- Nothing is done about items that are equal. -/
theorem keyedScan_same {container : ContainerID} {itemSchema : Option Schema}
    {idSelector : IdSelector} {oldIds : List String} {oldItems newItems : List Value}
    (h : Value.deepEqualItems oldItems newItems = true) (index : Nat) (offset : Int) :
    keyedScan view diffChild container itemSchema idSelector oldIds index oldItems offset
      newItems = .ok [] := by
  induction oldItems generalizing newItems index with
  | nil =>
    cases newItems with
    | nil => rfl
    | cons _ _ => simp [Value.deepEqualItems] at h
  | cons oldItem oldItems ih =>
    cases newItems with
    | nil => simp [Value.deepEqualItems] at h
    | cons newItem newItems =>
      simp only [Value.deepEqualItems, Bool.and_eq_true] at h
      simp only [keyedScan, keyedItem, h.1, if_true]
      exact ih h.2 (index + 1)

section
variable {container : ContainerID} {itemSchema : Option Schema} {idSelector : IdSelector}
  {oldIds : List String} {before after : List Value}

/-- Equal items in front are passed over. -/
theorem keyedScan_append (hbefore : ∀ item ∈ before, item.WF) (index : Nat) (offset : Int)
    (oldItems newItems : List Value) :
    keyedScan view diffChild container itemSchema idSelector oldIds index (before ++ oldItems) offset
        (before ++ newItems) =
      keyedScan view diffChild container itemSchema idSelector oldIds (index + before.length) oldItems
        offset newItems := by
  induction before generalizing index with
  | nil => rfl
  | cons item before ih =>
    have hrefl := Value.deepEqual_refl (hbefore item List.mem_cons_self)
    simp only [List.cons_append, keyedScan, keyedItem, hrefl, if_true, List.length_cons]
    rw [ih (fun v hv => hbefore v (List.mem_cons_of_mem _ hv)) (index + 1)]
    congr 1
    omega

/-- One item that keeps its id changes as its container does. -/
theorem keyedScan_set (hbefore : ∀ item ∈ before, item.WF) (hafter : ∀ item ∈ after, item.WF)
    {oldItem newItem : Value} {id : String} {child : ContainerID}
    (hne : oldItem.deepEqual newItem = false) (hold : selectId idSelector oldItem = some id)
    (hnew : selectId idSelector newItem = some id)
    (hchild : view.itemContainer container before.length = some child) :
    keyedScan view diffChild container itemSchema idSelector oldIds 0 (before ++ oldItem :: after) 0
        (before ++ newItem :: after) = diffChild oldItem newItem child itemSchema := by
  have hsame : keyedScan view diffChild container itemSchema idSelector oldIds
      (before.length + 1) after 0 after = .ok [] :=
    keyedScan_same (Value.deepEqualItems_refl (Value.wfItems_iff.mpr hafter)) _ _
  rw [keyedScan_append hbefore, Nat.zero_add]
  simp only [keyedScan, keyedItem, hne, Bool.false_eq_true, if_false, hold, hnew, if_true, hchild,
    hsame]
  cases diffChild oldItem newItem child itemSchema <;>
    simp [bind, Except.bind, pure, Except.pure]

/-- One item with an id of its own is inserted where it is. -/
theorem keyedScan_insert (hbefore : ∀ item ∈ before, item.WF) (hafter : ∀ item ∈ after, item.WF)
    {newItem : Value} {id : String} (hnew : selectId idSelector newItem = some id)
    (hfresh : id ∉ oldIds)
    (hids : ∀ item ∈ after, ∃ oldId ∈ oldIds, selectId idSelector item = some oldId)
    (hne : ∀ item ∈ after, item.deepEqual newItem = false) :
    keyedScan view diffChild container itemSchema idSelector oldIds 0 (before ++ after) 0
        (before ++ newItem :: after) =
      .ok [insertAt container itemSchema before.length newItem] := by
  have hindex : signed before.length 0 = before.length := by simp [signed]
  rw [keyedScan_append hbefore, Nat.zero_add]
  cases after with
  | nil => simp [keyedScan, keyedTail, hindex]
  | cons item after =>
    obtain ⟨oldId, hmem, hid⟩ := hids item List.mem_cons_self
    have hneId : oldId ≠ id := fun h => hfresh (h ▸ hmem)
    have hitem := Value.deepEqual_refl (hafter item List.mem_cons_self)
    have hsame : keyedScan view diffChild container itemSchema idSelector oldIds
        (before.length + 1) after 1 after = .ok [] := by
      apply keyedScan_same
      exact Value.deepEqualItems_refl
        (Value.wfItems_iff.mpr fun v hv => hafter v (List.mem_cons_of_mem _ hv))
    simp [keyedScan, keyedItem, hne item List.mem_cons_self, hid, hnew, hneId, hfresh, hitem,
      hsame, hindex, bind, Except.bind, pure, Except.pure]

end

end

/-! ## Agreement of state and document -/

/-- The deep value of a declared root container. -/
def View.rootValue (view : View) (key : String) (schema : Schema) : Value :=
  match (schema.containerType.bind (rootContainerId key)).bind view.container with
  | some tree => tree.toJson
  | none => .null

/-- The state is what the document holds in the roots of the schema. -/
def Mirror.Agrees {L : Loro} (config : Config) (mirror : Mirror L) : Prop :=
  mirror.state = .obj (((config.schema.bind Schema.fields?).getD []).map fun field =>
    (field.1, mirror.view.rootValue field.1 field.2))

section
variable {L : Loro} {config : Config} {mirror : Mirror L}

/-- A valid state whose changes apply becomes the state of the mirror. -/
theorem Mirror.setState_ok {newState : Value} {changes : List Change} {doc : L.Doc}
    {registry : Registry}
    (hvalid : validationErrors config newState = [])
    (hdiff : diffContainer mirror.view mirror.state newState none config.schema
      (some config.inferOptions) = .ok changes)
    (happly : mirror.applyChangesToLoro config changes = .ok { mirror with doc, registry }) :
    mirror.setState config newState = .ok { doc, registry, state := newState } := by
  simp [Mirror.setState, hvalid, Mirror.updateLoro, hdiff, happly, bind, Except.bind, pure,
    Except.pure]

/-- A state that is set was valid. -/
theorem Mirror.valid_of_setState {newState : Value} {after : Mirror L}
    (h : mirror.setState config newState = .ok after) :
    validationErrors config newState = [] := by
  by_contra hne
  simp [Mirror.setState, hne] at h

end

end Zulangue.VtMirror
