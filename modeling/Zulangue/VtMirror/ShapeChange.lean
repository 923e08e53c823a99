import Zulangue.VtMirror.Entries

/-!
# Maps under every change of shape

`diff_map` descends into child containers. Where a child list stands for an object, a child map for an
array, or an array loses two items, what it finds there does not take the new value.
-/

namespace Zulangue.VtMirror

open Zulangue.Lib Mirror

/-! ## The entries of arrays and objects -/

/-- An index is read back from its key. -/
theorem parseUsize_toString {i : Nat} (h : i ≤ Word.u64Max) : parseUsize (toString i) = some i := by
  have hlist : (toString i).toList = Nat.toDigits 10 i := Nat.toList_repr
  have hdigits : ∀ ch ∈ Nat.toDigits 10 i, ch.isDigit = true :=
    fun ch hch => Nat.isDigit_of_mem_toDigits (by decide) (by decide) hch
  have hvalue : (Nat.toDigits 10 i).foldl (fun n c => 10 * n + (c.toNat - '0'.toNat)) 0 = i := Nat.ofDigitChars_ten_toDigits
  have hsign : ∀ rest, Nat.toDigits 10 i ≠ '+' :: rest := by
    intro rest heq
    have hplus := hdigits '+' (by rw [heq]; exact List.mem_cons_self)
    exact absurd hplus (by decide)
  have hempty : (Nat.toDigits 10 i).isEmpty = false := by
    rw [List.isEmpty_eq_false_iff]
    exact Nat.toDigits_ne_nil
  have hall : (Nat.toDigits 10 i).all (·.isDigit) = true := List.all_eq_true.mpr hdigits
  unfold parseUsize
  rw [hlist]
  generalize Nat.toDigits 10 i = digits at hsign hempty hall hvalue
  dsimp only
  split
  next rest => exact absurd rfl (hsign rest)
  next => rw [hempty, hall, hvalue, if_neg (by decide), if_pos h]

theorem toString_ne_empty (i : Nat) : toString i ≠ "" := by
  intro h
  have hlist : (toString i).toList = Nat.toDigits 10 i := Nat.toList_repr
  rw [h] at hlist
  exact Nat.toDigits_ne_nil hlist.symm

section
variable {value item : Value} {key : String}

theorem mem_objectEntries_arr {items : List Value} (h : (key, item) ∈ objectEntries (.arr items)) :
    ∃ i : Nat, key = toString i ∧ items[i]? = some item := by
  obtain ⟨i, hi, heq⟩ := List.mem_mapIdx.mp h
  obtain ⟨rfl, rfl⟩ := Prod.mk.inj heq
  exact ⟨i, rfl, by simp [hi]⟩

theorem objectEntries_nodup (hwf : value.WF) (hregular : Regular value) : ((objectEntries value).map (·.1)).Nodup := by
  cases hregular with
  | @arr items hlength _ =>
    rw [objectEntries, List.mapIdx_eq_zipIdx_map, List.map_map, List.Nodup, List.pairwise_map, List.pairwise_iff_getElem]
    intro i j hi hj hlt heq
    simp only [List.length_zipIdx] at hi hj
    simp only [Function.comp_apply, List.getElem_zipIdx, Nat.zero_add] at heq
    have hsame : some i = some j := by
      rw [← @parseUsize_toString i (by omega), ← @parseUsize_toString j (by omega), heq]
    have := Option.some.inj hsame
    omega
  | obj _ _ => exact KeyMap.Sorted.keys_nodup hwf.1
  | _ => exact List.nodup_nil

theorem objectEntries_ne_empty (hregular : Regular value) : ∀ entry ∈ objectEntries value, entry.1 ≠ "" := by
  intro entry hentry
  cases hregular with
  | arr _ _ =>
    obtain ⟨i, hkey, -⟩ := mem_objectEntries_arr hentry
    rw [hkey]
    exact toString_ne_empty i
  | obj hkeys _ => exact hkeys entry hentry
  | _ => cases hentry

theorem objectEntries_wf (hwf : value.WF) (hregular : Regular value) :
    ∀ entry ∈ objectEntries value, entry.2.WF ∧ Regular entry.2 := by
  intro entry hentry
  cases hregular with
  | arr _ hitems =>
    obtain ⟨i, -, hget⟩ := mem_objectEntries_arr hentry
    have hmem := List.mem_of_getElem? hget
    exact ⟨Value.wf_arr_iff.mp hwf _ hmem, hitems _ hmem⟩
  | obj _ hitems => exact ⟨(Value.wf_obj_iff.mp hwf).2 entry hentry, hitems entry hentry⟩
  | _ => cases hentry

/-- What is not read at a key is not among the entries. -/
theorem get_objectEntries_of_objectGet (hregular : Regular value) (h : objectGet value key = none) :
    KeyMap.get key (objectEntries value) = none := by
  cases hregular with
  | @arr items hlength _ =>
    cases hget : KeyMap.get key (objectEntries (.arr items)) with
    | none => rfl
    | some item =>
      obtain ⟨i, rfl, hitem⟩ := mem_objectEntries_arr (KeyMap.mem_of_get hget)
      have hlt := (List.getElem?_eq_some_iff.mp hitem).1
      have hparse := @parseUsize_toString i (by omega)
      simp only [objectGet, hparse, Option.bind_some, hitem] at h
      cases h
  | obj _ _ => exact h
  | _ => rfl

end

theorem plain_stored {value : Value} (h : value.WF) : plain (VtMirror.stored value) = plain value := by
  rw [plain, jsonToLoro_stored h, plain]

/-! ## The blocks of a difference -/

/-- Trees at different keys share no container. -/
theorem ids_apart {stored : List (String × Tree)} (hnodup : (IdTree.idsEntries stored).Nodup) {key other : String}
    (hne : key ≠ other) {first second : Tree} (hfirst : KeyMap.get key stored = some first)
    (hsecond : KeyMap.get other stored = some second) {d : ContainerID} (hd : d ∈ first.ids) : d ∉ second.ids := by
  induction stored with
  | nil => cases hfirst
  | cons entry stored ih =>
    obtain ⟨k, tree⟩ := entry
    obtain ⟨-, htail, hdisjoint⟩ := List.nodup_append.mp hnodup
    intro hd'
    by_cases hkey : key = k
    · rw [KeyMap.get_cons, if_pos hkey] at hfirst
      rw [KeyMap.get_cons, if_neg (fun heq => hne (hkey.trans heq.symm))] at hsecond
      obtain rfl := Option.some.inj hfirst
      exact hdisjoint d hd d (IdTree.mem_idsEntries_of_get hsecond hd') rfl
    · rw [KeyMap.get_cons, if_neg hkey] at hfirst
      by_cases hother : other = k
      · rw [KeyMap.get_cons, if_pos hother] at hsecond
        obtain rfl := Option.some.inj hsecond
        exact hdisjoint d hd' d (IdTree.mem_idsEntries_of_get hfirst hd) rfl
      · rw [KeyMap.get_cons, if_neg hother] at hsecond
        exact ih htail hfirst hsecond hd'

section
variable {L : Loro} {config : Config} {c : ContainerID} {stored : List (String × Tree)} {value : Value}
  {blocks : List (String × List Change)}

/-- The old keys that are gone. -/
def deleteBlocks (c : ContainerID) (stored : List (String × Tree)) (value : Value) : List (String × List Change) :=
  (stored.filter fun entry => (objectGet value entry.1).isNone).map fun entry => (entry.1, [deleteKey c entry.1])

theorem deleteBlocks_eq (hsorted : KeyMap.Sorted stored) :
    (objectEntries (Tree.toJson (.map c stored))).filterMap (fun entry =>
      if (objectGet value entry.1).isNone then some (deleteKey c entry.1) else none) =
        (deleteBlocks c stored value).flatMap (·.2) := by
  rw [Tree.toJson_map hsorted, objectEntries, KeyMap.mapValues, List.filterMap_map, deleteBlocks, List.flatMap_map]
  clear hsorted
  induction stored with
  | nil => rfl
  | cons entry stored ih =>
    rw [List.filterMap_cons, List.filter_cons, Function.comp_apply]
    cases (objectGet value entry.1).isNone with
    | true =>
      simp only [if_true, List.flatMap_cons, ih]
      rfl
    | false =>
      simp only [Bool.false_eq_true, if_false, ih]

theorem mem_deleteBlocks {b : String × List Change} (hb : b ∈ deleteBlocks c stored value) :
    ∃ tree, (b.1, tree) ∈ stored ∧ objectGet value b.1 = none ∧ b.2 = [deleteKey c b.1] := by
  obtain ⟨entry, hmem, rfl⟩ := List.mem_map.mp hb
  obtain ⟨hstored, hnone⟩ := List.mem_filter.mp hmem
  exact ⟨entry.2, hstored, Option.isNone_iff_eq_none.mp hnone, rfl⟩

/-- One block for each old key that is gone and for each key of the new value. -/
def keyBlocks (c : ContainerID) (stored : List (String × Tree)) (value : Value) (puts : String × Value → List Change) :
    List (String × List Change) :=
  deleteBlocks c stored value ++ (objectEntries value).map fun entry => (entry.1, puts entry)

theorem keyBlocks_changes (puts : String × Value → List Change) :
    (keyBlocks c stored value puts).flatMap (·.2) =
      (deleteBlocks c stored value).flatMap (·.2) ++ (objectEntries value).flatMap puts := by
  rw [keyBlocks, List.flatMap_append, List.flatMap_map]

theorem keyBlocks_nodup (hsorted : KeyMap.Sorted stored) (hwf : value.WF) (hregular : Regular value)
    (puts : String × Value → List Change) : ((keyBlocks c stored value puts).map (·.1)).Nodup := by
  have hwanted := objectEntries_nodup hwf hregular
  rw [keyBlocks, List.map_append, List.map_map, List.nodup_append]
  refine ⟨?_, hwanted, ?_⟩
  · rw [deleteBlocks, List.map_map]
    exact hsorted.keys_nodup.sublist (List.filter_sublist.map _)
  · intro key hdelete other hput heq
    subst heq
    obtain ⟨b, hb, rfl⟩ := List.mem_map.mp hdelete
    obtain ⟨entry, hmem, heq⟩ := List.mem_map.mp hput
    obtain ⟨tree, -, hnone, -⟩ := mem_deleteBlocks hb
    have hget := KeyMap.get_of_mem_of_nodup hwanted hmem
    rw [show entry.1 = b.1 from heq, get_objectEntries_of_objectGet hregular hnone] at hget
    cases hget

/-- A key without a block is in neither state. -/
theorem get_of_notMem_keyBlocks {newEntries : List (String × Value)} {puts : String × Value → List Change} {key : String}
    (h : key ∉ (keyBlocks c stored (.obj newEntries) puts).map (·.1)) :
    KeyMap.get key newEntries = none ∧ KeyMap.get key stored = none := by
  rw [keyBlocks, List.map_append, List.mem_append, not_or] at h
  have hget : KeyMap.get key newEntries = none := by
    cases hitem : KeyMap.get key newEntries with
    | none => rfl
    | some item => exact absurd (List.mem_map.mpr ⟨_, List.mem_map_of_mem (KeyMap.mem_of_get hitem), rfl⟩) h.2
  refine ⟨hget, ?_⟩
  cases htree : KeyMap.get key stored with
  | none => rfl
  | some tree =>
    have hgone : (objectGet (.obj newEntries) key).isNone = true := Option.isNone_iff_eq_none.mpr hget
    have hblock : (key, [deleteKey c key]) ∈ deleteBlocks c stored (.obj newEntries) :=
      List.mem_map.mpr ⟨(key, tree), List.mem_filter.mpr ⟨KeyMap.mem_of_get htree, hgone⟩, rfl⟩
    exact absurd (List.mem_map_of_mem hblock) h.1

/-- Where every block belongs to its key, grouping only reorders the blocks. -/
theorem ordered_belong (hnodup : (IdTree.map c stored : Tree).ids.Nodup) (hkeys : (blocks.map (·.1)).Nodup)
    (hbelong : ∀ b ∈ blocks, Belong c stored b.1 b.2) :
    ∃ blocks' : List (String × List Change), blocks'.Perm blocks ∧
      ordered (blocks.flatMap (·.2)) = blocks'.flatMap fun b => ordered b.2 := by
  simp only [IdTree.ids, List.nodup_cons] at hnodup
  have hinside : ∀ {key tree d}, KeyMap.get key stored = some tree → d ∈ tree.ids → d ≠ c := by
    intro key tree d hget hd heq
    exact hnodup.1 (heq ▸ IdTree.mem_idsEntries_of_get hget hd)
  apply @ordered_blocks (String × List Change) (fun b => b.2) (some c) blocks
  · intro b hb
    rcases hbelong b hb with hown | ⟨tree, hget, hall⟩
    · exact .inl hown
    · refine .inr fun change hchange heq => ?_
      obtain ⟨d, hd, hcontainer⟩ := hall change hchange
      exact hinside hget hd (Option.some.inj (hcontainer.symm.trans heq))
  · rw [List.Nodup, List.pairwise_map] at hkeys
    apply hkeys.imp_of_mem
    intro b b' hb hb' hne change hchange other hother hsame
    rcases hbelong b hb with hown | ⟨tree, hget, hall⟩
    · exact hown change hchange
    · rcases hbelong b' hb' with hown' | ⟨tree', hget', hall'⟩
      · exact hsame.trans (hown' other hother)
      · obtain ⟨d, hd, hcontainer⟩ := hall change hchange
        obtain ⟨d', hd', hcontainer'⟩ := hall' other hother
        obtain rfl : d = d' := Option.some.inj (hcontainer.symm.trans (hsame.trans hcontainer'))
        exact absurd hd' (ids_apart hnodup.2 hne hget hget' hd)

theorem fitsAt_of_takes (hsorted : KeyMap.Sorted stored) (hnested : isScalar value = false)
    (h : Takes (.map c stored) value) (key : String) : FitsAt stored (objectEntries value) key := by
  rcases h with hscalar | ⟨newEntries, rfl, htakes⟩
  · cases hnested.symm.trans hscalar
  · exact (takesEntries_iff hsorted newEntries).mp htakes key

/-- Once every block has settled its key, the map is equal to the value exactly if it could take it. -/
theorem deepEqual_iff_takes {puts : String × Value → List Change} {entries : List (String × Tree)}
    (hsorted : KeyMap.Sorted stored) (hsorted' : KeyMap.Sorted entries) (hnested : isScalar value = false) (hwf : value.WF)
    (hothers : ∀ key, key ∉ (keyBlocks c stored value puts).map (·.1) → KeyMap.get key entries = KeyMap.get key stored)
    (hall : ∀ b ∈ keyBlocks c stored value puts,
      (Meets (KeyMap.get b.1 entries) (KeyMap.get b.1 (objectEntries value)) ↔ FitsAt stored (objectEntries value) b.1)) :
    (Tree.toJson (.map c entries)).deepEqual value = true ↔ Takes (.map c stored) value := by
  cases value with
  | obj newEntries =>
    have htakes : Takes (.map c stored) (.obj newEntries) ↔ TakesEntries stored newEntries := by
      simp [Takes, isScalar, Value.isObject]
    rw [deepEqual_map_iff hsorted' hwf.1, htakes, takesEntries_iff hsorted]
    apply forall_congr'
    intro key
    by_cases hblock : key ∈ (keyBlocks c stored (.obj newEntries) puts).map (·.1)
    · obtain ⟨b, hb, rfl⟩ := List.mem_map.mp hblock
      exact hall b hb
    · obtain ⟨hget, hnone⟩ := get_of_notMem_keyBlocks hblock
      rw [hothers key hblock, hnone, hget]
      refine iff_of_true trivial fun tree _ htree _ => ?_
      cases htree
  | arr newItems =>
    rw [Tree.toJson_map hsorted']
    refine iff_of_false (by simp [Value.deepEqual]) ?_
    simp [Takes, isScalar, Value.isArray]
  | _ => cases hnested

variable {view : View} {inferOptions : Option InferContainerOptions}
  {diffChild : Value → Value → ContainerID → Option Schema → Except DiffError (List Change)}

/-- The differences of a map do their work if those of its children do. -/
theorem diffMap_right (hdefault : config.inferOptions = {}) (hinfer : inferOptions.getD {} = {})
    (htype : c.containerType = .map) (hview : view.container c = some (.map c stored))
    (hnodup : (IdTree.map c stored : Tree).ids.Nodup) (hsorted : KeyMap.Sorted stored)
    (hkeys : ∀ entry ∈ stored, entry.1 ≠ "") (hwritten : ∀ entry ∈ stored, Written entry.2)
    (hnested : isScalar value = false) (hwf : value.WF) (hregular : Regular value)
    (hchild : ∀ entry ∈ stored, ∀ child item, entry.2.id? = some child → isScalar item = false → item.WF → Regular item →
      ChildRight L config entry.2 child item (diffChild entry.2.toJson item child none)) :
    ChildRight L config (.map c stored) c value
      (diffMap view inferOptions diffChild (Tree.toJson (.map c stored)) value (some c) none) := by
  have hwanted : ∀ entry ∈ objectEntries value, KeyMap.get entry.1 (objectEntries value) = some entry.2 :=
    fun entry hentry => KeyMap.get_of_mem_of_nodup (objectEntries_nodup hwf hregular) hentry
  have hentry : ∀ entry ∈ objectEntries value,
      (∀ error, diffMapEntry view inferOptions diffChild (Tree.toJson (.map c stored)) (some c) none entry.1 entry.2 =
        .error error → ¬ FitsAt stored (objectEntries value) entry.1) ∧
      ∀ changes, diffMapEntry view inferOptions diffChild (Tree.toJson (.map c stored)) (some c) none entry.1 entry.2 =
        .ok changes → Belong c stored entry.1 changes ∧
          Settles L config c stored (objectEntries value) entry.1 changes := by
    intro entry hmem
    obtain ⟨hitem, hitemRegular⟩ := objectEntries_wf hwf hregular entry hmem
    exact diffMapEntry_settles hdefault hinfer htype hview hsorted hwritten (objectEntries_ne_empty hregular entry hmem)
      (hwanted entry hmem) hitem hitemRegular fun tree child hget hid hscalar =>
        hchild (entry.1, tree) (KeyMap.mem_of_get hget) child entry.2 hid hscalar hitem hitemRegular
  have hdiff : diffMap view inferOptions diffChild (Tree.toJson (.map c stored)) value (some c) none =
      (collectChanges (fun entry => diffMapEntry view inferOptions diffChild (Tree.toJson (.map c stored)) (some c) none
        entry.1 entry.2) (objectEntries value)).bind fun updates =>
          .ok ((deleteBlocks c stored value).flatMap (·.2) ++ updates) := by
    rw [← deleteBlocks_eq hsorted]
    rfl
  rw [hdiff]
  cases hcollect : collectChanges (fun entry => diffMapEntry view inferOptions diffChild
      (Tree.toJson (.map c stored)) (some c) none entry.1 entry.2) (objectEntries value) with
  | error error =>
    refine ⟨fun _ _ htakes => ?_, fun changes hchanges => (by cases hchanges)⟩
    obtain ⟨entry, hmem, hfail⟩ := collectChanges_eq_error hcollect
    exact (hentry entry hmem).1 error hfail (fitsAt_of_takes hsorted hnested htakes entry.1)
  | ok updates =>
    refine ⟨fun error herror => (by cases herror), fun changes hchanges => ?_⟩
    obtain ⟨g, hg, rfl⟩ := collectChanges_eq_ok hcollect
    obtain rfl := Except.ok.inj hchanges
    have hright : ∀ b ∈ keyBlocks c stored value g,
        Belong c stored b.1 b.2 ∧ Settles L config c stored (objectEntries value) b.1 b.2 := by
      intro b hb
      rcases List.mem_append.mp hb with hdelete | hput
      · obtain ⟨tree, hmem, hnone, hchange⟩ := mem_deleteBlocks hdelete
        rw [hchange]
        refine ⟨.inl fun change hchange => by rw [List.mem_singleton.mp hchange]; rfl, ?_⟩
        exact settles_delete htype (hkeys _ hmem) (get_objectEntries_of_objectGet hregular hnone)
      · obtain ⟨entry, hmem, rfl⟩ := List.mem_map.mp hput
        exact (hentry entry hmem).2 _ (hg entry hmem)
    have hblockKeys := @keyBlocks_nodup c stored value hsorted hwf hregular g
    rw [← keyBlocks_changes]
    constructor
    · intro change hchange
      obtain ⟨b, hb, hmem⟩ := List.mem_flatMap.mp hchange
      rcases (hright b hb).1 with hown | ⟨tree, hget, hall⟩
      · exact ⟨c, List.mem_cons_self, hown change hmem⟩
      · obtain ⟨d, hd, hcontainer⟩ := hall change hmem
        exact ⟨d, List.mem_cons_of_mem _ (IdTree.mem_idsEntries_of_get hget hd), hcontainer⟩
    · intro mirror hat hschema
      obtain ⟨blocks', hperm, hordered⟩ := ordered_belong hnodup hblockKeys fun b hb => (hright b hb).1
      have hkeys' := (hperm.map (·.1)).nodup_iff.mpr hblockKeys
      obtain ⟨hfail, hok⟩ := @run_blocks L config mirror c stored (objectEntries value) blocks' stored hkeys'
        (fun b hb => (hright b (hperm.subset hb)).2) hat hsorted
        (fun entry hentry => ⟨hkeys entry hentry, hwritten entry hentry⟩) (fun _ _ => rfl) hschema
      rw [hordered]
      constructor
      · intro error herror htakes
        obtain ⟨b, -, hunfit⟩ := hfail error herror
        exact hunfit (fitsAt_of_takes hsorted hnested htakes b.1)
      · intro mirror' hfold
        obtain ⟨entries', hsorted', hwritten', hbecomes, hothers, hall⟩ := hok mirror' hfold
        refine ⟨_, rfl, hbecomes, .map htype hsorted' (fun e he => (hwritten' e he).1) (fun e he => (hwritten' e he).2), ?_⟩
        apply deepEqual_iff_takes hsorted hsorted' hnested hwf
        · exact fun key hkey => hothers key fun hmem => hkey ((hperm.map (·.1)).subset hmem)
        · exact fun b hb => hall b (hperm.symm.subset hb)

/-- The differences of every container that the mirror wrote do their work. -/
theorem diffContainer_right (hrefuses : L.Refuses) (hdefault : config.inferOptions = {})
    (hinfer : inferOptions.getD {} = {}) (hview : (IdTree.idsItems view).Nodup) {tree : Tree} (h : Written tree) :
    ∀ {c : ContainerID} {value : Value}, tree.id? = some c → IdTree.findItems c view = some tree →
      isScalar value = false → value.WF → Regular value →
      ChildRight L config tree c value (diffContainer view tree.toJson value (some c) none inferOptions) := by
  induction h with
  | leaf _ => exact fun hid => by cases hid
  | @list id written htype hwritten =>
    intro c value hid hfind hnested hwf _
    obtain rfl : id = c := Option.some.inj hid
    -- The list as it is read back, which is stored as it was.
    obtain ⟨items, hitems, hstored⟩ : ∃ items : List Value, written.map plain = items.map plain ∧
        ∀ item ∈ items, VtMirror.stored item = item := by
      refine ⟨written.map VtMirror.stored, ?_, ?_⟩
      · rw [List.map_map]
        exact List.map_congr_left fun item hitem => (plain_stored (hwritten item hitem)).symm
      · intro item hitem
        obtain ⟨value, hvalue, rfl⟩ := List.mem_map.mp hitem
        rw [VtMirror.stored, jsonToLoro_stored (hwritten value hvalue), VtMirror.stored]
    rw [hitems] at hfind ⊢
    have hjson : Tree.toJson (.list id (items.map plain)) = .arr items := by
      rw [Tree.toJson, Tree.toJsonItems_eq_map, List.map_map]
      congr 1
      exact (List.map_congr_left hstored).trans (List.map_id _)
    have htypeOf : containerIdToContainerType id = some .list := by simp [containerIdToContainerType, htype]
    rw [hjson, diffContainer_eq]
    unfold diffContainerWith
    simp only [htypeOf]
    cases value with
    | arr newItems =>
      obtain ⟨changes, hchanges, hon, hreaches⟩ := @reaches_list L config id hrefuses htype view items newItems
        (fun oldItem newItem child schema => diffContainer view oldItem newItem (some child) schema inferOptions)
        (View.container_of_findItems hfind) hstored hwf
      simp only [Option.all_none, if_true, Option.bind_none, hchanges]
      refine ⟨fun error herror => (by cases herror), fun other hother => ?_⟩
      obtain rfl := Except.ok.inj hother
      exact ⟨fun change hchange => ⟨id, List.mem_cons_self, hon change hchange⟩, hreaches⟩
    | obj newEntries =>
      refine ⟨fun _ _ htakes => ?_, fun changes hchanges => (by cases hchanges)⟩
      simp [Takes, isScalar, Value.isObject] at htakes
    | _ => cases hnested
  | @map id stored htype hsorted hkeys hwritten ih =>
    intro c value hid hfind hnested hwf hregular
    obtain rfl : id = c := Option.some.inj hid
    have hnodup := IdTree.nodup_of_findItems hview hfind
    have htypeOf : containerIdToContainerType id = some .map := by simp [containerIdToContainerType, htype]
    have hlike : isObjectLike (Tree.toJson (.map id stored)) = true ∧ isObjectLike value = true := by
      refine ⟨by rw [Tree.toJson]; rfl, ?_⟩
      cases value with
      | obj _ => rfl
      | arr _ => rfl
      | _ => cases hnested
    have hright := @diffMap_right L config id stored value view inferOptions
      (fun oldItem newItem child schema => diffContainer view oldItem newItem (some child) schema inferOptions)
      hdefault hinfer htype (View.container_of_findItems hfind) hnodup hsorted hkeys hwritten hnested hwf hregular
      (fun entry hentry child item hchildId hscalar hitem hitemRegular => by
        have hids := (List.nodup_cons.mp hnodup).2
        have hget := hsorted.get_of_mem hentry
        have hchild := IdTree.mem_ids_self hchildId
        have hmem := IdTree.mem_idsEntries_of_get hget hchild
        have hne : id ≠ child := fun heq => (List.nodup_cons.mp hnodup).1 (heq ▸ hmem)
        have hinside : IdTree.find? child (.map id stored) = some entry.2 := by
          rw [IdTree.find?, if_neg hne, (IdTree.nested_get entry.2 hsorted hids hget hchild).1]
          exact IdTree.find?_self hchildId
        exact ih entry hentry hchildId
          ((IdTree.nestedItems entry.2 hview hfind (IdTree.mem_of_find? hinside)).1.trans hinside) hscalar hitem
          hitemRegular)
    rw [diffContainer_eq]
    unfold diffContainerWith
    simp only [htypeOf, hlike.1, hlike.2, Option.all_none, Bool.and_self, if_true]
    exact hright

theorem Mirror.at_of_container {mirror : Mirror L} {id : ContainerID} {tree : Tree} (hroot : id.isRoot = false)
    (hcontainer : mirror.view.container id = some tree) : mirror.At id tree := by
  rw [View.container, hroot] at hcontainer
  simpa [Mirror.At] using hcontainer

/-- The differences of two maps are those of their container. -/
theorem diffContainer_map {id : ContainerID} {entries : List (String × Tree)} (hwritten : Written (.map id entries))
    (newEntries : List (String × Value)) :
    diffContainer view (Tree.toJson (.map id entries)) (.obj newEntries) (some id) none inferOptions =
      diffMap view inferOptions
        (fun oldItem newItem child schema => diffContainer view oldItem newItem (some child) schema inferOptions)
        (Tree.toJson (.map id entries)) (.obj newEntries) (some id) none := by
  have htype : containerIdToContainerType id = some .map := by
    cases hwritten with
    | map htype => simp [containerIdToContainerType, htype]
  have hlike : isObjectLike (Tree.toJson (.map id entries)) = true := by
    rw [Tree.toJson]
    rfl
  have hlikeNew : isObjectLike (.obj newEntries) = true := rfl
  rw [diffContainer_eq]
  unfold diffContainerWith
  simp only [htype, hlike, hlikeNew, Option.all_none, Bool.and_self, if_true]

section
variable {mirror : Mirror L} {id : ContainerID} {entries : List (String × Tree)} {newEntries : List (String × Value)}

/-- Applying the differences of a map without a schema leaves the new value exactly where every child
container takes its new value. -/
theorem diffMap_complete_iff (hrefuses : L.Refuses) (hdefault : config.inferOptions = {})
    (hinfer : inferOptions.getD {} = {}) (hroot : id.isRoot = false)
    (hcontainer : mirror.view.container id = some (.map id entries)) (hwritten : Written (.map id entries))
    (hschema : ∀ d ∈ (IdTree.map id entries : Tree).ids, mirror.getContainerSchema d = none)
    (hwf : (Value.obj newEntries).WF) (hregular : Regular (.obj newEntries)) :
    (∃ changes mirror' tree,
      diffMap mirror.view inferOptions
        (fun oldItem newItem child schema => diffContainer mirror.view oldItem newItem (some child) schema inferOptions)
        (Tree.toJson (.map id entries)) (.obj newEntries) (some id) none = .ok changes ∧
      mirror.applyChangesToLoro config changes = .ok mirror' ∧ mirror'.view.container id = some tree ∧
      tree.toJson.deepEqual (.obj newEntries) = true) ↔
      TakesEntries entries newEntries := by
  have hat := Mirror.at_of_container hroot hcontainer
  have htakes : Takes (.map id entries) (.obj newEntries) ↔ TakesEntries entries newEntries := by
    simp [Takes, isScalar, Value.isObject]
  obtain ⟨hfail, hok⟩ := @diffContainer_right L config mirror.view inferOptions hrefuses hdefault hinfer mirror.view_nodup
    _ hwritten id (.obj newEntries) rfl hat rfl hwf hregular
  rw [diffContainer_map hwritten] at hfail hok
  rw [← htakes]
  cases hchanges : diffMap mirror.view inferOptions
      (fun oldItem newItem child schema => diffContainer mirror.view oldItem newItem (some child) schema inferOptions)
      (Tree.toJson (.map id entries)) (.obj newEntries) (some id) none with
  | error error =>
    refine iff_of_false ?_ (hfail error hchanges)
    rintro ⟨changes, mirror', tree, hother, -⟩
    cases hother
  | ok changes =>
    obtain ⟨happlyFail, happlyOk⟩ := (hok changes hchanges).2 mirror hat hschema
    rw [← applyChangesToLoro_ordered] at happlyFail happlyOk
    cases happly : mirror.applyChangesToLoro config changes with
    | error error =>
      refine iff_of_false ?_ (happlyFail error happly)
      rintro ⟨other, mirror', tree, hother, hok', -⟩
      obtain rfl := Except.ok.inj hother
      cases happly.symm.trans hok'
    | ok mirror' =>
      obtain ⟨tree, hid, hbecomes, -, hequal⟩ := happlyOk mirror' happly
      have hafter := (hbecomes.at hat hid).container
      rw [← hequal]
      constructor
      · rintro ⟨other, mirror'', tree', hother, hok', htree', hequal'⟩
        obtain rfl := Except.ok.inj hother
        obtain rfl := Except.ok.inj (happly.symm.trans hok')
        obtain rfl := Option.some.inj (hafter.symm.trans htree')
        exact hequal'
      · exact fun htree => ⟨changes, mirror', tree, rfl, happly, hafter, htree⟩

end

end

/-! ## A map with a map and a list inside -/

def cardId : ContainerID := .normal 0 1 .map

def noteId : ContainerID := .normal 0 2 .map

def tagsId : ContainerID := .normal 0 3 .list

def cardEntries : List (String × Tree) :=
  [("note", .map noteId [("text", plain (.str "draft"))]), ("tags", .list tagsId ([.str "new"].map plain))]

def cardMirror : Mirror referenceLoro where
  doc := ⟨[.map (.root "cards" .map) [("first", .map cardId cardEntries)]], by decide⟩
  state := .obj []
  registry := fun _ => none

theorem cardEntries_written : Written (.map cardId cardEntries) := by
  refine .map rfl (by unfold KeyMap.Sorted; decide) (by decide) ?_
  intro entry hentry
  rcases List.mem_pair.mp hentry with rfl | rfl
  · refine .map rfl (by unfold KeyMap.Sorted; decide) (by decide) ?_
    intro entry hentry
    rw [List.mem_singleton.mp hentry]
    exact .leaf _
  · refine .list rfl ?_
    intro item hitem
    rw [List.mem_singleton.mp hitem]
    exact trivial

def newCard : List (String × Value) := [("note", .obj [("text", .str "done")]), ("tags", .null)]

theorem newCard_wf : (Value.obj newCard).WF := by
  simp only [newCard, Value.WF, Value.WFEntries, KeyMap.Sorted, List.pairwise_cons, List.mem_singleton,
    forall_eq, List.not_mem_nil, false_imp_iff, implies_true, List.Pairwise.nil, and_self, and_true]
  decide

theorem newCard_regular : Regular (.obj newCard) := by
  refine .obj (by decide) ?_
  intro entry hentry
  rcases List.mem_pair.mp hentry with rfl | rfl
  · refine .obj (by decide) ?_
    intro entry hentry
    rw [List.mem_singleton.mp hentry]
    exact .str _
  · exact .null

/-- The text inside changes, and the list goes. -/
theorem diffMap_complete_card :
    (∃ changes mirror' tree,
      diffMap cardMirror.view none
        (fun oldItem newItem child schema => diffContainer cardMirror.view oldItem newItem (some child) schema none)
        (Tree.toJson (.map cardId cardEntries)) (.obj newCard) (some cardId) none = .ok changes ∧
      cardMirror.applyChangesToLoro ⟨none, true, {}⟩ changes = .ok mirror' ∧
      mirror'.view.container cardId = some tree ∧ tree.toJson.deepEqual (.obj newCard) = true) ↔
      TakesEntries cardEntries newCard :=
  diffMap_complete_iff referenceLoro_refuses rfl rfl rfl rfl cardEntries_written (fun _ _ => rfl) newCard_wf
    newCard_regular

/-- The list becomes an object: the child list is asked for the differences of an object, which fails. -/
theorem diffMap_list_to_object :
    ¬ ∃ changes mirror' tree,
      diffMap cardMirror.view none
        (fun oldItem newItem child schema => diffContainer cardMirror.view oldItem newItem (some child) schema none)
        (Tree.toJson (.map cardId cardEntries)) (.obj [("tags", .obj [])]) (some cardId) none = .ok changes ∧
      cardMirror.applyChangesToLoro ⟨none, true, {}⟩ changes = .ok mirror' ∧
      mirror'.view.container cardId = some tree ∧ tree.toJson.deepEqual (.obj [("tags", .obj [])]) = true := by
  rintro ⟨changes, mirror', tree, hchanges, -⟩
  have hfail : diffMap cardMirror.view none
      (fun oldItem newItem child schema => diffContainer cardMirror.view oldItem newItem (some child) schema none)
      (Tree.toJson (.map cardId cardEntries)) (.obj [("tags", .obj [])]) (some cardId) none =
        .error .listStateNotArrays := by
    rfl
  cases hfail.symm.trans hchanges

end Zulangue.VtMirror
