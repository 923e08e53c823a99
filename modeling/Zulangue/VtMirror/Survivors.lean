import Zulangue.Lib.Reorder
import Zulangue.VtMirror.Keyed
import Zulangue.VtMirror.LisSpec

/-!
# What survives in a movable list

The items of the new list that the old one has too, as `diff_movable_list` finds them, and its moves
as moves of the old list.
-/

namespace Zulangue.VtMirror

open Zulangue.Lib Mirror

section
variable {sel : IdSelector} {old new : List Value} {id : String} {index : Nat} {item : Value}

/-- Where the old list has an item of the new one. -/
def survivor (sel : IdSelector) (old : List Value) (item : Value) : Option (Nat × Value) :=
  (selectId sel item).bind (oldEntry sel old)

/-- Every item has an id of its own. -/
structure Identified (sel : IdSelector) (items : List Value) : Prop where
  ids : ∀ item ∈ items, (selectId sel item).isSome
  distinct : (itemIds sel items).Nodup

theorem Identified.index_unique (h : Identified sel old) {i j : Nat} {first second : Value}
    (hfirst : old[i]? = some first) (hsecond : old[j]? = some second)
    (hid : selectId sel first = selectId sel second) : i = j := by
  have hkeys := h.distinct
  rw [itemIds_eq_map h.ids] at hkeys
  have hlt : i < (old.map sel.key).length := by
    rw [List.length_map]
    exact (List.getElem?_eq_some_iff.mp hfirst).1
  apply (List.getElem?_inj hlt hkeys).mp
  simp [hfirst, hsecond, IdSelector.key, hid]

theorem oldEntry_eq_some_iff (h : Identified sel old) :
    oldEntry sel old id = some (index, item) ↔ old[index]? = some item ∧ selectId sel item = some id := by
  obtain ⟨hfound, hsome⟩ := @oldEntry_fold sel id old.zipIdx none
  have hentry : ∀ {entry}, oldEntry sel old id = some entry →
      old[entry.1]? = some entry.2 ∧ selectId sel entry.2 = some id := by
    intro entry heq
    obtain hnone | ⟨hmem, hid⟩ := hfound entry heq
    · cases hnone
    · exact ⟨List.mem_zipIdx_iff_getElem?.mp hmem, hid⟩
  constructor
  · exact hentry
  · rintro ⟨hget, hid⟩
    obtain ⟨⟨first, other⟩, hfirst⟩ := Option.isSome_iff_exists.mp
      (hsome (.inr ⟨(item, index), List.mem_zipIdx_iff_getElem?.mpr hget, hid⟩))
    obtain ⟨hother, hotherId⟩ := hentry hfirst
    obtain rfl := h.index_unique hother hget (hotherId.trans hid.symm)
    obtain rfl := Option.some.inj (hother.symm.trans hget)
    exact hfirst

theorem survivor_eq_some_iff (h : Identified sel old) {newItem : Value} (hnew : (selectId sel newItem).isSome) :
    survivor sel old newItem = some (index, item) ↔
      old[index]? = some item ∧ selectId sel item = selectId sel newItem := by
  obtain ⟨newId, hid⟩ := Option.isSome_iff_exists.mp hnew
  rw [survivor, hid, Option.bind_some, oldEntry_eq_some_iff h]

theorem commonItems_eq : commonItems sel old new = new.zipIdx.filterMap fun entry =>
    (survivor sel old entry.1).map fun found => ⟨found.1, entry.2, found.2, entry.1⟩ := by
  unfold commonItems
  apply List.filterMap_congr
  intro entry _
  obtain ⟨newItem, newIndex⟩ := entry
  unfold survivor
  cases hid : selectId sel newItem with
  | none => simp [hid]
  | some id => cases hfound : oldEntry sel old id <;> simp [hid, hfound]

theorem filterMap_zipIdx_fst {α β : Type} (f : α → Option β) (as : List α) (start : Nat) :
    (as.zipIdx start).filterMap (fun entry => f entry.1) = as.filterMap f := by
  have h := @List.filterMap_map _ _ _ Prod.fst f (as.zipIdx start)
  rw [List.zipIdx_map_fst] at h
  exact h.symm

/-- The old indices of the survivors, in the new order. -/
theorem commonItems_oldIndex : (commonItems sel old new).map (·.oldIndex) =
    new.filterMap fun item => (survivor sel old item).map (·.1) := by
  rw [commonItems_eq, List.map_filterMap, ← filterMap_zipIdx_fst _ new 0]
  apply List.filterMap_congr
  intro entry _
  rw [Option.map_map]
  rfl

/-- No old item is deleted when each has its place in the new list. -/
theorem deletionIndexes_eq_nil (h : ∀ item ∈ old, ∃ newItem ∈ new, selectId sel newItem = selectId sel item) :
    deletionIndexes sel old new = [] := by
  unfold deletionIndexes
  dsimp only
  rw [List.reverse_eq_nil_iff, List.map_eq_nil_iff, List.filter_eq_nil_iff]
  rintro ⟨item, index⟩ hentry
  obtain ⟨newItem, hmem, hsame⟩ := h item (List.fst_mem_of_mem_zipIdx hentry)
  cases hid : selectId sel item with
  | none => simp
  | some id =>
    have hnew : id ∈ new.filterMap (selectId sel) := List.mem_filterMap.mpr ⟨newItem, hmem, hsame.trans hid⟩
    simp only [hnew, not_true_eq_false, decide_false, Bool.false_and, Bool.false_eq_true, not_false_iff]

/-! ## The moves -/

/-- The survivors that are not moved, by their place among the survivors. -/
def chain (common : List CommonItem) : List Nat :=
  longestIncreasingSubsequence (common.map (·.oldIndex))

/-- What the moves need to find the right items: no inserted item stands before one that moves, each has
another index than before, and what stands at or before it comes, in the old list, before every later
one that moves. -/
structure MovesInTurn (common : List CommonItem) : Prop where
  shifted : ∀ entry ∈ common.zipIdx, entry.2 ∉ chain common → entry.1.oldIndex ≠ entry.1.newIndex
  leading : ∀ entry ∈ common.zipIdx, entry.2 ∉ chain common → entry.1.newIndex = entry.2
  fresh : ∀ first ∈ common.zipIdx, ∀ second ∈ common.zipIdx, ∀ third ∈ common.zipIdx,
    first.2 ≤ second.2 → second.2 < third.2 → second.2 ∉ chain common → third.2 ∉ chain common →
      first.1.oldIndex < third.1.oldIndex

/-- The old indices that stay. -/
def staying (common : List CommonItem) (oldIndex : Nat) : Bool :=
  (chain common).any fun i => common[i]?.map (·.oldIndex) == some oldIndex

section
variable {common : List CommonItem} {i : Nat} {info : CommonItem}

theorem staying_iff (hnodup : (common.map (·.oldIndex)).Nodup) (hget : common[i]? = some info) :
    staying common info.oldIndex = true ↔ i ∈ chain common := by
  have hlt : i < (common.map (·.oldIndex)).length := by
    rw [List.length_map]
    exact (List.getElem?_eq_some_iff.mp hget).1
  unfold staying
  rw [List.any_eq_true]
  constructor
  · rintro ⟨j, hj, hsame⟩
    have heq : i = j := by
      apply (List.getElem?_inj hlt hnodup).mp
      simpa [hget] using (beq_iff_eq.mp hsame).symm
    exact heq ▸ hj
  · intro hi
    exact ⟨i, hi, by simp [hget]⟩

/-- The moves that are emitted. -/
def moveChange (id : ContainerID) (info : CommonItem) : Change :=
  { container := some id, key := .index info.oldIndex, value := some info.newItem,
    kind := .move info.oldIndex info.newIndex }

def moveChanges (id : ContainerID) (common : List CommonItem) : List Change :=
  common.zipIdx.filterMap fun entry =>
    if entry.2 ∉ chain common ∧ entry.1.oldIndex ≠ entry.1.newIndex then some (moveChange id entry.1) else none

theorem moveChanges_edits (hnodup : (common.map (·.oldIndex)).Nodup) (h : MovesInTurn common) (id : ContainerID) :
    (moveChanges id common).map Change.edit? =
      (ListEdit.moves (staying common) 0 (common.map (·.oldIndex)) : List (ListEdit Tree)).map some := by
  unfold moveChanges ListEdit.moves
  rw [List.zipIdx_map, List.filterMap_map, List.map_filterMap, List.map_filterMap]
  apply List.filterMap_congr
  intro entry hentry
  have hstaying := staying_iff hnodup (List.mem_zipIdx_iff_getElem?.mp hentry)
  simp only [Function.comp_apply, Prod.map_fst, Prod.map_snd, id_eq]
  by_cases hchain : entry.2 ∈ chain common
  · rw [if_neg (fun hmoves => hmoves.1 hchain), if_pos (hstaying.mpr hchain)]
    rfl
  · rw [if_pos ⟨hchain, h.shifted entry hentry hchain⟩, if_neg (fun hstays => hchain (hstaying.mp hstays)),
      ← h.leading entry hentry hchain]
    rfl

/-- The chain in the new order is one in the old order. -/
theorem staying_ascending (hnodup : (common.map (·.oldIndex)).Nodup) :
    ((common.map (·.oldIndex)).filter (staying common)).Pairwise (· < ·) := by
  rw [List.pairwise_filter, List.pairwise_map, List.pairwise_iff_getElem]
  intro i j hi hj hlt hfirst hsecond
  have hrising := longestIncreasingSubsequence_rising (common.map (·.oldIndex))
  have hi' := (staying_iff hnodup (List.getElem?_eq_getElem hi)).mp hfirst
  have hj' := (staying_iff hnodup (List.getElem?_eq_getElem hj)).mp hsecond
  apply Rising.lt hrising hi' hj' hlt
  · simp [hi]
  · simp [hj]

theorem MovesInTurn.inTurn (hnodup : (common.map (·.oldIndex)).Nodup) (h : MovesInTurn common) :
    ListEdit.InTurn (staying common) (common.map (·.oldIndex)) := by
  intro before x after hsplit hx y hy z hz hmoves
  have hentry : ∀ {k w}, (before ++ x :: after)[k]? = some w →
      ∃ info, (info, k) ∈ common.zipIdx ∧ info.oldIndex = w := by
    intro k w hget
    rw [← hsplit, List.getElem?_map] at hget
    obtain ⟨info, hinfo, hw⟩ := Option.map_eq_some_iff.mp hget
    exact ⟨info, List.mem_zipIdx_iff_getElem?.mpr hinfo, hw⟩
  have hmoved : ∀ {info k}, (info, k) ∈ common.zipIdx → staying common info.oldIndex = false → k ∉ chain common := by
    intro info k hmem hstays hchain
    rw [(staying_iff hnodup (List.mem_zipIdx_iff_getElem?.mp hmem)).mpr hchain] at hstays
    cases hstays
  obtain ⟨i, hi, hi'⟩ := List.getElem_of_mem hy
  obtain ⟨k, hk, hk'⟩ := List.getElem_of_mem hz
  have hle : i < before.length + 1 := by simpa using hi
  obtain ⟨first, hfirst, rfl⟩ := @hentry i y (by
    rw [← hi', List.append_cons, List.getElem?_append_left (by simpa using hi), List.getElem?_eq_getElem])
  obtain ⟨second, hsecond, rfl⟩ := @hentry before.length x (by simp)
  obtain ⟨third, hthird, rfl⟩ := @hentry (before.length + 1 + k) z (by
    rw [← hk', List.append_cons, List.getElem?_append_right (by simp)]
    simp [hk])
  exact h.fresh _ hfirst _ hsecond _ hthird (by dsimp only; omega) (by dsimp only; omega) (hmoved hsecond hx)
    (hmoved hthird hmoves)

end

end

end Zulangue.VtMirror
