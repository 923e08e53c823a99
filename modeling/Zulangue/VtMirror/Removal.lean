import Zulangue.VtMirror.Calls

/-!
# Removing items from a keyed list

The keyed scan stops deleting once the new list is used up: an item behind the last one
that stays is never deleted.
-/

namespace Zulangue.VtMirror

open Zulangue.Lib Mirror

/-- What is left of a list when all but the `keep` items are to go: those behind the last
kept one stay. -/
def dropErased {α : Type} (keep : α → Bool) : List α → List α
  | [] => []
  | a :: as =>
    if keep a then a :: dropErased keep as
    else if as.any keep then dropErased keep as
    else a :: as

/-- The deletions the scan makes for that, from `index` on. -/
def removals (container : ContainerID) (keep : Value → Bool) :
    (index : Nat) → Int → List Value → List Change
  | _, _, [] => []
  | index, offset, item :: items =>
    if keep item then removals container keep (index + 1) offset items
    else if items.any keep then
      deleteAt container (signed index offset) ::
        removals container keep (index + 1) (offset - 1) items
    else []

section
variable {α : Type} {keep : α → Bool}

theorem dropErased_map {β : Type} (f : β → α) (bs : List β) :
    dropErased keep (bs.map f) = (dropErased (fun b => keep (f b)) bs).map f := by
  induction bs with
  | nil => rfl
  | cons b bs ih =>
    have hany : (bs.map f).any keep = bs.any fun b => keep (f b) := by
      simp [List.any_map, Function.comp_def]
    simp only [List.map_cons, dropErased, ih, hany]
    split
    · rfl
    · split <;> rfl

theorem filter_eq_nil_of_any {as : List α} (h : as.any keep = false) : as.filter keep = [] := by
  rw [List.filter_eq_nil_iff]
  intro a ha hkeep
  rw [List.any_eq_false] at h
  exact h a ha hkeep

/-- Everything goes exactly when the last item stays. -/
theorem dropErased_eq_filter_iff (keep : α → Bool) {as : List α} :
    dropErased keep as = as.filter keep ↔ ∀ a ∈ as.getLast?, keep a = true := by
  induction as with
  | nil => simp [dropErased]
  | cons a as ih =>
    cases as with
    | nil => cases ha : keep a <;> simp [dropErased, ha]
    | cons b bs =>
      rw [List.getLast?_cons_cons, ← ih]
      cases ha : keep a with
      | true => simp [dropErased, ha]
      | false =>
        cases hany : (b :: bs).any keep with
        | true => simp [dropErased, ha, hany]
        | false =>
          have hnil := filter_eq_nil_of_any hany
          have hb : keep b = false := by
            rw [List.any_cons, Bool.or_eq_false_iff] at hany
            exact hany.1
          have hbs : bs.any keep = false := by
            rw [List.any_cons, Bool.or_eq_false_iff] at hany
            exact hany.2
          simp [dropErased, ha, hb, hbs, hnil]

end

/-! ## The scan -/

section
variable {view : View}
  {diffChild : Value → Value → ContainerID → Option Schema → Except DiffError (List Change)}
  {container : ContainerID} {itemSchema : Option Schema} {sel : IdSelector}
  {oldIds : List String} {keep : Value → Bool}

/-- The selector reads the same id off equal items. -/
def IdSelector.Respects (sel : IdSelector) : Prop :=
  ∀ (v w : Value) (id : String), v.deepEqual w = true → selectId sel v = some id →
    selectId sel w = some id

theorem removals_eq_nil_of_any {index : Nat} {offset : Int} {items : List Value}
    (h : items.any keep = false) : removals container keep index offset items = [] := by
  cases items with
  | nil => rfl
  | cons item items =>
    rw [List.any_cons, Bool.or_eq_false_iff] at h
    simp [removals, h.1, h.2]

/-- Items with ids of their own, and a new list that lacks some of them. -/
theorem keyedScan_filter (hsel : sel.Respects) {items : List Value} (index : Nat) (offset : Int)
    (hids : ∀ item ∈ items, ∃ id ∈ oldIds, selectId sel item = some id)
    (hdistinct : items.Pairwise fun v w => selectId sel v ≠ selectId sel w)
    (hwf : ∀ item ∈ items, item.WF) :
    keyedScan view diffChild container itemSchema sel oldIds index items offset
      (items.filter keep) = .ok (removals container keep index offset items) := by
  induction items generalizing index offset with
  | nil => rfl
  | cons item items ih =>
    obtain ⟨hne, hdistinct⟩ := List.pairwise_cons.mp hdistinct
    have ih := fun index offset => ih index offset
      (fun v hv => hids v (List.mem_cons_of_mem _ hv)) hdistinct
      (fun v hv => hwf v (List.mem_cons_of_mem _ hv))
    cases hkeep : keep item with
    | true =>
      have heq := Value.deepEqual_refl (hwf item List.mem_cons_self)
      simp only [keyedScan, keyedItem, List.filter_cons, hkeep, if_true, heq, removals]
      exact ih (index + 1) offset
    | false =>
      simp only [keyedScan, List.filter_cons, hkeep, removals]
      cases hfilter : items.filter keep with
      | nil =>
        have hany : items.any keep = false := by
          rw [List.any_eq_false]
          exact fun v hv hk => List.filter_eq_nil_iff.mp hfilter v hv hk
        have hrest := ih (index + 1) offset
        rw [hfilter, removals_eq_nil_of_any hany] at hrest
        simpa [keyedItem, hany] using hrest
      | cons newItem newItems =>
        have hnew : newItem ∈ items.filter keep := hfilter ▸ List.mem_cons_self
        obtain ⟨hmem, hk⟩ := List.mem_filter.mp hnew
        have hany : items.any keep = true := List.any_eq_true.mpr ⟨newItem, hmem, hk⟩
        obtain ⟨oldId, _, hold⟩ := hids item List.mem_cons_self
        obtain ⟨newId, hin, hnewId⟩ := hids newItem (List.mem_cons_of_mem _ hmem)
        have hidne : oldId ≠ newId := fun e => hne newItem hmem (by rw [hold, hnewId, e])
        have hdeep : item.deepEqual newItem = false := by
          rw [Bool.eq_false_iff]
          exact fun heq => hne newItem hmem (hold.trans (hsel _ _ _ heq hold).symm)
        have hrest := ih (index + 1) (offset - 1)
        rw [hfilter] at hrest
        simp [keyedItem, hdeep, hold, hnewId, hidne, hin, hrest, hany, bind, Except.bind, pure,
          Except.pure]

end

/-! ## Applying the deletions -/

section
variable {L : Loro} {config : Config} {id : ContainerID}

/-- Changes of one list are applied one after the other. -/
theorem Mirror.applyChangesToLoro_list (config : Config) (hlist : id.containerType = .list)
    (mirror : Mirror L) {changes : List Change} (h : ∀ change ∈ changes, change.container = some id) :
    mirror.applyChangesToLoro config changes =
      changes.foldlM (applyListChange config false id) mirror := by
  by_cases hne : changes = []
  · subst hne
    rfl
  · rw [Mirror.applyChangesToLoro_same h hne, Mirror.applyContainerChanges, hlist]

theorem removals_container {keep : Value → Bool} {index : Nat} {offset : Int}
    {items : List Value} : ∀ change ∈ removals id keep index offset items,
    change.container = some id := by
  induction items generalizing index offset with
  | nil => exact fun change h => nomatch h
  | cons item items ih =>
    intro change h
    simp only [removals] at h
    split at h
    · exact ih change h
    · split at h
      · rcases List.mem_cons.mp h with rfl | hrest
        · rfl
        · exact ih change hrest
      · cases h

theorem signed_eq {index : Nat} {offset : Int} {n : Nat} (h : (index : Int) + offset = n) :
    signed index offset = n := by
  simp [signed, h]

/-- The deletions take the erased items out, up to the last kept one. -/
theorem Mirror.apply_removals (config : Config) (keep : Value → Bool) {trees before : List Tree} {index : Nat}
    {offset : Int} {mirror : Mirror L} (hat : mirror.At id (.list id (before ++ trees)))
    (hindex : (index : Int) + offset = before.length) :
    ∃ doc, (removals id keep index offset (trees.map Tree.toJson)).foldlM
        (applyListChange config false id) mirror = .ok { mirror with doc } ∧
      IdTree.findItems id (L.view doc) =
        some (.list id (before ++ dropErased (fun t => keep t.toJson) trees)) := by
  induction trees generalizing before index offset mirror with
  | nil => exact ⟨mirror.doc, rfl, hat⟩
  | cons tree trees ih =>
    cases hkeep : keep tree.toJson with
    | true =>
      have hat' : mirror.At id (.list id ((before ++ [tree]) ++ trees)) := by simpa using hat
      have hindex' : ((index + 1 : Nat) : Int) + offset = (before ++ [tree]).length := by
        simp only [List.length_append, List.length_singleton]
        omega
      obtain ⟨doc, hfold, hfind⟩ := ih hat' hindex'
      exact ⟨doc, by simpa [removals, hkeep] using hfold, by simpa [dropErased, hkeep] using hfind⟩
    | false =>
      cases hany : trees.any fun t => keep t.toJson with
      | false =>
        have hnone : (trees.map Tree.toJson).any keep = false := by
          simpa [List.any_map, Function.comp_def] using hany
        have hstay : dropErased (fun t => keep t.toJson) (tree :: trees) = tree :: trees := by
          simp [dropErased, hkeep, hany]
        exact ⟨mirror.doc, by simp [removals, hkeep, hnone]; rfl, by rw [hstay]; exact hat⟩
      | true =>
        have hsome : (trees.map Tree.toJson).any keep = true := by
          simpa [List.any_map, Function.comp_def] using hany
        have hlt : before.length < (before ++ tree :: trees).length := by simp
        obtain ⟨doc, hcall, _, hfind⟩ := Mirror.call_listDelete hat hlt
        have htake : (before ++ tree :: trees).take before.length ++
            (before ++ tree :: trees).drop (before.length + 1) = before ++ trees := by
          simp [List.drop_append]
        rw [htake] at hfind
        have hat' : ({ mirror with doc } : Mirror L).At id (.list id (before ++ trees)) := hfind
        have hindex' : ((index + 1 : Nat) : Int) + (offset - 1) = before.length := by omega
        obtain ⟨doc', hfold, hfind'⟩ := ih hat' hindex'
        refine ⟨doc', ?_, by simpa [dropErased, hkeep, hany] using hfind'⟩
        have hchange : applyListChange config false id mirror
            (deleteAt id (signed index offset)) = .ok { mirror with doc } := by
          rw [signed_eq hindex]
          exact hcall
        simp only [List.map_cons, removals, hkeep, hsome, if_true, Bool.false_eq_true, if_false,
          List.foldlM_cons, hchange]
        exact hfold

end

end Zulangue.VtMirror
