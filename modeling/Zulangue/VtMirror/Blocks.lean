import Zulangue.VtMirror.Calls

/-!
# Grouped changes as blocks

The changes that the mirror groups by container come in blocks: those of one container itself, and those
inside one of its children. Grouping keeps each block together and only changes the order of the blocks.
-/

namespace Zulangue.VtMirror

open Mirror

/-- The changes in the order in which they are applied. -/
def ordered (changes : List Change) : List Change := (groupByContainer changes).flatMap (·.2)

theorem Mirror.applyChangesToLoro_ordered {L : Loro} (config : Config) (mirror : Mirror L) (changes : List Change) :
    mirror.applyChangesToLoro config changes = (ordered changes).foldlM (applyChange config) mirror :=
  applyChangesToLoro_eq config mirror changes

@[simp] theorem ordered_nil : ordered [] = [] := rfl

section
variable {container : Option ContainerID} {changes : List Change}

theorem foldl_addToBucket (changes bucket : List Change) (buckets : List (Option ContainerID × List Change)) :
    changes.foldl (fun buckets change => addToBucket change buckets) ((container, bucket) :: buckets) =
      (container, bucket ++ changes.filter (·.container = container)) ::
        (changes.filter (·.container ≠ container)).foldl (fun buckets change => addToBucket change buckets) buckets := by
  induction changes generalizing bucket buckets with
  | nil => simp
  | cons change changes ih =>
    by_cases h : change.container = container
    · have hsame : addToBucket change ((container, bucket) :: buckets) = (container, bucket ++ [change]) :: buckets := by
        simp [addToBucket, h]
      rw [List.foldl_cons, hsame, ih]
      simp [h]
    · have hother : addToBucket change ((container, bucket) :: buckets) =
          (container, bucket) :: addToBucket change buckets := by
        simp [addToBucket, Ne.symm h]
      rw [List.foldl_cons, hother, ih]
      simp [h]

/-- The first change brings forward what else its container has. -/
theorem ordered_cons (change : Change) (changes : List Change) :
    ordered (change :: changes) =
      change :: changes.filter (·.container = change.container) ++
        ordered (changes.filter (·.container ≠ change.container)) := by
  unfold ordered groupByContainer
  rw [List.foldl_cons]
  have hfirst : addToBucket change [] = [(change.container, [change])] := rfl
  rw [hfirst, foldl_addToBucket]
  simp

theorem ordered_same (h : ∀ change ∈ changes, change.container = container) : ordered changes = changes := by
  cases hchanges : changes with
  | nil => rfl
  | cons change rest =>
    subst hchanges
    unfold ordered
    rw [groupByContainer_same h (List.cons_ne_nil _ _)]
    simp

/-- Changes of other containers wait. -/
theorem ordered_append {more : List Change}
    (h : ∀ change ∈ changes, ∀ other ∈ more, change.container ≠ other.container) :
    ordered (changes ++ more) = ordered changes ++ ordered more := by
  induction hsize : changes.length using Nat.strongRecOn generalizing changes with
  | _ size ih =>
    subst hsize
    cases changes with
    | nil => rfl
    | cons change rest =>
      have hmore := h change List.mem_cons_self
      have hsame : more.filter (·.container = change.container) = [] := by
        rw [List.filter_eq_nil_iff]
        intro other hother heq
        exact hmore other hother (of_decide_eq_true heq).symm
      have hothers : more.filter (·.container ≠ change.container) = more := by
        rw [List.filter_eq_self]
        intro other hother
        exact decide_eq_true (Ne.symm (hmore other hother))
      have hlength : (rest.filter (·.container ≠ change.container)).length < (change :: rest).length :=
        Nat.lt_succ_of_le (List.length_filter_le _ _)
      rw [List.cons_append, ordered_cons, ordered_cons, List.filter_append, List.filter_append, hsame, hothers,
        List.append_nil, ih _ hlength (fun c hc => h c (List.mem_cons_of_mem _ (List.mem_of_mem_filter hc))) rfl]
      simp

end

section
variable {β : Type} {changes : β → List Change} {container : Option ContainerID} {blocks : List β}

/-- Blocks apart from each other stay in order. -/
theorem ordered_flatMap (h : blocks.Pairwise fun b b' =>
    ∀ change ∈ changes b, ∀ other ∈ changes b', change.container ≠ other.container) :
    ordered (blocks.flatMap changes) = blocks.flatMap fun b => ordered (changes b) := by
  induction blocks with
  | nil => rfl
  | cons b blocks ih =>
    obtain ⟨hfirst, hrest⟩ := List.pairwise_cons.mp h
    rw [List.flatMap_cons, List.flatMap_cons, ordered_append, ih hrest]
    intro change hchange other hother
    obtain ⟨b', hb', hother⟩ := List.mem_flatMap.mp hother
    exact hfirst b' hb' change hchange other hother

/-- The block has changes of the container itself. -/
def isOn (changes : β → List Change) (container : Option ContainerID) (b : β) : Bool :=
  (changes b).any (·.container = container)

/-- All of a block's changes are of the container itself, or none is. -/
def OnOrOff (changes : β → List Change) (container : Option ContainerID) (b : β) : Prop :=
  (∀ change ∈ changes b, change.container = container) ∨ ∀ change ∈ changes b, change.container ≠ container

theorem OnOrOff.on {b : β} (h : OnOrOff changes container b) (hon : isOn changes container b = true) :
    ∀ change ∈ changes b, change.container = container := by
  obtain ⟨change, hchange, heq⟩ := List.any_eq_true.mp hon
  exact h.resolve_right fun hoff => hoff change hchange (of_decide_eq_true heq)

theorem off_of_not_isOn {b : β} (hoff : isOn changes container b = false) :
    ∀ change ∈ changes b, change.container ≠ container := by
  intro change hchange heq
  exact Bool.eq_false_iff.mp hoff (List.any_eq_true.mpr ⟨change, hchange, decide_eq_true heq⟩)

theorem filter_on (h : ∀ b ∈ blocks, OnOrOff changes container b) :
    (blocks.flatMap changes).filter (·.container = container) =
      (blocks.filter (isOn changes container)).flatMap changes := by
  induction blocks with
  | nil => rfl
  | cons b blocks ih =>
    have ih := ih fun b hb => h b (List.mem_cons_of_mem _ hb)
    rw [List.flatMap_cons, List.filter_append, ih]
    cases hon : isOn changes container b with
    | true =>
      have hall : (changes b).filter (·.container = container) = changes b := by
        rw [List.filter_eq_self]
        exact fun change hchange => decide_eq_true ((h b List.mem_cons_self).on hon change hchange)
      rw [List.filter_cons_of_pos hon, List.flatMap_cons, hall]
    | false =>
      have hnone : (changes b).filter (·.container = container) = [] := by
        rw [List.filter_eq_nil_iff]
        exact fun change hchange heq => off_of_not_isOn hon change hchange (of_decide_eq_true heq)
      rw [List.filter_cons_of_neg (by simp [hon]), hnone, List.nil_append]

theorem filter_off (h : ∀ b ∈ blocks, OnOrOff changes container b) :
    (blocks.flatMap changes).filter (·.container ≠ container) =
      (blocks.filter (!isOn changes container ·)).flatMap changes := by
  induction blocks with
  | nil => rfl
  | cons b blocks ih =>
    have ih := ih fun b hb => h b (List.mem_cons_of_mem _ hb)
    rw [List.flatMap_cons, List.filter_append, ih]
    cases hon : isOn changes container b with
    | true =>
      have hnone : (changes b).filter (·.container ≠ container) = [] := by
        rw [List.filter_eq_nil_iff]
        exact fun change hchange hne => of_decide_eq_true hne ((h b List.mem_cons_self).on hon change hchange)
      rw [List.filter_cons_of_neg (by simp [hon]), hnone, List.nil_append]
    | false =>
      have hall : (changes b).filter (·.container ≠ container) = changes b := by
        rw [List.filter_eq_self]
        exact fun change hchange => decide_eq_true (off_of_not_isOn hon change hchange)
      rw [List.filter_cons_of_pos (by simp [hon]), List.flatMap_cons, hall]

/-- Blocks that share no container but `container` are applied block by block, in some order. -/
theorem ordered_blocks (h : ∀ b ∈ blocks, OnOrOff changes container b)
    (hapart : blocks.Pairwise fun b b' => ∀ change ∈ changes b, ∀ other ∈ changes b',
      change.container = other.container → change.container = container) :
    ∃ blocks' : List β, blocks'.Perm blocks ∧
      ordered (blocks.flatMap changes) = blocks'.flatMap fun b => ordered (changes b) := by
  induction blocks with
  | nil => exact ⟨[], List.Perm.refl _, rfl⟩
  | cons b blocks ih =>
    obtain ⟨hfirst, hrest⟩ := List.pairwise_cons.mp hapart
    have hblocks := fun b hb => h b (List.mem_cons_of_mem _ hb)
    cases hon : isOn changes container b with
    | false =>
      have hoff := off_of_not_isOn hon
      obtain ⟨blocks', hperm, hordered⟩ := ih hblocks hrest
      refine ⟨b :: blocks', hperm.cons b, ?_⟩
      rw [List.flatMap_cons, List.flatMap_cons, ordered_append, hordered]
      intro change hchange other hother hsame
      obtain ⟨b', hb', hother⟩ := List.mem_flatMap.mp hother
      exact hoff change hchange (hfirst b' hb' change hchange other hother hsame)
    | true =>
      -- A block on the container brings the others on it forward.
      have hall := (h b List.mem_cons_self).on hon
      have hordered : ordered (changes b ++ blocks.flatMap changes) =
          changes b ++ (blocks.flatMap changes).filter (·.container = container) ++
            ordered ((blocks.flatMap changes).filter (·.container ≠ container)) := by
        cases hchanges : changes b with
        | nil => simp [isOn, hchanges] at hon
        | cons change rest =>
          rw [hchanges] at hall
          obtain ⟨rfl, hrest⟩ := List.forall_mem_cons.mp hall
          have hsame : rest.filter (·.container = change.container) = rest := by
            rw [List.filter_eq_self]
            exact fun other hother => decide_eq_true (hrest other hother)
          have hothers : rest.filter (·.container ≠ change.container) = [] := by
            rw [List.filter_eq_nil_iff]
            exact fun other hother hne => of_decide_eq_true hne (hrest other hother)
          rw [List.cons_append, ordered_cons, List.filter_append, List.filter_append, hsame, hothers,
            List.nil_append]
          rfl
      have hoffs : (blocks.filter (!isOn changes container ·)).Pairwise fun b b' =>
          ∀ change ∈ changes b, ∀ other ∈ changes b', change.container ≠ other.container := by
        apply (hrest.sublist List.filter_sublist).imp_of_mem
        intro b b' hb _ hshare change hchange other hother hsame
        have hb : isOn changes container b = false := by simpa using (List.mem_filter.mp hb).2
        exact off_of_not_isOn hb change hchange (hshare change hchange other hother hsame)
      refine ⟨b :: (blocks.filter (isOn changes container) ++ blocks.filter (!isOn changes container ·)), ?_, ?_⟩
      · exact (List.filter_append_perm (isOn changes container) blocks).cons b
      · have hons : (blocks.filter (isOn changes container)).flatMap changes =
            (blocks.filter (isOn changes container)).flatMap fun b => ordered (changes b) := by
          apply List.flatMap_congr
          intro b hb
          obtain ⟨hmem, hon⟩ := List.mem_filter.mp hb
          exact (ordered_same ((hblocks b hmem).on hon)).symm
        rw [List.flatMap_cons, hordered, filter_on hblocks, filter_off hblocks, ordered_flatMap hoffs, hons,
          List.flatMap_cons, List.flatMap_append, ordered_same hall, List.append_assoc]

end

end Zulangue.VtMirror
