import Zulangue.Lib.Fallible
import Zulangue.VtMirror.Positional

/-!
# Updates that fail halfway

The changes of an update go to the document one after another, and it is committed whether or not
they all went well. The state of the mirror is written at the end alone.
-/

namespace Zulangue.VtMirror

open Zulangue.Lib Fallible

/-! ## The state -/

namespace Mirror

section
variable {L : Loro} {config : Config} {state : Value}

/-- Whether or not it fails, the state of the mirror stays as it was. -/
def Leaves (state : Value) : Outcome L → Prop :=
  Ends (fun failed => failed.2.state = state) fun mirror => mirror.state = state

theorem leaves_foldlM {β : Type} {f : Mirror L → β → Outcome L} {xs : List β}
    (hstep : ∀ mirror, ∀ x ∈ xs, mirror.state = state → Leaves state (f mirror x)) {mirror : Mirror L}
    (h : mirror.state = state) : Leaves state (xs.foldlM f mirror) :=
  ends_foldlM _ hstep h

theorem leaves_call {mirror : Mirror L} (h : mirror.state = state) (op : Op) : Leaves state (mirror.call op) := by
  unfold call
  split <;> exact h

theorem registerContainer_state (mirror : Mirror L) (id : ContainerID) (schema : Option Schema) :
    (mirror.registerContainer id schema).state = mirror.state := by
  unfold registerContainer
  split <;> rfl

theorem leaves_createContainer {mirror : Mirror L} (h : mirror.state = state) (schema : Option Schema) (value : Value)
    (op : ContainerType → Op) :
    Ends (fun failed => failed.2.state = state) (fun created => created.2.state = state)
      (mirror.createContainer config schema value op) := by
  unfold createContainer
  split
  · exact h
  · apply (leaves_call h _).bind
    intro next hnext
    exact (registerContainer_state next _ _).trans hnext

mutual

theorem leaves_initializeContainer (container : ContainerID) (schema : Option Schema) :
    ∀ (value : Value) {mirror : Mirror L}, mirror.state = state →
      Leaves state (initializeContainer config container schema value mirror)
  | .obj entries, mirror, h => by
    unfold initializeContainer
    split
    · exact leaves_initializeEntries container schema entries h
    all_goals exact h
  | .arr items, mirror, h => by
    unfold initializeContainer
    split
    · exact h
    · exact leaves_initializeItems container _ 0 items h
    · exact leaves_initializeItems container _ 0 items h
    all_goals exact h
  | .str s, mirror, h => by
    unfold initializeContainer
    split
    all_goals first | exact h | exact leaves_call h _
  | .null, mirror, h => by
    unfold initializeContainer
    split <;> exact h
  | .bool _, mirror, h => by
    unfold initializeContainer
    split <;> exact h
  | .num _, mirror, h => by
    unfold initializeContainer
    split <;> exact h

theorem leaves_initializeEntries (container : ContainerID) (schema : Option Schema) :
    ∀ (entries : List (String × Value)) {mirror : Mirror L}, mirror.state = state →
      Leaves state (initializeEntries config container schema entries mirror)
  | [], mirror, h => h
  | (key, value) :: entries, mirror, h => by
    unfold initializeEntries
    extract_lets fieldSchema isFieldContainer matchesType continues
    split
    · apply (leaves_createContainer h _ _ _).bind
      rintro ⟨child, created⟩ hcreated
      apply (leaves_initializeContainer child _ value hcreated).bind
      exact fun next hnext => leaves_initializeEntries container schema entries hnext
    · apply (leaves_call h _).bind
      exact fun next hnext => leaves_initializeEntries container schema entries hnext

theorem leaves_initializeItems (container : ContainerID) (itemSchema : Option Schema) :
    ∀ (index : Nat) (items : List Value) {mirror : Mirror L}, mirror.state = state →
      Leaves state (initializeItems config container itemSchema index items mirror)
  | _, [], mirror, h => h
  | index, item :: items, mirror, h => by
    unfold initializeItems
    dsimp only
    split
    · apply (leaves_createContainer h _ _ _).bind
      rintro ⟨child, created⟩ hcreated
      apply (leaves_initializeContainer child _ item hcreated).bind
      exact fun next hnext => leaves_initializeItems container itemSchema (index + 1) items hnext
    · apply (leaves_call h _).bind
      exact fun next hnext => leaves_initializeItems container itemSchema (index + 1) items hnext

end

theorem leaves_insertContainerIntoMap {mirror : Mirror L} (h : mirror.state = state) (container : ContainerID)
    (schema : Option Schema) (key : String) (value : Value) :
    Leaves state (mirror.insertContainerIntoMap config container schema key value) := by
  unfold insertContainerIntoMap
  apply (leaves_createContainer h _ _ _).bind
  rintro ⟨child, created⟩ hcreated
  exact leaves_initializeContainer child _ value hcreated

theorem leaves_insertContainerIntoList {mirror : Mirror L} (h : mirror.state = state) (container : ContainerID)
    (schema : Option Schema) (index : Nat) (value : Value) :
    Leaves state (mirror.insertContainerIntoList config container schema index value) := by
  unfold insertContainerIntoList
  apply (leaves_createContainer h _ _ _).bind
  rintro ⟨child, created⟩ hcreated
  exact leaves_initializeContainer child _ value hcreated

theorem leaves_applyMapChange {mirror : Mirror L} (h : mirror.state = state) (container : ContainerID)
    (change : Change) : Leaves state (applyMapChange config container mirror change) := by
  unfold applyMapChange
  split
  · exact h
  split
  · exact h
  split
  · exact leaves_call h _
  · exact leaves_insertContainerIntoMap h _ _ _ _
  · exact leaves_call h _
  · exact h

theorem leaves_applyListChange {mirror : Mirror L} (h : mirror.state = state) (movable : Bool)
    (container : ContainerID) (change : Change) :
    Leaves state (applyListChange config movable container mirror change) := by
  unfold applyListChange
  split
  · exact h
  split
  · exact leaves_call h _
  · exact leaves_call h _
  · exact leaves_insertContainerIntoList h _ _ _ _
  · split
    · exact leaves_call h _
    · exact h

theorem leaves_applyTextChange {mirror : Mirror L} (h : mirror.state = state) (container : ContainerID)
    (change : Change) : Leaves state (applyTextChange container mirror change) := by
  unfold applyTextChange
  split
  · exact leaves_call h _
  · exact h

theorem leaves_applyContainerChanges {mirror : Mirror L} (h : mirror.state = state) (container : ContainerID)
    (changes : List Change) : Leaves state (mirror.applyContainerChanges config container changes) := by
  unfold applyContainerChanges
  split
  · exact leaves_foldlM (fun m change _ hm => leaves_applyMapChange hm container change) h
  · exact leaves_foldlM (fun m change _ hm => leaves_applyListChange hm false container change) h
  · exact leaves_foldlM (fun m change _ hm => leaves_applyListChange hm true container change) h
  · exact leaves_foldlM (fun m change _ hm => leaves_applyTextChange hm container change) h
  · exact h

/-! ## Changes of the root -/

theorem leaves_insertItemIntoList {mirror : Mirror L} (h : mirror.state = state) (list : ContainerID) (index : Nat)
    (item : Value) (itemSchema : Option Schema) :
    Leaves state (mirror.insertItemIntoList config list index item itemSchema) := by
  unfold insertItemIntoList
  dsimp only
  split
  · exact leaves_insertContainerIntoList h _ _ _ _
  · exact leaves_call h _

theorem leaves_updateListWithIdSelector {mirror : Mirror L} (h : mirror.state = state) (list : ContainerID)
    (newItems : List Value) (idSelector : IdSelector) (itemSchema : Option Schema) :
    Leaves state (mirror.updateListWithIdSelector config list newItems idSelector itemSchema) := by
  unfold updateListWithIdSelector
  dsimp only
  apply (leaves_foldlM (fun m index _ hm => leaves_call hm _) h).bind
  intro deleted hdeleted
  apply @Ends.bind _ _ _ _ fun s : Mirror L × Nat => s.1.state = state
  · apply ends_foldlM (fun s : Mirror L × Nat => s.1.state = state) _ hdeleted
    rintro ⟨m, current⟩ newItem - hm
    dsimp only
    split
    · exact hm
    split
    · split
      · exact hm
      · apply (leaves_call hm _).bind
        intro next hnext
        apply (leaves_insertItemIntoList hnext list current newItem itemSchema).bind
        exact fun _ hlast => hlast
    · apply (leaves_insertItemIntoList hm list current newItem itemSchema).bind
      exact fun _ hlast => hlast
  · rintro ⟨m, current⟩ hm
    dsimp only
    split
    · exact leaves_call hm _
    · exact hm

theorem leaves_updateListByIndex {mirror : Mirror L} (h : mirror.state = state) (list : ContainerID)
    (newItems : List Value) (itemSchema : Option Schema) :
    Leaves state (mirror.updateListByIndex config list newItems itemSchema) := by
  unfold updateListByIndex
  dsimp only
  apply @Ends.bind _ _ _ _ fun m : Mirror L => m.state = state
  · apply leaves_foldlM _ h
    rintro m ⟨i, item⟩ - hm
    dsimp only
    split
    · exact leaves_insertItemIntoList hm _ _ _ _
    split
    · exact hm
    · apply (leaves_call hm _).bind
      exact fun next hnext => leaves_insertItemIntoList hnext _ _ _ _
  · intro m hm
    split
    · exact leaves_call hm _
    · exact hm

theorem leaves_updateListContainer {mirror : Mirror L} (h : mirror.state = state) (list : ContainerID)
    (value : Value) : Leaves state (mirror.updateListContainer config list value) := by
  unfold updateListContainer
  split
  · dsimp only
    split
    · exact leaves_updateListWithIdSelector h _ _ _ _
    · exact leaves_updateListByIndex h _ _ _
  · exact h

theorem leaves_updateMapEntry {mirror : Mirror L} (h : mirror.state = state) (map : ContainerID)
    (fields : List (String × Schema)) (key : String) (value : Value) :
    Leaves state (mirror.updateMapEntry config map fields key value) := by
  unfold updateMapEntry
  dsimp only
  split
  · split
    · apply (leaves_insertContainerIntoMap h _ _ _ _).bind
      exact fun next hnext => leaves_call hnext _
    · exact leaves_call h _
  · exact leaves_call h _

theorem leaves_updateMapContainer {mirror : Mirror L} (h : mirror.state = state) (map : ContainerID)
    (value : Value) : Leaves state (mirror.updateMapContainer config map value) := by
  unfold updateMapContainer
  split
  · split
    · dsimp only
      apply @Ends.bind _ _ _ _ fun m : Mirror L => m.state = state
      · exact leaves_foldlM (fun m entry _ hm => leaves_updateMapEntry hm map _ entry.1 entry.2) h
      · exact fun next hnext => leaves_foldlM (fun m key _ hm => leaves_call hm _) hnext
    · exact h
  · exact h

theorem leaves_updateTopLevelContainer {mirror : Mirror L} (h : mirror.state = state) (container : ContainerID)
    (value : Value) : Leaves state (mirror.updateTopLevelContainer config container value) := by
  unfold updateTopLevelContainer
  split
  · split
    · exact leaves_call h _
    · exact h
  · exact leaves_updateListContainer h _ _
  · exact leaves_updateListContainer h _ _
  · exact leaves_updateMapContainer h _ _
  · exact h

theorem leaves_applyRootChange {mirror : Mirror L} (h : mirror.state = state) (change : Change) :
    Leaves state (applyRootChange config mirror change) := by
  unfold applyRootChange
  dsimp only
  split
  · exact h
  · apply leaves_updateTopLevelContainer
    exact h

theorem leaves_applyChange {mirror : Mirror L} (h : mirror.state = state) (change : Change) :
    Leaves state (mirror.applyChange config change) := by
  unfold applyChange applyBucket
  split
  · exact leaves_foldlM (fun m change _ hm => leaves_applyRootChange hm change) h
  · exact leaves_applyContainerChanges h _ _

/-! ## An error -/

/-- Every change but one that builds a container is at most one call. -/
theorem applyChange_error_of_call {mirror after : Mirror L} {error : MirrorError} {change : Change}
    {container : ContainerID} (hcontainer : change.container = some container)
    (hkind : ∀ type, change.kind ≠ .insertContainer type)
    (h : mirror.applyChange config change = .error (error, after)) : after = mirror := by
  have hcall : ∀ op, mirror.call op = .error (error, after) → after = mirror := by
    intro op hop
    unfold call at hop
    split at hop
    · cases hop
    · cases hop
      rfl
  unfold applyChange applyBucket at h
  rw [hcontainer] at h
  unfold applyContainerChanges at h
  simp only [List.foldlM_cons, List.foldlM_nil, bind_pure] at h
  have hlist : ∀ movable, applyListChange config movable container mirror change = .error (error, after) →
      after = mirror := by
    intro movable hlist
    unfold applyListChange at hlist
    split at hlist
    · cases hlist
      rfl
    split at hlist
    · exact hcall _ hlist
    · exact hcall _ hlist
    next type hinsert => exact absurd hinsert (hkind type)
    · split at hlist
      · exact hcall _ hlist
      · cases hlist
        rfl
  split at h
  · unfold applyMapChange at h
    split at h
    · cases h
    split at h
    · cases h
    split at h
    · exact hcall _ h
    next type hinsert => exact absurd hinsert (hkind type)
    · exact hcall _ h
    · cases h
      rfl
  · exact hlist _ h
  · exact hlist _ h
  · unfold applyTextChange at h
    split at h
    · exact hcall _ h
    · cases h
  · cases h

end

/-- An update that fails leaves the state of the mirror. It leaves the document too where the new
state is refused; otherwise the document is what the changes before the failing one made of it, in
the order in which they were grouped, and what that one did itself. -/
theorem setState_error {L : Loro} {config : Config} {mirror after : Mirror L} {newState : Value} {error : MirrorError}
    (h : mirror.setState config newState = .error (error, after)) :
    after.state = mirror.state ∧
      ((validationErrors config newState ≠ [] ∨ ∃ e, diffContainer mirror.view mirror.state newState none
          config.schema (some config.inferOptions) = .error e) ∧ after = mirror ∨
        ∃ changes before failing behind reached,
          diffContainer mirror.view mirror.state newState none config.schema (some config.inferOptions) = .ok changes ∧
          (groupByContainer changes).flatMap (·.2) = before ++ failing :: behind ∧
          before.foldlM (applyChange config) mirror = .ok reached ∧
          reached.applyChange config failing = .error (error, after) ∧
          (failing.container.isSome → (∀ type, failing.kind ≠ .insertContainer type) → after = reached)) := by
  unfold setState at h
  dsimp only at h
  split at h
  next hinvalid =>
    cases h
    exact ⟨rfl, .inl ⟨.inl hinvalid, rfl⟩⟩
  have hupdate : mirror.updateLoro config newState = .error (error, after) := by
    cases hresult : mirror.updateLoro config newState with
    | ok next =>
      rw [hresult] at h
      cases h
    | error failed =>
      rw [hresult] at h
      cases h
      rfl
  unfold updateLoro at hupdate
  split at hupdate
  next e hdiff =>
    cases hupdate
    exact ⟨rfl, .inl ⟨.inr ⟨e, hdiff⟩, rfl⟩⟩
  next changes hdiff =>
    rw [applyChangesToLoro_eq] at hupdate
    have hleaves : Leaves mirror.state (.error (error, after) : Outcome L) := by
      rw [← hupdate]
      exact leaves_foldlM (fun m change _ hm => leaves_applyChange hm change) rfl
    obtain ⟨before, failing, behind, reached, hsplit, hbefore, hfailing⟩ := foldlM_eq_error hupdate
    refine ⟨hleaves, .inr ⟨changes, before, failing, behind, reached, hdiff, hsplit, hbefore, hfailing, ?_⟩⟩
    intro hcontainer hkind
    obtain ⟨container, hcontainer⟩ := Option.isSome_iff_exists.mp hcontainer
    exact applyChange_error_of_call hcontainer hkind hfailing

end Mirror

def countingConfig : Config := ⟨some (.root [("items", .list none none {})] {}), true, {}⟩

/-- The update that takes the last two numbers out. -/
def takeTwo : Value := .obj [("items", .arr (countingItems 1))]

theorem setState_error_takeTwo : ∃ error after,
    countingMirror.setState countingConfig takeTwo = .error (error, after) ∧ after.state = countingMirror.state :=
  ⟨_, _, rfl, (Mirror.setState_error (rfl : countingMirror.setState countingConfig takeTwo = .error (_, _))).1⟩

/-- The state agrees with the document, and then two of three numbers are to go: the first goes and
the second is refused. -/
theorem setState_half_done :
    countingMirror.Agrees countingConfig ∧
      ¬ ∀ error after, countingMirror.setState countingConfig takeTwo = .error (error, after) →
        after.state = countingMirror.state ∧ after.view.deepValue = countingMirror.view.deepValue := by
  refine ⟨rfl, fun hwhole => ?_⟩
  have hdeep := (hwhole _ _ rfl).2
  have hitems := congrArg (fun value => value.get "items") hdeep
  cases hitems

end Zulangue.VtMirror
