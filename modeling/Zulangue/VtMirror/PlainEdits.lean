import Zulangue.Lib.ListEdits
import Zulangue.VtMirror.Reference
import Zulangue.VtMirror.Removal

/-!
# Changes of plain items as edits of a list

A change that inserts, deletes or moves a plain item does to the list what the edit of the same
name does, and fails where the edit fails.
-/

namespace Zulangue.VtMirror

open Zulangue.Lib Mirror

/-- The document refuses with an error what it cannot do, such as a position outside a list. -/
def Loro.Refuses (L : Loro) : Prop :=
  ∀ doc op, (L.view doc).apply (L.nextId doc) op = none → ∃ reason, L.apply doc op = .error reason

theorem referenceLoro_refuses : referenceLoro.Refuses := by
  intro doc op h
  refine ⟨"refused", ?_⟩
  change ReferenceDoc.apply doc op = .error "refused"
  unfold ReferenceDoc.apply
  split
  case h_1 next h' => cases h'.symm.trans h
  case h_2 => rfl

/-- A value as a list holds it when it makes no container of its own. -/
def plain (value : Value) : Tree := .leaf (jsonToLoro value)

/-- The edit that a change of plain items asks for. -/
def Change.edit? (change : Change) : Option (ListEdit Tree) :=
  match change.key, change.kind with
  | .index index, .insert => some (.insert index (plain (change.value.getD .null)))
  | .index index, .delete => some (.delete index)
  | .index _, .move fromIndex toIndex => some (.move fromIndex toIndex)
  | _, _ => none

def Change.isMove (change : Change) : Bool :=
  match change.kind with
  | .move _ _ => true
  | _ => false

namespace Mirror

variable {L : Loro} {mirror : Mirror L} {id : ContainerID} {items : List Tree}

def HoldsList (mirror : Mirror L) (id : ContainerID) (items : List Tree) : Prop :=
  mirror.view.container id = some (.list id items)

theorem HoldsList.unique {other : List Tree} (h : mirror.HoldsList id items)
    (h' : mirror.HoldsList id other) : items = other := by
  have heq := Option.some.inj (Eq.trans (Eq.symm h) h')
  injection heq

/-- The call behind an edit. -/
def editOp (id : ContainerID) : ListEdit Tree → Op → Prop
  | .insert index item, op => ∃ value, item = .leaf value ∧ op = .listInsert id index value
  | .delete index, op => op = .listDelete id index 1
  | .move fromIndex toIndex, op => op = .listMove id fromIndex toIndex

theorem editOp_effect {nextId : ContainerType → ContainerID} {edit : ListEdit Tree} {op : Op}
    (h : editOp id edit op) :
    op.target = id ∧ op.effect nextId (.list id items) = (edit.run items).map (.list id) := by
  cases edit with
  | insert index item =>
    obtain ⟨value, rfl, rfl⟩ := h
    refine ⟨rfl, ?_⟩
    by_cases hle : index ≤ items.length <;> simp [Op.effect, ListEdit.run, hle]
  | delete index =>
    obtain rfl := h
    refine ⟨rfl, ?_⟩
    by_cases hlt : index < items.length
    · have hle : index + 1 ≤ items.length := hlt
      simp [Op.effect, ListEdit.run, hlt, hle, List.eraseIdx_eq_take_drop_succ]
    · have hle : ¬ index + 1 ≤ items.length := hlt
      simp [Op.effect, ListEdit.run, hlt, hle]
  | move fromIndex toIndex =>
    obtain rfl := h
    refine ⟨rfl, ?_⟩
    by_cases hlt : toIndex < items.length
    · simp [Op.effect, ListEdit.run, hlt, Option.map_map, Function.comp_def]
    · simp [Op.effect, ListEdit.run, hlt]

/-- A call does to the list what its edit does. -/
theorem call_edit {edit : ListEdit Tree} {op : Op} {next : List Tree} (hholds : mirror.HoldsList id items)
    (hop : editOp id edit op) (hrun : edit.run items = some next) :
    ∃ doc, mirror.call op = .ok { mirror with doc } ∧
      ({ mirror with doc } : Mirror L).HoldsList id next := by
  obtain ⟨rfl, heffect⟩ := @editOp_effect _ items (L.nextId mirror.doc) _ _ hop
  rw [hrun] at heffect
  obtain ⟨doc, hcall, hview⟩ := Mirror.call_ok op hholds heffect
  refine ⟨doc, hcall, ?_⟩
  have hfind : IdTree.findItems op.target (L.view doc) = some (.list op.target next) := by
    rw [hview]
    exact View.findItems_put rfl
  exact View.container_of_findItems hfind

theorem call_edit_refused (hrefuses : L.Refuses) {edit : ListEdit Tree} {op : Op}
    (hholds : mirror.HoldsList id items) (hop : editOp id edit op) (hrun : edit.run items = none) :
    ∃ error, mirror.call op = .error error := by
  obtain ⟨rfl, heffect⟩ := @editOp_effect _ items (L.nextId mirror.doc) _ _ hop
  have hnone : (L.view mirror.doc).apply (L.nextId mirror.doc) op = none := by
    have hcontainer : (L.view mirror.doc).container op.target = some (.list op.target items) := hholds
    simp [View.apply, hcontainer, heffect, hrun]
  obtain ⟨reason, hreason⟩ := hrefuses mirror.doc op hnone
  exact ⟨_, by simp only [Mirror.call, hreason]; rfl⟩

variable {config : Config} {movable : Bool}

/-- The change of an edit is the edit's call. -/
theorem applyListChange_edit {change : Change} {edit : ListEdit Tree} (hedit : change.edit? = some edit)
    (hmove : change.isMove = true → movable = true) (mirror : Mirror L) :
    ∃ op, editOp id edit op ∧ applyListChange config movable id mirror change = mirror.call op := by
  obtain ⟨container, key, value, kind⟩ := change
  cases key with
  | prop key => cases hedit
  | index index =>
    cases kind with
    | insert =>
      obtain rfl := Option.some.inj hedit
      exact ⟨_, ⟨_, rfl, rfl⟩, rfl⟩
    | delete =>
      obtain rfl := Option.some.inj hedit
      exact ⟨_, rfl, rfl⟩
    | insertContainer childType => cases hedit
    | move fromIndex toIndex =>
      obtain rfl := Option.some.inj hedit
      obtain rfl := hmove rfl
      exact ⟨_, rfl, rfl⟩

/-- Changes of plain items, one after the other, are the script of their edits. -/
theorem foldlM_applyListChange {changes : List Change} {edits : List (ListEdit Tree)}
    (hedits : changes.map Change.edit? = edits.map some)
    (hmove : ∀ change ∈ changes, change.isMove = true → movable = true)
    (hholds : mirror.HoldsList id items) :
    (∀ next, ListEdit.runAll edits items = some next →
      ∃ doc, changes.foldlM (applyListChange config movable id) mirror = .ok { mirror with doc } ∧
        ({ mirror with doc } : Mirror L).HoldsList id next) ∧
    (L.Refuses → ListEdit.runAll edits items = none →
      ∃ error, changes.foldlM (applyListChange config movable id) mirror = .error error) := by
  induction changes generalizing edits mirror items with
  | nil =>
    obtain rfl : edits = [] := by simpa using hedits.symm
    refine ⟨fun next hrun => ⟨mirror.doc, rfl, ?_⟩, fun _ hnone => ?_⟩
    · obtain rfl := Option.some.inj hrun
      exact hholds
    · cases hnone
  | cons change changes ih =>
    cases edits with
    | nil => cases hedits
    | cons edit edits =>
      simp only [List.map_cons, List.cons.injEq] at hedits
      obtain ⟨op, hop, happly⟩ :=
        @applyListChange_edit L id config _ _ _ hedits.1 (hmove change List.mem_cons_self) mirror
      simp only [List.foldlM_cons, happly, ListEdit.runAll_cons]
      cases hrun : edit.run items with
      | none =>
        refine ⟨fun next h => (by cases h), fun hrefuses _ => ?_⟩
        obtain ⟨error, herror⟩ := call_edit_refused hrefuses hholds hop hrun
        exact ⟨error, by rw [herror]; rfl⟩
      | some middle =>
        obtain ⟨doc, hcall, hholds'⟩ := call_edit hholds hop hrun
        have hrest := ih hedits.2 (fun c hc => hmove c (List.mem_cons_of_mem _ hc)) hholds'
        simp only [hcall, Option.bind_some]
        exact hrest

/-- Applying changes of plain items to a list. -/
theorem applyChangesToLoro_edits (hrefuses : L.Refuses) {changes : List Change}
    {edits : List (ListEdit Tree)} {next : List Tree}
    (htype : id.containerType = if movable then .movableList else .list)
    (hcontainer : ∀ change ∈ changes, change.container = some id)
    (hedits : changes.map Change.edit? = edits.map some)
    (hmove : ∀ change ∈ changes, change.isMove = true → movable = true)
    (hholds : mirror.HoldsList id items) :
    (∃ mirror', mirror.applyChangesToLoro config changes = .ok mirror' ∧ mirror'.HoldsList id next) ↔
      ListEdit.runAll edits items = some next := by
  have happly : mirror.applyChangesToLoro config changes =
      changes.foldlM (applyListChange config movable id) mirror := by
    cases hchanges : changes with
    | nil => rfl
    | cons change rest =>
      rw [applyChangesToLoro_same (hchanges ▸ hcontainer) (List.cons_ne_nil _ _), applyContainerChanges]
      cases movable <;> simp only [htype, if_true, Bool.false_eq_true, if_false]
  obtain ⟨hok, hfail⟩ := @foldlM_applyListChange L _ _ _ config _ _ _ hedits hmove hholds
  rw [happly]
  constructor
  · rintro ⟨mirror', heq, hnext⟩
    cases hrun : ListEdit.runAll edits items with
    | none =>
      obtain ⟨error, herror⟩ := hfail hrefuses hrun
      cases heq.symm.trans herror
    | some final =>
      obtain ⟨doc, hfold, hfinal⟩ := hok final hrun
      obtain rfl := Except.ok.inj (heq.symm.trans hfold)
      rw [hnext.unique hfinal]
  · intro hrun
    obtain ⟨doc, hfold, hnext⟩ := hok next hrun
    exact ⟨_, hfold, hnext⟩

end Mirror

end Zulangue.VtMirror
