import Zulangue.Outline.Rows

/-!
# Round trips of the outline

The tree of a note whose nodes carry what a row can say, the part of it that is open while rows are
put in, and the two round trips between rows and trees.
-/

namespace Zulangue.Outline

open Zulangue.VtMirror

/-- A row without its depth. -/
structure NoteLine where
  id : String
  text : String
  kind : OutlineKind
  checked : Bool
  deriving DecidableEq

namespace NoteLine

/-- The line as a row. -/
def atDepth (line : NoteLine) (depth : Nat) : OutlineRow where
  id := line.id
  depth
  text := line.text
  kind := line.kind
  checked := line.checked

end NoteLine

def OutlineRow.line (row : OutlineRow) : NoteLine where
  id := row.id
  text := row.text
  kind := row.kind
  checked := row.checked

inductive NoteNode where
  | node (line : NoteLine) (children : List NoteNode)

/-- A node with an id, a text, a children array and the metadata of its row. -/
def nodeValue (line : NoteLine) (children : List Value) : Value :=
  .obj [("$", rowMeta (line.atDepth 0)), ("children", .arr children), ("text", .str line.text)]

/-- The root of a note: an id and children. -/
def noteRoot (rootId : String) (children : List Value) : Value :=
  .obj [("$", .obj [("id", .str rootId)]), ("children", .arr children)]

mutual

def NoteNode.toValue : NoteNode → Value
  | .node line children => nodeValue line (toValues children)

def toValues : List NoteNode → List Value
  | [] => []
  | node :: nodes => node.toValue :: toValues nodes

end

mutual

/-- A node's rows, its own at `depth`. -/
def NoteNode.rows (depth : Nat) : NoteNode → List OutlineRow
  | .node line children => line.atDepth depth :: rowsOf (depth + 1) children

def rowsOf (depth : Nat) : List NoteNode → List OutlineRow
  | [] => []
  | node :: nodes => node.rows depth ++ rowsOf depth nodes

end

theorem toValues_append (first second : List NoteNode) :
    toValues (first ++ second) = toValues first ++ toValues second := by
  induction first with
  | nil => rfl
  | cons node first ih => simp [toValues, ih]

theorem toValues_length (nodes : List NoteNode) : (toValues nodes).length = nodes.length := by
  induction nodes with
  | nil => rfl
  | cons node nodes ih => simp [toValues, ih]

theorem rowsOf_append (depth : Nat) (first second : List NoteNode) :
    rowsOf depth (first ++ second) = rowsOf depth first ++ rowsOf depth second := by
  induction first with
  | nil => rfl
  | cons node first ih => simp [rowsOf, ih]

/-! ## Flattening -/

theorem nodeId_nodeValue (line : NoteLine) (children : List Value) :
    nodeId (nodeValue line children) = some line.id := by
  obtain ⟨id, text, kind, checked⟩ := line
  cases kind <;> cases checked <;> rfl

theorem nodeRow_nodeValue (line : NoteLine) (children : List Value) (depth : Nat) :
    nodeRow (nodeValue line children) line.id depth = line.atDepth depth := by
  obtain ⟨id, text, kind, checked⟩ := line
  cases kind <;> cases checked <;> rfl

mutual

theorem flattenNode_toValue (depth : Nat) : ∀ node : NoteNode,
    flattenNode depth node.toValue = node.rows depth
  | .node line children => by
    rw [NoteNode.toValue, flattenNode_eq (nodeId_nodeValue line _) rfl, nodeRow_nodeValue,
      flattenNodes_toValues (depth + 1) children, NoteNode.rows]

theorem flattenNodes_toValues (depth : Nat) : ∀ nodes : List NoteNode,
    flattenNodes depth (toValues nodes) = rowsOf depth nodes
  | [] => rfl
  | node :: nodes => by
    rw [toValues, flattenNodes, flattenNode_toValue depth node, flattenNodes_toValues depth nodes, rowsOf]

end

theorem flattenNote_noteRoot (rootId : String) (nodes : List NoteNode) :
    flattenNote (noteRoot rootId (toValues nodes)) = rowsOf 0 nodes :=
  flattenNodes_toValues 0 nodes

/-! ## The open part of a tree

The last node of each level, with what stands before it there. Behind the open nodes nothing can be
put but at a lower depth. -/

abbrev OpenNodes := List (List NoteNode × NoteLine)

/-- The nodes that are there when nothing more is put in. -/
def close : OpenNodes → List NoteNode
  | [] => []
  | (before, line) :: opened => before ++ [.node line (close opened)]

/-- A new line at `depth` closes what is open there and below. -/
def push (depth : Nat) (line : NoteLine) (opened : OpenNodes) : OpenNodes :=
  opened.take depth ++ [(close (opened.drop depth), line)]

theorem push_length {depth : Nat} {opened : OpenNodes} (h : depth ≤ opened.length) (line : NoteLine) :
    (push depth line opened).length = depth + 1 := by
  simp [push, h]

theorem close_push_succ (depth : Nat) (line first : NoteLine) (before : List NoteNode)
    (opened : OpenNodes) :
    close (push (depth + 1) line ((before, first) :: opened)) =
      before ++ [.node first (close (push depth line opened))] := by
  simp [push, close]

theorem close_push_zero (line : NoteLine) (opened : OpenNodes) :
    close (push 0 line opened) = close opened ++ [.node line []] := by
  simp [push, close]

/-- The new line is the last row. -/
theorem rowsOf_close_push {depth : Nat} {opened : OpenNodes} (h : depth ≤ opened.length)
    (line : NoteLine) (base : Nat) :
    rowsOf base (close (push depth line opened)) =
      rowsOf base (close opened) ++ [line.atDepth (base + depth)] := by
  induction opened generalizing depth base with
  | nil =>
    obtain rfl : depth = 0 := Nat.le_zero.mp h
    rfl
  | cons entry opened ih =>
    obtain ⟨before, first⟩ := entry
    cases depth with
    | zero =>
      rw [close_push_zero, rowsOf_append]
      rfl
    | succ depth =>
      have hrest := ih (Nat.le_of_succ_le_succ h) (base + 1)
      rw [close_push_succ, close, rowsOf_append, rowsOf_append]
      simp only [rowsOf, NoteNode.rows, hrest, List.append_nil, List.cons_append, List.append_assoc]
      rw [Nat.add_right_comm, Nat.add_assoc]

/-! ## Rebuilding keeps to the open part -/

/-- A value that shows what it is given as its children. -/
structure ShowsChildren (f : List Value → Value) : Prop where
  get : ∀ children, ((f children).get "children").bind Value.asArray = some children
  set : ∀ children other, (f children).setIndex "children" (.arr other) = some (f other)

theorem showsChildren_noteRoot (rootId : String) : ShowsChildren (noteRoot rootId) where
  get _ := rfl
  set _ _ := rfl

theorem showsChildren_nodeValue (line : NoteLine) : ShowsChildren (nodeValue line) where
  get _ := rfl
  set _ _ := rfl

/-- Where the open nodes stand. -/
def pathOf (opened : OpenNodes) : List Nat := opened.map fun entry => entry.1.length

theorem pushChild_close {f : List Value → Value} (hf : ShowsChildren f) {depth : Nat} {opened : OpenNodes}
    (h : depth ≤ opened.length) (line : NoteLine) :
    pushChild (nodeValue line []) ((pathOf opened).take depth) (f (toValues (close opened))) =
      some (f (toValues (close (push depth line opened))), (close (opened.drop depth)).length) := by
  induction opened generalizing depth f with
  | nil =>
    obtain rfl : depth = 0 := Nat.le_zero.mp h
    simp [pathOf, pushChild, hf.get, hf.set, push, close, toValues, NoteNode.toValue]
  | cons entry opened ih =>
    obtain ⟨before, first⟩ := entry
    cases depth with
    | zero =>
      have hclose := close_push_zero line ((before, first) :: opened)
      simp only [List.take_zero, pushChild, hf.get, hf.set, hclose, toValues_append, toValues,
        NoteNode.toValue, List.drop_zero]
      simp [toValues_length]
    | succ depth =>
      have hrest := ih (showsChildren_nodeValue first) (Nat.le_of_succ_le_succ h)
      have hchild : (toValues (close ((before, first) :: opened)))[before.length]? =
          some (nodeValue first (toValues (close opened))) := by
        simp [close, toValues_append, toValues, NoteNode.toValue, ← toValues_length before]
      have hpath : (pathOf ((before, first) :: opened)).take (depth + 1) =
          before.length :: (pathOf opened).take depth := rfl
      have hset : (toValues (close ((before, first) :: opened))).set before.length
          (nodeValue first (toValues (close (push depth line opened)))) =
          toValues (close (push (depth + 1) line ((before, first) :: opened))) := by
        rw [close_push_succ, close, toValues_append, toValues_append, ← toValues_length before,
          List.set_append_right _ _ (Nat.le_refl _), Nat.sub_self]
        rfl
      simp [hpath, pushChild, hf.get, hf.set, hchild, hrest, hset]

/-- The open part after the rows, from the top. -/
def openedBy (opened : OpenNodes) (rows : List OutlineRow) : OpenNodes :=
  rows.foldl (fun opened row => push (min row.depth opened.length) row.line opened) opened

/-- What the loop has in its hands. -/
structure Rebuilds (rootId : String) (rebuilding : Rebuilding) (opened : OpenNodes) : Prop where
  root : rebuilding.root = noteRoot rootId (toValues (close opened))
  path : rebuilding.path = pathOf opened
  depth : opened ≠ [] → rebuilding.previousDepth + 1 = opened.length

theorem rebuildRow_rebuilds {rootId : String} {rebuilding : Rebuilding} {opened : OpenNodes}
    (h : Rebuilds rootId rebuilding opened) (row : OutlineRow) :
    ∃ next, rebuildRow rebuilding row = some next ∧
      Rebuilds rootId next (push (min row.depth opened.length) row.line opened) := by
  have hdepth : rebuilding.depthOf row = min row.depth opened.length := by
    unfold Rebuilding.depthOf
    rw [h.path]
    cases hopened : opened with
    | nil => simp [pathOf]
    | cons entry rest =>
      rw [← hopened, h.depth (by simp [hopened])]
      simp [pathOf, hopened]
  have hle : min row.depth opened.length ≤ opened.length := Nat.min_le_right _ _
  have hpush := pushChild_close (showsChildren_noteRoot rootId) hle row.line
  have hnode : rowNode row = nodeValue row.line [] := rfl
  refine ⟨{ root := noteRoot rootId (toValues (close (push (min row.depth opened.length) row.line opened))),
            path := (pathOf opened).take (min row.depth opened.length) ++
              [(close (opened.drop (min row.depth opened.length))).length],
            previousDepth := min row.depth opened.length }, ?_, ⟨rfl, ?_, ?_⟩⟩
  · simp only [rebuildRow, hdepth, h.path, h.root, hnode, hpush]
    rfl
  · simp [pathOf, push, List.map_take]
  · exact fun _ => (push_length hle row.line).symm

theorem rebuildNote_eq (rootId : String) (rows : List OutlineRow) :
    rebuildNote rootId rows = some (noteRoot rootId (toValues (close (openedBy [] rows)))) := by
  have hrun : ∀ (rows : List OutlineRow) (rebuilding : Rebuilding) (opened : OpenNodes),
      Rebuilds rootId rebuilding opened →
      (rows.foldlM rebuildRow rebuilding).map Rebuilding.root =
        some (noteRoot rootId (toValues (close (openedBy opened rows)))) := by
    intro rows
    induction rows with
    | nil => exact fun rebuilding opened h => congrArg some h.root
    | cons row rows ih =>
      intro rebuilding opened h
      obtain ⟨next, hnext, hopened⟩ := rebuildRow_rebuilds h row
      rw [List.foldlM_cons, hnext]
      exact ih next _ hopened
  exact hrun rows _ [] ⟨rfl, rfl, fun hne => absurd rfl hne⟩

/-! ## The round trips -/

/-- The rows with each depth cut to one more than the row before has, and the first to `limit`. -/
def clampFrom (limit : Nat) : List OutlineRow → List OutlineRow
  | [] => []
  | row :: rows => { row with depth := min row.depth limit } :: clampFrom (min row.depth limit + 1) rows

theorem rowsOf_openedBy (opened : OpenNodes) (rows : List OutlineRow) :
    rowsOf 0 (close (openedBy opened rows)) = rowsOf 0 (close opened) ++ clampFrom opened.length rows := by
  induction rows generalizing opened with
  | nil => simp [openedBy, clampFrom]
  | cons row rows ih =>
    have hle : min row.depth opened.length ≤ opened.length := Nat.min_le_right _ _
    have hrest := ih (push (min row.depth opened.length) row.line opened)
    rw [push_length hle, rowsOf_close_push hle] at hrest
    rw [openedBy, List.foldl_cons]
    simpa [openedBy, clampFrom, OutlineRow.line, NoteLine.atDepth] using hrest

theorem openedBy_append (opened : OpenNodes) (first second : List OutlineRow) :
    openedBy opened (first ++ second) = openedBy (openedBy opened first) second :=
  List.foldl_append

theorem length_of_take_eq {α : Type} {n : Nat} {xs ys : List α} (h : xs.take n = ys.take n)
    (hle : n ≤ ys.length) : n ≤ xs.length := by
  have hlength := congrArg List.length h
  simp only [List.length_take] at hlength
  omega

mutual

/-- The rows of a node put it behind what is there at its depth, and leave what is open above. -/
theorem openedBy_rows {depth : Nat} {opened : OpenNodes} (h : depth ≤ opened.length) :
    ∀ node : NoteNode, (openedBy opened (node.rows depth)).take depth = opened.take depth ∧
      close ((openedBy opened (node.rows depth)).drop depth) = close (opened.drop depth) ++ [node]
  | .node line children => by
    have hmin : min depth opened.length = depth := Nat.min_eq_left h
    have hfirst : openedBy opened ((NoteNode.node line children).rows depth) =
        openedBy (push depth line opened) (rowsOf (depth + 1) children) := by
      simp [NoteNode.rows, openedBy, NoteLine.atDepth, hmin, OutlineRow.line]
    have hlength := push_length h line
    obtain ⟨htake, hclose⟩ := openedBy_rowsOf hlength.ge children
    rw [List.take_of_length_le hlength.le] at htake
    rw [List.drop_of_length_le hlength.le, close, List.nil_append] at hclose
    rw [hfirst]
    -- The line is the last of what is open down to its depth; its children are what is behind it.
    have hsplit := List.take_append_drop (depth + 1) (openedBy (push depth line opened) (rowsOf (depth + 1) children))
    have htop : (opened.take depth).length = depth := List.length_take_of_le h
    rw [htake, push, List.append_assoc, List.singleton_append] at hsplit
    constructor
    · rw [push, ← hsplit, List.take_left' htop]
    · rw [push, ← hsplit, List.drop_left' htop, close, ← push, hclose]

theorem openedBy_rowsOf {depth : Nat} {opened : OpenNodes} (h : depth ≤ opened.length) :
    ∀ nodes : List NoteNode, (openedBy opened (rowsOf depth nodes)).take depth = opened.take depth ∧
      close ((openedBy opened (rowsOf depth nodes)).drop depth) = close (opened.drop depth) ++ nodes
  | [] => by simp [rowsOf, openedBy]
  | node :: nodes => by
    obtain ⟨hnodeTake, hnodeClose⟩ := openedBy_rows h node
    obtain ⟨htake, hclose⟩ := openedBy_rowsOf (length_of_take_eq hnodeTake h) nodes
    rw [rowsOf, openedBy_append]
    exact ⟨htake.trans hnodeTake, by rw [hclose, hnodeClose, List.append_assoc, List.singleton_append]⟩

end

/-- Rebuilding and flattening undo each other: rows come back with legal depths, and a tree as it was. -/
theorem outline_round_trips (rootId : String) :
    (∀ rows : List OutlineRow, ∃ tree, rebuildNote rootId rows = some tree ∧
        flattenNote tree = clampFrom 0 rows) ∧
      ∀ nodes : List NoteNode,
        rebuildNote rootId (flattenNote (noteRoot rootId (toValues nodes))) =
          some (noteRoot rootId (toValues nodes)) := by
  constructor
  · intro rows
    refine ⟨_, rebuildNote_eq rootId rows, ?_⟩
    rw [flattenNote_noteRoot, rowsOf_openedBy]
    rfl
  · intro nodes
    have hclose := (@openedBy_rowsOf 0 [] (Nat.le_refl 0) nodes).2
    rw [List.drop_zero] at hclose
    rw [flattenNote_noteRoot, rebuildNote_eq, hclose]
    rfl

end Zulangue.Outline
