import Zulangue.Lib.Fallible
import Zulangue.Lib.Text
import Mathlib.Data.List.Perm.Basic

/-!
# SQLite databases under schema changes

A database file is its `user_version`, its tables with their rows, and the indexes,
triggers and views beside them. Statements are modelled by what they leave in the file.
Constraints (CHECK, NOT NULL, UNIQUE, foreign keys, triggers) are an `Engine`: it says
which states a statement that writes rows may leave behind.
-/

namespace Zulangue.Lib.Sqlite

open Zulangue.Lib.Fallible (bind_eq_ok)

inductive Cell where
  | null
  | integer (value : Int)
  | text (value : String)
  | blob (value : Text.Bytes)
  deriving DecidableEq, Repr

/-- A row is read by column name. -/
abbrev Row := List (String × Cell)

def Row.get (row : Row) (column : String) : Cell := (row.lookup column).getD .null

/-- `SET column = value`; a column the row lacks is added. -/
def Row.set (row : Row) (column : String) (value : Cell) : Row :=
  if row.any (·.1 = column) then row.map fun entry => if entry.1 = column then (column, value) else entry
  else row ++ [(column, value)]

theorem lookup_snoc {row : Row} {column : String} (value : Cell)
    (h : row.any (·.1 = column) = false) : List.lookup column (row ++ [(column, value)]) = some value := by
  induction row with
  | nil => simp
  | cons entry rest ih =>
    rw [List.any_cons, Bool.or_eq_false_iff] at h
    have hentry : (column == entry.1) = false := beq_eq_false_iff_ne.mpr fun heq =>
      of_decide_eq_false h.1 heq.symm
    rw [List.cons_append, List.lookup_cons, hentry]
    exact ih h.2

theorem lookup_replace {row : Row} {column : String} (value : Cell)
    (h : row.any (·.1 = column) = true) :
    List.lookup column (row.map fun entry => if entry.1 = column then (column, value) else entry) =
      some value := by
  induction row with
  | nil => cases h
  | cons entry rest ih =>
    by_cases hentry : entry.1 = column
    · simp [hentry]
    · have hrest : List.any rest (fun entry => decide (entry.1 = column)) = true := by
        simpa [hentry] using h
      have hne : (column == entry.1) = false := beq_eq_false_iff_ne.mpr (Ne.symm hentry)
      rw [List.map_cons, if_neg hentry, List.lookup_cons, hne]
      exact ih hrest

theorem Row.get_set_self (row : Row) (column : String) (value : Cell) :
    (row.set column value).get column = value := by
  rw [Row.set, Row.get]
  split
  · next hany => rw [lookup_replace value hany, Option.getD_some]
  · next hany => rw [lookup_snoc value (Bool.eq_false_iff.mpr hany), Option.getD_some]

structure Shape where
  columns : List String
  sql : String
  deriving DecidableEq, Repr

structure Table where
  shape : Shape
  rows : List Row
  deriving DecidableEq, Repr

/-- An index or a trigger, with the table it belongs to. -/
structure Attached where
  table : String
  sql : String
  deriving DecidableEq, Repr

/-- Objects with names `LIKE 'sqlite_%'` are the engine's own and not listed. -/
structure Database where
  userVersion : Int
  tables : List (String × Table)
  indexes : List (String × Attached)
  triggers : List (String × Attached)
  views : List String
  deriving DecidableEq, Repr

/-- `sqlite_schema`: what a file says of its objects, without their rows. -/
structure Schema where
  tables : List (String × Shape)
  indexes : List (String × Attached)
  triggers : List (String × Attached)
  deriving DecidableEq, Repr

def Database.schema (db : Database) : Schema :=
  { tables := db.tables.map fun entry => (entry.1, entry.2.shape), indexes := db.indexes, triggers := db.triggers }

def Database.rows (db : Database) (table : String) : List Row :=
  ((List.lookup table db.tables).map Table.rows).getD []

/-- The file with the rows of one table changed. -/
def Database.setRows (db : Database) (table : String) (f : List Row → List Row) : Database :=
  { db with tables := db.tables.map fun entry =>
    (entry.1, if entry.1 = table then { entry.2 with rows := f entry.2.rows } else entry.2) }

inductive SqlError where
  | noSuchObject (name : String)
  | alreadyExists (name : String)
  | constraint (table : String)
  deriving DecidableEq, Repr

/-- The constraints of an engine: whether a table may hold the rows a statement left in
it, and how many rows `pragma_foreign_key_check` lists. -/
structure Engine where
  admits : String → Database → Bool
  foreignKeyViolations : Database → Nat

/-- The statements a migration is written in. -/
inductive Statement where
  | createTable (name : String) (shape : Shape)
  | dropTable (name : String)
  | renameTable (name target : String)
  | addColumn (table column declaration : String) (value : Cell)
  | createIndex (name : String) (index : Attached)
  | dropIndex (name : String)
  | dropIndexIfExists (name : String)
  | createTrigger (name : String) (trigger : Attached)
  | dropTrigger (name : String)
  /-- `INSERT INTO table SELECT …`: the rows the query answers. -/
  | insertSelect (table source : String) (select : Database → List Row)
  /-- `UPDATE table SET …`: what becomes of each row. -/
  | update (table : String) (set : Database → Row → Row)

def without {α : Type} (name : String) (objects : List (String × α)) : List (String × α) :=
  objects.filter (·.1 ≠ name)

def table? (db : Database) (name : String) : Except SqlError Table :=
  match List.lookup name db.tables with
  | some table => .ok table
  | none => .error (.noSuchObject name)

def fresh {α : Type} (name : String) (objects : List (String × α)) : Except SqlError Unit :=
  match List.lookup name objects with
  | some _ => .error (.alreadyExists name)
  | none => .ok ()

def present {α : Type} (name : String) (objects : List (String × α)) : Except SqlError Unit :=
  match List.lookup name objects with
  | some _ => .ok ()
  | none => .error (.noSuchObject name)

def Engine.check (e : Engine) (table : String) (db : Database) : Except SqlError Database :=
  if e.admits table db then .ok db else .error (.constraint table)

def Statement.execute (e : Engine) (db : Database) : Statement → Except SqlError Database
  | .createTable name shape => do
    fresh name db.tables
    return { db with tables := db.tables ++ [(name, { shape, rows := [] })] }
  | .dropTable name => do
    let _ ← table? db name
    return { db with
      tables := without name db.tables
      indexes := db.indexes.filter (·.2.table ≠ name)
      triggers := db.triggers.filter (·.2.table ≠ name) }
  | .renameTable name target => do
    let table ← table? db name
    fresh target db.tables
    let follow := fun (object : Attached) =>
      if object.table = name then { object with table := target } else object
    return { db with
      tables := without name db.tables ++ [(target, table)]
      indexes := db.indexes.map fun entry => (entry.1, follow entry.2)
      triggers := db.triggers.map fun entry => (entry.1, follow entry.2) }
  | .addColumn name column declaration value => do
    let table ← table? db name
    if column ∈ table.shape.columns then .error (.alreadyExists column)
    else
      let shape := { columns := table.shape.columns ++ [column], sql := table.shape.sql ++ ", " ++ declaration }
      let altered : Table := { shape, rows := table.rows.map (·.set column value) }
      return { db with
        tables := db.tables.map fun entry => (entry.1, if entry.1 = name then altered else entry.2) }
  | .createIndex name index => do
    let _ ← table? db index.table
    fresh name db.indexes
    e.check index.table { db with indexes := db.indexes ++ [(name, index)] }
  | .dropIndex name => do
    present name db.indexes
    return { db with indexes := without name db.indexes }
  | .dropIndexIfExists name =>
    return { db with indexes := without name db.indexes }
  | .createTrigger name trigger => do
    let _ ← table? db trigger.table
    fresh name db.triggers
    return { db with triggers := db.triggers ++ [(name, trigger)] }
  | .dropTrigger name => do
    present name db.triggers
    return { db with triggers := without name db.triggers }
  | .insertSelect name source select => do
    let _ ← table? db name
    let _ ← table? db source
    e.check name (db.setRows name (· ++ select db))
  | .update name set => do
    let _ ← table? db name
    e.check name (db.setRows name (List.map (set db)))

/-- `execute_batch`. -/
def executeBatch (e : Engine) : List Statement → Database → Except SqlError Database
  | [], db => .ok db
  | statement :: rest, db => do
    let db ← statement.execute e db
    executeBatch e rest db

/-- Whether `SELECT columns FROM table` compiles. -/
def Schema.prepares (schema : Schema) (table : String) (columns : List String) : Bool :=
  match List.lookup table schema.tables with
  | some shape => columns.all (· ∈ shape.columns)
  | none => false

/-- Whether the text has the other somewhere in it, in ASCII lower case. -/
def containsLowercase (sql needle : String) : Bool :=
  let text := sql.toList.map Char.toLower
  text.tails.any fun rest => needle.toList.isPrefixOf rest

theorem Engine.eq_of_check {e : Engine} {table : String} {db db' : Database}
    (h : e.check table db = .ok db') : db' = db := by
  rw [Engine.check] at h
  split at h
  · exact (Except.ok.inj h).symm
  · cases h

/-- Statements about indexes. -/
inductive Statement.IsIndex : Statement → Prop
  | create (name : String) (index : Attached) : IsIndex (.createIndex name index)
  | drop (name : String) : IsIndex (.dropIndex name)
  | dropIfExists (name : String) : IsIndex (.dropIndexIfExists name)

/-- Index statements write no rows. -/
theorem Statement.IsIndex.tables_eq {e : Engine} {s : Statement} {db db' : Database}
    (hs : s.IsIndex) (h : s.execute e db = .ok db') : db'.tables = db.tables := by
  cases hs with
  | create name index =>
    obtain ⟨_, -, h⟩ := bind_eq_ok.mp h
    obtain ⟨_, -, h⟩ := bind_eq_ok.mp h
    rw [Engine.eq_of_check h]
  | drop name =>
    obtain ⟨_, -, h⟩ := bind_eq_ok.mp h
    rw [← Except.ok.inj h]
  | dropIfExists name => rw [← Except.ok.inj h]

theorem tables_eq_of_executeBatch {e : Engine} {statements : List Statement} {db db' : Database}
    (hindexes : ∀ s ∈ statements, s.IsIndex) (h : executeBatch e statements db = .ok db') :
    db'.tables = db.tables := by
  induction statements generalizing db with
  | nil => rw [← Except.ok.inj h]
  | cons s rest ih =>
    obtain ⟨mid, hmid, hrest⟩ := bind_eq_ok.mp h
    have hs := (hindexes s List.mem_cons_self).tables_eq hmid
    have htail := ih (fun s hs => hindexes s (List.mem_cons_of_mem _ hs)) hrest
    rw [htail, hs]

/-- Rows do not show in the schema. -/
@[simp] theorem schema_setRows (db : Database) (table : String) (f : List Row → List Row) :
    (db.setRows table f).schema = db.schema := by
  have hshape : ∀ entry : String × Table,
      ((if entry.1 = table then { entry.2 with rows := f entry.2.rows } else entry.2 : Table)).shape =
        entry.2.shape := by
    intro entry
    split <;> rfl
  simp [Database.schema, Database.setRows, hshape]

theorem Database.setRows_setRows (db : Database) (table : String) (f g : List Row → List Row) :
    (db.setRows table f).setRows table g = db.setRows table (g ∘ f) := by
  rw [Database.setRows, Database.setRows, Database.setRows, List.map_map]
  congr 1
  apply List.map_congr_left
  intro entry _
  by_cases hentry : entry.1 = table
  · simp [hentry]
  · simp [hentry]

@[simp] theorem userVersion_setRows (db : Database) (table : String) (f : List Row → List Row) :
    (db.setRows table f).userVersion = db.userVersion := rfl

end Zulangue.Lib.Sqlite
