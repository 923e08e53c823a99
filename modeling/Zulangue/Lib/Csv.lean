import Mathlib.Data.List.Basic

/-!
# The grammar of comma-separated values

RFC 4180 as relations between a text and what it says, with a line feed, a carriage return or
both at the end of a row. What may stand between a closing quote and the end of its field is a
parameter: nothing, by the grammar. A row that is written as nothing needs its end, since
without it there is no row, and a carriage return before a line feed is one end with it.
-/

namespace Zulangue.Lib.Csv

/-- A character that needs no quotes. -/
def isPlain (c : Char) : Bool := c ≠ '"' && c ≠ ',' && c ≠ '\n' && c ≠ '\r'

/-- Quotes inside quotes are doubled. -/
def escape (value : List Char) : List Char :=
  value.flatMap fun c => if c = '"' then ['"', '"'] else [c]

inductive Field (behind : List Char → Prop) : List Char → List Char → Prop where
  | plain {value : List Char} (h : ∀ c ∈ value, isPlain c = true) : Field behind value value
  | quoted {value rest : List Char} (hbehind : behind rest) (h : ∀ c ∈ rest, isPlain c = true) :
    Field behind ('"' :: (escape value ++ '"' :: rest)) (value ++ rest)

inductive Row (behind : List Char → Prop) : List Char → List (List Char) → Prop where
  | single {text value : List Char} (field : Field behind text value) : Row behind text [value]
  | more {text value rest : List Char} {values : List (List Char)} (field : Field behind text value)
    (row : Row behind rest values) : Row behind (text ++ ',' :: rest) (value :: values)

/-- The end of a row, and what comes behind it. -/
inductive RowEnd : List Char → List Char → Prop where
  | lf (rest : List Char) : RowEnd ['\n'] rest
  | crlf (rest : List Char) : RowEnd ['\r', '\n'] rest
  | cr {rest : List Char} (h : rest.head? ≠ some '\n') : RowEnd ['\r'] rest

inductive Document (behind : List Char → Prop) : List Char → List (List (List Char)) → Prop where
  | empty : Document behind [] []
  | last {text : List Char} {row : List (List Char)} (hne : text ≠ []) (h : Row behind text row) :
    Document behind text [row]
  | ended {text stop rest : List Char} {row : List (List Char)} {rows : List (List (List Char))}
    (h : Row behind text row) (hstop : RowEnd stop rest) (hrest : Document behind rest rows) :
    Document behind (text ++ (stop ++ rest)) (row :: rows)

/-- The grammar itself. -/
abbrev Rfc4180 : List Char → List (List (List Char)) → Prop := Document (· = [])

/-- The grammar with any plain text behind closing quotes. -/
abbrev Loose : List Char → List (List (List Char)) → Prop := Document fun _ => True

section
variable {behind behind' : List Char → Prop}

theorem Field.mono (hle : ∀ text, behind text → behind' text) {text value : List Char}
    (h : Field behind text value) : Field behind' text value := by
  cases h with
  | plain h => exact .plain h
  | quoted hbehind h => exact .quoted (hle _ hbehind) h

theorem Row.mono (hle : ∀ text, behind text → behind' text) {text : List Char}
    {row : List (List Char)} (h : Row behind text row) : Row behind' text row := by
  induction h with
  | single field => exact .single (field.mono hle)
  | more field _ ih => exact .more (field.mono hle) ih

theorem Document.mono (hle : ∀ text, behind text → behind' text) {text : List Char}
    {rows : List (List (List Char))} (h : Document behind text rows) : Document behind' text rows := by
  induction h with
  | empty => exact .empty
  | last hne h => exact .last hne (h.mono hle)
  | ended h hstop _ ih => exact .ended (h.mono hle) hstop ih

theorem Rfc4180.loose {text : List Char} {rows : List (List (List Char))} (h : Rfc4180 text rows) :
    Loose text rows :=
  h.mono fun _ _ => trivial

theorem isPlain_iff {c : Char} : isPlain c = true ↔ c ≠ '"' ∧ c ≠ ',' ∧ c ≠ '\n' ∧ c ≠ '\r' := by
  simp [isPlain, and_assoc]

theorem RowEnd.ne_nil {stop rest : List Char} (h : RowEnd stop rest) : stop ≠ [] := by
  cases h <;> simp

@[simp] theorem escape_nil : escape [] = [] := rfl

@[simp] theorem escape_cons (c : Char) (value : List Char) :
    escape (c :: value) = (if c = '"' then ['"', '"'] else [c]) ++ escape value := rfl

/-- A row does not end in a line break: what breaks lines is quoted. -/
theorem Field.getLast {text value : List Char} (h : Field behind text value) :
    ∀ c ∈ text.getLast?, c ≠ '\n' ∧ c ≠ '\r' := by
  have hplain : ∀ value : List Char, (∀ c ∈ value, isPlain c = true) →
      ∀ c ∈ value.getLast?, c ≠ '\n' ∧ c ≠ '\r' := by
    intro value hvalue c hc
    exact (isPlain_iff.mp (hvalue c (List.mem_of_getLast? hc))).2.2
  cases h with
  | plain h => exact hplain _ h
  | @quoted value rest hbehind h =>
    intro c hc
    rw [← List.cons_append, List.getLast?_append_cons] at hc
    cases rest with
    | nil =>
      simp only [List.getLast?_singleton, Option.mem_def, Option.some.injEq] at hc
      subst hc
      decide
    | cons d rest =>
      rw [List.getLast?_cons_cons] at hc
      exact hplain _ h c hc

theorem Row.getLast {text : List Char} {row : List (List Char)} (h : Row behind text row) :
    ∀ c ∈ text.getLast?, c ≠ '\n' ∧ c ≠ '\r' := by
  induction h with
  | single field => exact field.getLast
  | @more text value rest values field row ih =>
    intro c hc
    rw [List.getLast?_append_cons] at hc
    cases rest with
    | nil =>
      simp only [List.getLast?_singleton, Option.mem_def, Option.some.injEq] at hc
      subst hc
      decide
    | cons d rest =>
      rw [List.getLast?_cons_cons] at hc
      exact ih c hc

end
end Zulangue.Lib.Csv
