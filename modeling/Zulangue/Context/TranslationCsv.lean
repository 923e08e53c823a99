import Zulangue.Context.Snapshot
import Zulangue.Lib.Csv

/-!
# The translation tables of Context sources

`parse_csv_records` and `parse_translation_csv` of `vt-store/src/context_pack_store.rs`. Texts
are lists of characters. The reader is compared with the grammar of RFC 4180, and with the
same grammar where text may stand behind a closing quote.
-/

namespace Zulangue.Context

open Zulangue.Lib.Csv Zulangue.Lib.Text

/-! ## Records -/

structure CsvReader where
  records : List (List (List Char))
  record : List (List Char)
  field : List Char
  inQuotes : Bool
  quoted : Bool

namespace CsvReader

def push (r : CsvReader) (c : Char) : CsvReader := { r with field := r.field ++ [c] }

def endField (r : CsvReader) : CsvReader :=
  { r with record := r.record ++ [r.field], field := [], quoted := false }

/-- Pushes the field to the record, and the record to the records. -/
def endRecord (r : CsvReader) : CsvReader :=
  { r with records := r.records ++ [r.record ++ [r.field]], record := [], field := [], quoted := false }

end CsvReader

def quoteInsideUnquoted : ContextPackStoreError :=
  .validation "translation CSV contains a quote inside an unquoted field"

def unterminatedQuote : ContextPackStoreError :=
  .validation "translation CSV contains an unterminated quoted field"

/-- The `while` over the characters. -/
def scanCsv : List Char → CsvReader → Except ContextPackStoreError CsvReader
  | [], r => .ok r
  | c :: rest, r =>
    if r.inQuotes then
      if c = '"' then
        match rest with
        | '"' :: rest => scanCsv rest (r.push '"')
        | rest => scanCsv rest { r with inQuotes := false }
      else scanCsv rest (r.push c)
    else if c = '"' then
      if r.field = [] ∧ r.quoted = false then
        scanCsv rest { r with inQuotes := true, quoted := true }
      else .error quoteInsideUnquoted
    else if c = ',' then scanCsv rest r.endField
    else if c = '\n' then scanCsv rest r.endRecord
    else if c = '\r' then
      match rest with
      | '\n' :: rest => scanCsv rest r.endRecord
      | rest => scanCsv rest r.endRecord
    else scanCsv rest (r.push c)

attribute [local simp] scanCsv

/-- `ends_with(['\n', '\r'])`. -/
def endsWithBreak (text : List Char) : Bool :=
  text.getLast? = some '\n' || text.getLast? = some '\r'

def parseCsvRecords (text : List Char) : Except ContextPackStoreError (List (List (List Char))) :=
  match scanCsv text ⟨[], [], [], false, false⟩ with
  | .error e => .error e
  | .ok r =>
    if r.inQuotes then .error unterminatedQuote
    else if r.field ≠ [] ∨ r.record ≠ [] ∨ text ≠ [] ∧ endsWithBreak text = false then
      .ok r.endRecord.records
    else .ok r.records

/-! ## One step of the reader -/

section
variable {records : List (List (List Char))} {record : List (List Char)} {field : List Char}
  {quoted : Bool}

theorem scan_plain_cons {c : Char} (hc : isPlain c = true) (rest : List Char) :
    scanCsv (c :: rest) ⟨records, record, field, false, quoted⟩ =
      scanCsv rest ⟨records, record, field ++ [c], false, quoted⟩ := by
  obtain ⟨hquote, hcomma, hlf, hcr⟩ := isPlain_iff.mp hc
  conv_lhs => unfold scanCsv
  simp [hquote, hcomma, hlf, hcr, CsvReader.push]

theorem scan_comma (rest : List Char) :
    scanCsv (',' :: rest) ⟨records, record, field, false, quoted⟩ =
      scanCsv rest ⟨records, record ++ [field], [], false, false⟩ := by
  conv_lhs => unfold scanCsv
  simp [CsvReader.endField]

theorem scan_stop {stop rest : List Char} (h : RowEnd stop rest) :
    scanCsv (stop ++ rest) ⟨records, record, field, false, quoted⟩ =
      scanCsv rest ⟨records ++ [record ++ [field]], [], [], false, false⟩ := by
  cases h with
  | lf =>
    conv_lhs => unfold scanCsv
    simp [CsvReader.endRecord]
  | crlf =>
    conv_lhs => unfold scanCsv
    simp [CsvReader.endRecord]
  | cr h =>
    conv_lhs => unfold scanCsv
    cases rest with
    | nil => simp [CsvReader.endRecord]
    | cons c rest =>
      have hc : c ≠ '\n' := by simpa using h
      simp [hc, CsvReader.endRecord]

theorem scan_open (rest : List Char) :
    scanCsv ('"' :: rest) ⟨records, record, [], false, false⟩ =
      scanCsv rest ⟨records, record, [], true, true⟩ := by
  conv_lhs => unfold scanCsv
  simp

theorem scan_misplaced (rest : List Char) (h : ¬ (field = [] ∧ quoted = false)) :
    scanCsv ('"' :: rest) ⟨records, record, field, false, quoted⟩ = .error quoteInsideUnquoted := by
  unfold scanCsv
  simp only [Bool.false_eq_true, if_false, if_true, h]

theorem scan_inside {c : Char} (hc : c ≠ '"') (rest : List Char) :
    scanCsv (c :: rest) ⟨records, record, field, true, quoted⟩ =
      scanCsv rest ⟨records, record, field ++ [c], true, quoted⟩ := by
  conv_lhs => unfold scanCsv
  simp [hc, CsvReader.push]

theorem scan_doubled (rest : List Char) :
    scanCsv ('"' :: '"' :: rest) ⟨records, record, field, true, quoted⟩ =
      scanCsv rest ⟨records, record, field ++ ['"'], true, quoted⟩ := by
  conv_lhs => unfold scanCsv
  simp [CsvReader.push]

theorem scan_close {rest : List Char} (h : rest.head? ≠ some '"') :
    scanCsv ('"' :: rest) ⟨records, record, field, true, quoted⟩ =
      scanCsv rest ⟨records, record, field, false, quoted⟩ := by
  conv_lhs => unfold scanCsv
  cases rest with
  | nil => simp
  | cons c rest =>
    have hc : c ≠ '"' := by simpa using h
    simp [hc]

/-! ## What the grammar derives is read -/

theorem scan_plain {value : List Char} (hvalue : ∀ c ∈ value, isPlain c = true) (rest : List Char) :
    scanCsv (value ++ rest) ⟨records, record, field, false, quoted⟩ =
      scanCsv rest ⟨records, record, field ++ value, false, quoted⟩ := by
  induction value generalizing field with
  | nil => simp
  | cons c value ih =>
    rw [List.forall_mem_cons] at hvalue
    rw [List.cons_append, scan_plain_cons hvalue.1, ih hvalue.2, List.append_assoc]
    rfl

theorem scan_escaped (value : List Char) {rest : List Char} (hrest : rest.head? ≠ some '"') :
    scanCsv (escape value ++ '"' :: rest) ⟨records, record, field, true, quoted⟩ =
      scanCsv rest ⟨records, record, field ++ value, false, quoted⟩ := by
  induction value generalizing field with
  | nil => rw [escape_nil, List.nil_append, scan_close hrest, List.append_nil]
  | cons c value ih =>
    rw [escape_cons]
    split
    · next hc =>
      rw [hc, List.append_assoc, List.cons_append, List.singleton_append, scan_doubled, ih,
        List.append_assoc]
      rfl
    · next hc =>
      rw [List.append_assoc, List.singleton_append, scan_inside hc, ih, List.append_assoc]
      rfl

section
variable {behind : List Char → Prop}

theorem scan_field {text value rest : List Char} (h : Field behind text value)
    (hrest : rest.head? ≠ some '"') :
    ∃ quoted, scanCsv (text ++ rest) ⟨records, record, [], false, false⟩ =
      scanCsv rest ⟨records, record, value, false, quoted⟩ := by
  cases h with
  | plain h => exact ⟨false, by rw [scan_plain h, List.nil_append]⟩
  | @quoted value after hbehind h =>
    have hnext : (after ++ rest).head? ≠ some '"' := by
      cases after with
      | nil => exact hrest
      | cons c after =>
        have hc := (isPlain_iff.mp (h c List.mem_cons_self)).1
        simpa using hc
    refine ⟨true, ?_⟩
    rw [List.cons_append, List.append_assoc, List.cons_append, scan_open, scan_escaped value hnext,
      scan_plain h, List.nil_append]

/-- All fields of a row but the last go to the record. -/
theorem scan_row {text rest : List Char} {row : List (List Char)} (h : Row behind text row)
    (hrest : rest.head? ≠ some '"') :
    ∃ front last quoted, row = front ++ [last] ∧
      scanCsv (text ++ rest) ⟨records, record, [], false, false⟩ =
        scanCsv rest ⟨records, record ++ front, last, false, quoted⟩ := by
  induction h generalizing record with
  | @single text value field =>
    obtain ⟨quoted, hscan⟩ := @scan_field records record _ _ _ _ field hrest
    exact ⟨[], value, quoted, rfl, by rw [hscan, List.append_nil]⟩
  | @more text value rest' values field row ih =>
    have hcomma : (',' :: (rest' ++ rest)).head? ≠ some '"' := by simp
    obtain ⟨quoted, hscan⟩ := @scan_field records record _ _ _ _ field hcomma
    obtain ⟨front, last, quoted', hrow, hscan'⟩ := @ih (record ++ [value])
    refine ⟨value :: front, last, quoted', by rw [hrow]; rfl, ?_⟩
    rw [List.append_assoc, List.cons_append, hscan, scan_comma, hscan', List.append_assoc]
    rfl

/-- How the reader stands at the end of a text that says `rows`: behind the end of a row, or
behind a last row that has none. -/
def Closed (text : List Char) (records rows : List (List (List Char))) (r : CsvReader) : Prop :=
  r.inQuotes = false ∧
    (r = ⟨records ++ rows, [], [], false, false⟩ ∧ (text ≠ [] → endsWithBreak text = true) ∨
      r.endRecord.records = records ++ rows ∧ text ≠ [] ∧ endsWithBreak text = false)

theorem endsWithBreak_append (before : List Char) {after : List Char} (h : after ≠ []) :
    endsWithBreak (before ++ after) = endsWithBreak after := by
  obtain ⟨c, after, rfl⟩ := List.exists_cons_of_ne_nil h
  simp only [endsWithBreak, List.getLast?_append_cons]

theorem endsWithBreak_stop {stop rest : List Char} (h : RowEnd stop rest) :
    endsWithBreak stop = true := by
  cases h <;> rfl

theorem Closed.ended {before stop rest : List Char} {row : List (List Char)}
    {rows : List (List (List Char))} {r : CsvReader} (hstop : RowEnd stop rest)
    (h : Closed rest (records ++ [row]) rows r) :
    Closed (before ++ (stop ++ rest)) records (row :: rows) r := by
  have hne : stop ++ rest ≠ [] := by
    intro heq
    exact hstop.ne_nil (List.append_eq_nil_iff.mp heq).1
  obtain ⟨hquotes, ⟨hr, hbreak⟩ | ⟨hr, hrest, hbreak⟩⟩ := h
  · refine ⟨hquotes, .inl ⟨by rw [hr, List.append_assoc]; rfl, ?_⟩⟩
    intro _
    rw [endsWithBreak_append before hne]
    by_cases hrest : rest = []
    · rw [hrest, List.append_nil, endsWithBreak_stop hstop]
    · rw [endsWithBreak_append stop hrest, hbreak hrest]
  · refine ⟨hquotes, .inr ⟨by rw [hr, List.append_assoc]; rfl, ?_, ?_⟩⟩
    · intro heq
      exact hne (List.append_eq_nil_iff.mp heq).2
    · rw [endsWithBreak_append before hne, endsWithBreak_append stop hrest, hbreak]

/-- A last row leaves the reader behind a character that breaks no line. -/
theorem closed_last {text : List Char} {front : List (List Char)} {last : List Char}
    (hne : text ≠ []) (h : Row behind text (front ++ [last])) :
    Closed text records [front ++ [last]] ⟨records, front, last, false, quoted⟩ := by
  refine ⟨rfl, .inr ⟨rfl, hne, ?_⟩⟩
  have hlast := h.getLast
  rw [List.getLast?_eq_some_getLast hne] at hlast
  obtain ⟨hlf, hcr⟩ := hlast _ rfl
  simp [endsWithBreak, List.getLast?_eq_some_getLast hne, hlf, hcr]

theorem scan_document {text : List Char} {rows : List (List (List Char))}
    (h : Document behind text rows) :
    ∃ r, scanCsv text ⟨records, [], [], false, false⟩ = .ok r ∧ Closed text records rows r := by
  induction h generalizing records with
  | empty =>
    refine ⟨⟨records, [], [], false, false⟩, rfl, rfl, .inl ⟨by rw [List.append_nil], ?_⟩⟩
    intro hne
    exact absurd rfl hne
  | @last text row hne h =>
    have hend : ([] : List Char).head? ≠ some '"' := by simp
    obtain ⟨front, last, quoted, rfl, hscan⟩ := @scan_row records [] _ _ _ _ h hend
    rw [List.append_nil, List.nil_append] at hscan
    exact ⟨_, hscan, closed_last hne h⟩
  | @ended text stop rest row rows h hstop hrest ih =>
    have hend : (stop ++ rest).head? ≠ some '"' := by
      cases hstop <;> simp
    obtain ⟨front, last, quoted, rfl, hscan⟩ := @scan_row records [] _ _ _ _ h hend
    rw [List.nil_append, scan_stop hstop] at hscan
    obtain ⟨r, hr, hclosed⟩ := @ih (records ++ [front ++ [last]])
    exact ⟨r, by rw [hscan, hr], hclosed.ended hstop⟩

theorem parse_closed {text : List Char} {rows : List (List (List Char))} {r : CsvReader}
    (hscan : scanCsv text ⟨[], [], [], false, false⟩ = .ok r) (h : Closed text [] rows r) :
    parseCsvRecords text = .ok rows := by
  obtain ⟨hquotes, ⟨hr, hbreak⟩ | ⟨hr, hne, hbreak⟩⟩ := h
  · have hopen : ¬ (text ≠ [] ∧ endsWithBreak text = false) := by
      rintro ⟨hne, hfalse⟩
      rw [hbreak hne] at hfalse
      cases hfalse
    simp only [parseCsvRecords, hscan, hquotes, Bool.false_eq_true, if_false]
    rw [if_neg (by simpa [hr] using hopen), hr, List.nil_append]
  · simp only [parseCsvRecords, hscan, hquotes, Bool.false_eq_true, if_false]
    rw [if_pos (.inr (.inr ⟨hne, hbreak⟩)), hr, List.nil_append]

end

/-! ## What is read is derived -/

/-- A field is at its end. -/
def AtStop (rest : List Char) : Prop :=
  rest = [] ∨ (∃ after, rest = ',' :: after) ∨ ∃ stop after, rest = stop ++ after ∧ RowEnd stop after

theorem rowEnd_lf (rest : List Char) : ∃ stop after, '\n' :: rest = stop ++ after ∧ RowEnd stop after :=
  ⟨['\n'], rest, rfl, .lf rest⟩

theorem rowEnd_cr (rest : List Char) : ∃ stop after, '\r' :: rest = stop ++ after ∧ RowEnd stop after := by
  by_cases h : rest.head? = some '\n'
  · obtain ⟨after, rfl⟩ := List.head?_eq_some_iff.mp h
    exact ⟨['\r', '\n'], after, rfl, .crlf after⟩
  · exact ⟨['\r'], rest, rfl, .cr h⟩

/-- Unquoted text is read up to a comma, a line break or the end. -/
theorem plain_sound {text : List Char} {r : CsvReader}
    (hquote : text.head? = some '"' → ¬ (field = [] ∧ quoted = false))
    (h : scanCsv text ⟨records, record, field, false, quoted⟩ = .ok r) :
    ∃ value rest, text = value ++ rest ∧ (∀ c ∈ value, isPlain c = true) ∧ AtStop rest ∧
      scanCsv rest ⟨records, record, field ++ value, false, quoted⟩ = .ok r := by
  induction text generalizing field with
  | nil => exact ⟨[], [], rfl, by simp, .inl rfl, by rw [List.append_nil, h]⟩
  | cons c text ih =>
    by_cases hplain : isPlain c = true
    · rw [scan_plain_cons hplain] at h
      obtain ⟨value, rest, rfl, hvalue, hstop, hscan⟩ := ih (by simp) h
      refine ⟨c :: value, rest, rfl, List.forall_mem_cons.mpr ⟨hplain, hvalue⟩, hstop, ?_⟩
      rw [← hscan, List.append_assoc]
      rfl
    · have hend : AtStop (c :: text) := by
        rw [isPlain_iff] at hplain
        by_cases hc : c = '"'
        · rw [hc, scan_misplaced text (hquote (by rw [hc]; rfl))] at h
          cases h
        · by_cases hcomma : c = ','
          · exact .inr (.inl ⟨text, by rw [hcomma]⟩)
          · by_cases hlf : c = '\n'
            · exact .inr (.inr (hlf ▸ rowEnd_lf text))
            · have hcr : c = '\r' := by
                by_contra hcr
                exact hplain ⟨hc, hcomma, hlf, hcr⟩
              exact .inr (.inr (hcr ▸ rowEnd_cr text))
      exact ⟨[], c :: text, rfl, by simp, hend, by rw [List.append_nil, h]⟩

/-- Quoted text is read up to a quote that is not doubled, or the reader stays inside. -/
theorem quoted_sound {text : List Char} {r : CsvReader}
    (h : scanCsv text ⟨records, record, field, true, quoted⟩ = .ok r) :
    r.inQuotes = true ∨ ∃ value rest, text = escape value ++ '"' :: rest ∧ rest.head? ≠ some '"' ∧
      scanCsv rest ⟨records, record, field ++ value, false, quoted⟩ = .ok r := by
  induction hlength : text.length using Nat.strong_induction_on generalizing text field with
  | _ length ih =>
    cases text with
    | nil =>
      left
      rw [scanCsv] at h
      cases h
      rfl
    | cons c text =>
      rw [List.length_cons] at hlength
      by_cases hc : c = '"'
      · subst hc
        by_cases hdoubled : text.head? = some '"'
        · obtain ⟨text, rfl⟩ := List.head?_eq_some_iff.mp hdoubled
          rw [List.length_cons] at hlength
          rw [scan_doubled] at h
          rcases ih text.length (by omega) h rfl with hinside | ⟨value, rest, rfl, hrest, hscan⟩
          · exact .inl hinside
          · refine .inr ⟨'"' :: value, rest, by simp, hrest, ?_⟩
            rw [← hscan, List.append_assoc]
            rfl
        · rw [scan_close hdoubled] at h
          exact .inr ⟨[], text, rfl, hdoubled, by rw [List.append_nil, h]⟩
      · rw [scan_inside hc] at h
        rcases ih text.length (by omega) h rfl with hinside | ⟨value, rest, rfl, hrest, hscan⟩
        · exact .inl hinside
        · refine .inr ⟨c :: value, rest, by simp [hc], hrest, ?_⟩
          rw [← hscan, List.append_assoc]
          rfl

theorem field_sound {text : List Char} {r : CsvReader}
    (h : scanCsv text ⟨records, record, [], false, false⟩ = .ok r) :
    r.inQuotes = true ∨ ∃ cell value rest quoted, text = cell ++ rest ∧
      Field (fun _ => True) cell value ∧ AtStop rest ∧
      scanCsv rest ⟨records, record, value, false, quoted⟩ = .ok r := by
  by_cases hquote : text.head? = some '"'
  · obtain ⟨text, rfl⟩ := List.head?_eq_some_iff.mp hquote
    rw [scan_open] at h
    rcases quoted_sound h with hinside | ⟨value, after, rfl, hafter, hscan⟩
    · exact .inl hinside
    · obtain ⟨tail, rest, rfl, htail, hstop, hscan⟩ :=
        plain_sound (fun hhead => absurd hhead hafter) hscan
      exact .inr ⟨_, value ++ tail, rest, true, by simp, .quoted trivial htail, hstop, hscan⟩
  · obtain ⟨value, rest, rfl, hvalue, hstop, hscan⟩ :=
      plain_sound (fun hhead => absurd hhead hquote) h
    exact .inr ⟨value, value, rest, false, rfl, .plain hvalue, hstop, hscan⟩

/-- A row is read up to its end or the end of the text. -/
theorem row_sound {text : List Char} {r : CsvReader}
    (h : scanCsv text ⟨records, record, [], false, false⟩ = .ok r) :
    r.inQuotes = true ∨ ∃ before front last rest quoted, text = before ++ rest ∧
      Row (fun _ => True) before (front ++ [last]) ∧
      (rest = [] ∨ ∃ stop after, rest = stop ++ after ∧ RowEnd stop after) ∧
      scanCsv rest ⟨records, record ++ front, last, false, quoted⟩ = .ok r := by
  induction hlength : text.length using Nat.strong_induction_on generalizing text record with
  | _ length ih =>
    rcases field_sound h with hinside | ⟨cell, value, rest, quoted, rfl, hfield, hstop, hscan⟩
    · exact .inl hinside
    · rcases hstop with hend | ⟨after, rfl⟩ | hend
      · exact .inr ⟨cell, [], value, rest, quoted, rfl, .single hfield, .inl hend,
          by rw [List.append_nil, hscan]⟩
      · rw [List.length_append, List.length_cons] at hlength
        rw [scan_comma] at hscan
        rcases ih after.length (by omega) hscan rfl with hinside |
          ⟨before, front, last, rest, quoted, rfl, hrow, hend, hscan⟩
        · exact .inl hinside
        · refine .inr ⟨cell ++ ',' :: before, value :: front, last, rest, quoted, by simp,
            .more hfield hrow, hend, ?_⟩
          rw [← hscan, List.append_assoc]
          rfl
      · exact .inr ⟨cell, [], value, rest, quoted, rfl, .single hfield, .inr hend,
          by rw [List.append_nil, hscan]⟩

theorem document_sound {text : List Char} {r : CsvReader}
    (h : scanCsv text ⟨records, [], [], false, false⟩ = .ok r) :
    r.inQuotes = true ∨ ∃ rows, Loose text rows ∧ Closed text records rows r := by
  induction hlength : text.length using Nat.strong_induction_on generalizing text records with
  | _ length ih =>
    by_cases hempty : text = []
    · subst hempty
      rw [scanCsv] at h
      cases h
      refine .inr ⟨[], .empty, rfl, .inl ⟨by rw [List.append_nil], ?_⟩⟩
      intro hne
      exact absurd rfl hne
    · rcases row_sound h with hinside | ⟨before, front, last, rest, quoted, rfl, hrow, hend, hscan⟩
      · exact .inl hinside
      · rcases hend with rfl | ⟨stop, after, rfl, hstop⟩
        · rw [List.append_nil] at hempty ⊢
          rw [List.nil_append, scanCsv] at hscan
          cases hscan
          exact .inr ⟨_, .last hempty hrow, closed_last hempty hrow⟩
        · have hpos := List.length_pos_iff.mpr hstop.ne_nil
          rw [List.length_append, List.length_append] at hlength
          rw [List.nil_append, scan_stop hstop] at hscan
          rcases ih after.length (by omega) hscan rfl with hinside | ⟨rows, hrest, hclosed⟩
          · exact .inl hinside
          · exact .inr ⟨_, .ended hrow hstop hrest, hclosed.ended hstop⟩

end

/-- The reader accepts the grammar with text behind closing quotes, and reads what it derives. -/
theorem parse_iff_loose {text : List Char} {rows : List (List (List Char))} :
    parseCsvRecords text = .ok rows ↔ Loose text rows := by
  constructor
  · intro h
    cases hscan : scanCsv text ⟨[], [], [], false, false⟩ with
    | error e =>
      simp only [parseCsvRecords, hscan] at h
      cases h
    | ok r =>
      rcases document_sound hscan with hinside | ⟨rows', hloose, hclosed⟩
      · simp only [parseCsvRecords, hscan, hinside, if_true] at h
        cases h
      · rw [parse_closed hscan hclosed] at h
        cases h
        exact hloose
  · intro h
    obtain ⟨r, hscan, hclosed⟩ := @scan_document [] _ _ _ h
    exact parse_closed hscan hclosed

/-! ## Translation tables -/

def contextCsvMaxRows : Nat := 1000

def contextCsvMaxCellScalars : Nat := 256

/-- The byte-order mark. -/
def byteOrderMark : Char := Char.ofNat 0xfeff

structure ParsedTranslationCsv where
  languageA : List Char
  languageB : List Char
  rows : List (List Char × List Char)
  deriving DecidableEq, Repr

/-- A part behind a hyphen. -/
def isSubtag (part : List Char) : Bool :=
  2 ≤ part.length && part.length ≤ 8 && part.all Char.isAlphanum

/-- Lengths are in bytes, which for the ASCII texts that pass are characters. -/
def validateLanguageCode (value : List Char) : Except ContextPackStoreError Unit :=
  let invalid := ContextPackStoreError.validation
    ("invalid language-code header '" ++ String.ofList value ++ "'")
  if value = [] ∨ 32 < (utf8 (String.ofList value)).length ∨ ¬ value.all (·.toNat < 0x80) then
    .error invalid
  else
    let primary := value.takeWhile (· ≠ '-')
    if ¬ (2 ≤ primary.length ∧ primary.length ≤ 3 ∧ primary.all Char.isAlpha) then .error invalid
    else if ((value.splitOn '-').drop 1).any (fun part => !isSubtag part) then .error invalid
    else .ok ()

/-- The error of a row, which is counted with the header from 1. -/
def rowError (index : Nat) (what : String) : ContextPackStoreError :=
  .validation ("translation CSV row " ++ toString (index + 2) ++ " " ++ what)

/-- The loop over the records behind the header. -/
def translationRows (index : Nat) (rows : List (List Char × List Char)) :
    List (List (List Char)) → Except ContextPackStoreError (List (List Char × List Char))
  | [] => .ok rows
  | record :: records =>
    if record.all fun cell => trim cell = [] then translationRows (index + 1) rows records
    else
      match record with
      | [first, second] =>
        let left := trim first
        let right := trim second
        if left = [] ∨ right = [] then .error (rowError index "contains an empty cell")
        else if contextCsvMaxCellScalars < left.length ∨ contextCsvMaxCellScalars < right.length then
          .error (rowError index ("exceeds " ++ toString contextCsvMaxCellScalars ++ " scalars per cell"))
        else if contextCsvMaxRows < (rows ++ [(left, right)]).length then
          .error (.validation ("translation CSV exceeds " ++ toString contextCsvMaxRows ++ " rows"))
        else translationRows (index + 1) (rows ++ [(left, right)]) records
      | _ => .error (rowError index "must contain exactly two cells")

/-- `eq_ignore_ascii_case`. -/
def eqIgnoreAsciiCase (left right : List Char) : Bool := left.map Char.toLower = right.map Char.toLower

/-- What `parse_translation_csv` makes of the records. -/
def translationOf : List (List (List Char)) → Except ContextPackStoreError ParsedTranslationCsv
  | [] => .error (.validation "translation CSV requires a header")
  | header :: records =>
    match header with
    | [first, second] => do
      let languageA := trim (first.dropWhile (· = byteOrderMark))
      let languageB := trim second
      validateLanguageCode languageA
      validateLanguageCode languageB
      if eqIgnoreAsciiCase languageA languageB then
        throw (.validation "translation CSV headers must name two different languages")
      let rows ← translationRows 0 [] records
      if rows = [] then throw (.validation "translation CSV contains no term rows")
      return { languageA, languageB, rows }
    | _ => .error (.validation "translation CSV must have exactly two language-code headers")

def parseTranslationCsv (text : List Char) : Except ContextPackStoreError ParsedTranslationCsv :=
  (parseCsvRecords text).bind translationOf

/-! ## A mark before the text -/

/-- The records with a mark in front of their first field. -/
def markFirst : List (List (List Char)) → List (List (List Char))
  | (first :: fields) :: records => ((byteOrderMark :: first) :: fields) :: records
  | records => records

theorem isPlain_mark : isPlain byteOrderMark = true := by decide

section
variable {behind : List Char → Prop}

theorem field_unquoted {text value : List Char} (h : Field behind text value)
    (hquote : text.head? ≠ some '"') : value = text ∧ ∀ c ∈ text, isPlain c = true := by
  cases h with
  | plain h => exact ⟨rfl, h⟩
  | quoted => exact absurd rfl hquote

theorem field_mark {text value : List Char} (h : Field behind text value)
    (hquote : text.head? ≠ some '"') : Field behind (byteOrderMark :: text) (byteOrderMark :: value) := by
  obtain ⟨rfl, hplain⟩ := field_unquoted h hquote
  exact .plain (List.forall_mem_cons.mpr ⟨isPlain_mark, hplain⟩)

theorem field_unmark {text value : List Char} (h : Field behind (byteOrderMark :: text) value) :
    value = byteOrderMark :: text ∧ Field behind text text := by
  have hmark : (byteOrderMark :: text).head? ≠ some '"' := by
    simp [byteOrderMark]
  obtain ⟨hvalue, hplain⟩ := field_unquoted h hmark
  exact ⟨hvalue, .plain (List.forall_mem_cons.mp hplain).2⟩

theorem head_ne_of_append {text rest : List Char} (h : (text ++ rest).head? ≠ some '"') :
    text.head? ≠ some '"' := by
  cases text with
  | nil => simp
  | cons c text => simpa using h

theorem row_mark {text : List Char} {row : List (List Char)} (h : Row behind text row)
    (hquote : text.head? ≠ some '"') :
    ∃ first fields, row = first :: fields ∧
      Row behind (byteOrderMark :: text) ((byteOrderMark :: first) :: fields) := by
  cases h with
  | single field => exact ⟨_, [], rfl, .single (field_mark field hquote)⟩
  | more field row => exact ⟨_, _, rfl, .more (field_mark field (head_ne_of_append hquote)) row⟩

theorem row_unmark {text : List Char} {row : List (List Char)}
    (h : Row behind (byteOrderMark :: text) row) :
    ∃ first fields, row = (byteOrderMark :: first) :: fields ∧ Row behind text (first :: fields) := by
  generalize hmarked : byteOrderMark :: text = marked at h
  cases h with
  | single field =>
    subst hmarked
    obtain ⟨rfl, hfield⟩ := field_unmark field
    exact ⟨text, [], rfl, .single hfield⟩
  | @more before value rest values field row =>
    cases before with
    | nil =>
      have hhead : byteOrderMark = ',' := (List.cons.inj hmarked).1
      exact absurd hhead (by decide)
    | cons c before =>
      obtain ⟨rfl, rfl⟩ := List.cons.inj hmarked
      obtain ⟨rfl, hfield⟩ := field_unmark field
      exact ⟨before, values, rfl, .more hfield row⟩

theorem document_mark {text : List Char} {rows : List (List (List Char))}
    (h : Document behind text rows) (hne : text ≠ []) (hquote : text.head? ≠ some '"') :
    Document behind (byteOrderMark :: text) (markFirst rows) := by
  cases h with
  | empty => exact absurd rfl hne
  | last hne h =>
    obtain ⟨first, fields, rfl, hrow⟩ := row_mark h hquote
    exact .last (by simp) hrow
  | ended h hstop hrest =>
    obtain ⟨first, fields, rfl, hrow⟩ := row_mark h (head_ne_of_append hquote)
    exact .ended hrow hstop hrest

theorem document_unmark {text : List Char} {rows : List (List (List Char))}
    (h : Document behind (byteOrderMark :: text) rows) (hne : text ≠ []) :
    ∃ unmarked, Document behind text unmarked ∧ rows = markFirst unmarked := by
  generalize hmarked : byteOrderMark :: text = marked at h
  cases h with
  | empty => cases hmarked
  | last _ h =>
    subst hmarked
    obtain ⟨first, fields, rfl, hrow⟩ := row_unmark h
    exact ⟨[first :: fields], .last hne hrow, rfl⟩
  | @ended before stop rest row rows h hstop hrest =>
    cases before with
    | nil =>
      have hbreak : byteOrderMark = '\n' ∨ byteOrderMark = '\r' := by
        cases hstop with
        | lf => exact .inl (List.cons.inj hmarked).1
        | crlf => exact .inr (List.cons.inj hmarked).1
        | cr => exact .inr (List.cons.inj hmarked).1
      exact absurd hbreak (by decide)
    | cons c before =>
      obtain ⟨rfl, rfl⟩ := List.cons.inj hmarked
      obtain ⟨first, fields, rfl, hrow⟩ := row_unmark h
      exact ⟨(first :: fields) :: rows, .ended hrow hstop hrest, rfl⟩

end

/-- The mark is taken off the first header. -/
theorem translationOf_markFirst (records : List (List (List Char))) :
    translationOf (markFirst records) = translationOf records := by
  match records with
  | [] => rfl
  | [] :: _ => rfl
  | [_] :: _ => rfl
  | [first, second] :: records =>
    have hdrop : (byteOrderMark :: first).dropWhile (· = byteOrderMark) =
        first.dropWhile (· = byteOrderMark) := by
      simp
    simp only [markFirst, translationOf, hdrop]
  | (_ :: _ :: _ :: _) :: _ => rfl

/-! ## What the reader does by the grammar -/

/-- The text is read as the records it is a rendering of, and only then. -/
def ReadByGrammar (text : List Char) : Prop :=
  ∀ records, parseCsvRecords text = .ok records ↔ Rfc4180 text records

/-- With a mark before it the text is accepted for the same table, or refused as well. -/
def MarkChangesNothing (text : List Char) : Prop :=
  (parseTranslationCsv (byteOrderMark :: text)).toOption = (parseTranslationCsv text).toOption

/-- Only the text behind some closing quote keeps this from being a rendering. -/
def TextBehindQuote (text : List Char) : Prop :=
  (∃ records, Loose text records) ∧ ¬ ∃ records, Rfc4180 text records

/-- A translation table whose first header is quoted. -/
def QuotedHeader (text : List Char) : Prop :=
  text.head? = some '"' ∧ ∃ records table, Loose text records ∧ translationOf records = .ok table

theorem parse_of_rfc4180 {text : List Char} {records : List (List (List Char))}
    (h : Rfc4180 text records) : parseCsvRecords text = .ok records :=
  parse_iff_loose.mpr h.loose

theorem readByGrammar_iff (text : List Char) : ReadByGrammar text ↔ ¬ TextBehindQuote text := by
  constructor
  · rintro h ⟨⟨records, hloose⟩, hnot⟩
    exact hnot ⟨records, (h records).mp (parse_iff_loose.mpr hloose)⟩
  · intro h records
    refine ⟨fun hparse => ?_, parse_of_rfc4180⟩
    by_contra hnot
    apply h
    refine ⟨⟨records, parse_iff_loose.mp hparse⟩, ?_⟩
    rintro ⟨rendered, hrendered⟩
    -- one text is read in one way only
    have hsame := parse_of_rfc4180 hrendered
    rw [hparse] at hsame
    cases hsame
    exact hnot hrendered

theorem parseTranslationCsv_eq_ok {text : List Char} {table : ParsedTranslationCsv} :
    parseTranslationCsv text = .ok table ↔
      ∃ records, Loose text records ∧ translationOf records = .ok table := by
  simp only [← parse_iff_loose, parseTranslationCsv]
  cases parseCsvRecords text <;> simp [Except.bind]

theorem toOption_eq_none {ε α : Type} {x : Except ε α} : x.toOption = none ↔ ∀ a, x ≠ .ok a := by
  cases x <;> simp [Except.toOption]

/-- A quoted header behind a mark is a quote inside an unquoted field. -/
theorem parse_marked_quote (text : List Char) :
    parseTranslationCsv (byteOrderMark :: '"' :: text) = .error quoteInsideUnquoted := by
  have hscan : scanCsv (byteOrderMark :: '"' :: text) ⟨[], [], [], false, false⟩ =
      .error quoteInsideUnquoted := by
    rw [scan_plain_cons isPlain_mark, scan_misplaced _ (by simp)]
  simp only [parseTranslationCsv, parseCsvRecords, hscan, Except.bind]

theorem parse_marked {text : List Char} (hne : text ≠ []) (hquote : text.head? ≠ some '"') :
    MarkChangesNothing text := by
  rw [MarkChangesNothing]
  apply Option.ext
  intro table
  have hok : ∀ text, (parseTranslationCsv text).toOption = some table ↔
      ∃ records, Loose text records ∧ translationOf records = .ok table := by
    intro text
    rw [← parseTranslationCsv_eq_ok]
    cases parseTranslationCsv text <;> simp [Except.toOption]
  rw [hok, hok]
  constructor
  · rintro ⟨records, hloose, htable⟩
    obtain ⟨unmarked, hunmarked, rfl⟩ := document_unmark hloose hne
    exact ⟨unmarked, hunmarked, by rw [← translationOf_markFirst, htable]⟩
  · rintro ⟨records, hloose, htable⟩
    exact ⟨_, document_mark hloose hne hquote, by rw [translationOf_markFirst, htable]⟩

theorem markChangesNothing_iff (text : List Char) :
    MarkChangesNothing text ↔ ¬ QuotedHeader text := by
  by_cases hne : text = []
  · subst hne
    refine ⟨?_, fun _ => by rfl⟩
    rintro - ⟨hquote, -⟩
    cases hquote
  · by_cases hquote : text.head? = some '"'
    · obtain ⟨rest, rfl⟩ := List.head?_eq_some_iff.mp hquote
      rw [MarkChangesNothing, parse_marked_quote, QuotedHeader]
      constructor
      · rintro hsame ⟨-, records, table, hloose, htable⟩
        rw [parseTranslationCsv_eq_ok.mpr ⟨records, hloose, htable⟩] at hsame
        cases hsame
      · intro hnot
        symm
        rw [show (Except.error quoteInsideUnquoted :
          Except ContextPackStoreError ParsedTranslationCsv).toOption = none from rfl, toOption_eq_none]
        intro table hok
        obtain ⟨records, hloose, htable⟩ := parseTranslationCsv_eq_ok.mp hok
        exact hnot ⟨rfl, records, table, hloose, htable⟩
    · exact ⟨fun _ hheader => hquote hheader.1, fun _ => parse_marked hne hquote⟩

/-- **Every rendering is read back.** The reader keeps to the grammar, and a mark before the
text changes nothing, exactly unless text stands behind a closing quote or the first header of
a table is quoted. -/
theorem csv_by_grammar_iff (text : List Char) :
    (∀ records, Rfc4180 text records → parseCsvRecords text = .ok records) ∧
      (ReadByGrammar text ∧ MarkChangesNothing text ↔
        ¬ TextBehindQuote text ∧ ¬ QuotedHeader text) := by
  rw [readByGrammar_iff, markChangesNothing_iff]
  exact ⟨fun _ => parse_of_rfc4180, Iff.rfl⟩

/-! ## A text behind a quote, and a quoted header -/

/-- `"ab"c` is no field. -/
theorem not_rfc4180_behind (records : List (List (List Char))) :
    ¬ Rfc4180 ['"', 'a', 'b', '"', 'c'] records := by
  intro h
  generalize htext : ['"', 'a', 'b', '"', 'c'] = text at h
  cases h with
  | empty => cases htext
  | last hne h =>
    cases h with
    | single field =>
      cases field with
      | plain h =>
        rw [← htext] at h
        exact absurd (h '"' (by simp)) (by decide)
      | @quoted value rest hbehind h =>
        obtain rfl : rest = [] := hbehind
        have hlast := congrArg List.getLast? htext
        rw [← List.cons_append, List.getLast?_append_cons] at hlast
        exact absurd hlast (by decide)
    | @more before value rest values field row =>
      have hcomma : ',' ∈ ['"', 'a', 'b', '"', 'c'] := by
        rw [htext]
        simp
      exact absurd hcomma (by decide)
  | @ended before stop rest row rows h hstop hrest =>
    have hbreak : '\n' ∈ ['"', 'a', 'b', '"', 'c'] ∨ '\r' ∈ ['"', 'a', 'b', '"', 'c'] := by
      rw [htext]
      cases hstop <;> simp
    exact absurd hbreak (by decide)

/-- `"ab"c` is read as `abc`, and a mark has a table with a quoted header refused. -/
theorem csv_leaves_grammar :
    (parseCsvRecords "\"ab\"c".toList = .ok [["abc".toList]] ∧
      ¬ ReadByGrammar "\"ab\"c".toList) ∧
    (parseTranslationCsv "\"en\",zh\na,b".toList =
        .ok ⟨"en".toList, "zh".toList, [("a".toList, "b".toList)]⟩ ∧
      parseTranslationCsv (byteOrderMark :: "\"en\",zh\na,b".toList) = .error quoteInsideUnquoted ∧
      ¬ MarkChangesNothing "\"en\",zh\na,b".toList) := by
  have hread : parseCsvRecords "\"ab\"c".toList = .ok [["abc".toList]] := by decide +kernel
  have htable : parseTranslationCsv "\"en\",zh\na,b".toList =
      .ok ⟨"en".toList, "zh".toList, [("a".toList, "b".toList)]⟩ := by decide +kernel
  have hmarked : parseTranslationCsv (byteOrderMark :: "\"en\",zh\na,b".toList) =
      .error quoteInsideUnquoted := by decide +kernel
  refine ⟨⟨hread, fun h => ?_⟩, htable, hmarked, fun h => ?_⟩
  · exact not_rfc4180_behind _ ((h _).mp hread)
  · rw [MarkChangesNothing, htable, hmarked] at h
    cases h

end Zulangue.Context
