import Mathlib.Algebra.GroupWithZero.Nat
import Zulangue.Lib.Subtitles

/-!
# Subtitle exports

`export_srt` and `export_vtt` of `vt-export/src/formats.rs`, with the data all formats are
written from. Texts are lists of characters. What a player reads back is compared with the
cues that were written.
-/

namespace Zulangue.Export

open Zulangue.Lib.Subtitles

abbrev Text := List Char

structure ExportToken where
  text : Text
  startMs : Nat
  endMs : Nat
  deriving DecidableEq, Repr

structure ExportLanguageVariant where
  language : Text
  text : Text
  deriving DecidableEq, Repr

structure ExportUtterance where
  sourceLanguage : Text
  sourceText : Text
  sourceStartMs : Option Nat
  sourceEndMs : Option Nat
  translatedLanguage : Option Text
  translatedText : Option Text
  languageVariants : List ExportLanguageVariant
  deriving DecidableEq, Repr

inductive ExportTranscript where
  | asyncTokens (tokens : List ExportToken)
  | notebookCapture (leftLanguage : Text) (rightLanguage : Option Text)
    (utterances : List ExportUtterance)
  | notebookCaptureLanguageColumns (languageColumns : List Text)
    (commonCaptionLanguage : Option Text) (utterances : List ExportUtterance)
  deriving DecidableEq, Repr

structure ExportData where
  title : Text
  transcript : ExportTranscript
  summary : Option Text
  deriving DecidableEq, Repr

inductive ExportError where
  | failed (why : Text)
  deriving DecidableEq, Repr

/-- A number in at least `width` digits. -/
def padded (width n : Nat) : Text :=
  let digits := Nat.toDigits 10 n
  List.replicate (width - digits.length) '0' ++ digits

def formatTime (mark : Char) (ms : Nat) : Text :=
  let hours := ms / 3600000
  let minutes := ms % 3600000 / 60000
  let seconds := ms % 60000 / 1000
  let millis := ms % 1000
  padded 2 hours ++ ':' :: (padded 2 minutes ++ ':' :: (padded 2 seconds ++ mark :: padded 3 millis))

def formatTimeSrt (ms : Nat) : Text := formatTime ',' ms

def formatTimeVtt (ms : Nat) : Text := formatTime '.' ms

/-- An utterance is shown while its source was spoken. -/
def timedToken (utterance : ExportUtterance) : Option ExportToken :=
  match utterance.sourceStartMs, utterance.sourceEndMs with
  | some startMs, some endMs =>
    if startMs < endMs then some ⟨utterance.sourceText, startMs, endMs⟩ else none
  | _, _ => none

def subtitleTokens (data : ExportData) : List ExportToken :=
  match data.transcript with
  | .asyncTokens tokens => tokens
  | .notebookCapture _ _ utterances => utterances.filterMap timedToken
  | .notebookCaptureLanguageColumns _ _ utterances => utterances.filterMap timedToken

/-- The timing line and the text of a cue, with an empty line under it. -/
def cueBlock (start stop : Text) (token : ExportToken) : Text :=
  (start ++ " --> ".toList ++ stop) ++ '\n' :: (token.text ++ ['\n', '\n'])

def srtBlock (token : ExportToken) (idx : Nat) : Text :=
  Nat.toDigits 10 idx ++ '\n' :: cueBlock (formatTimeSrt token.startMs) (formatTimeSrt token.endMs) token

def vttBlock (token : ExportToken) : Text :=
  cueBlock (formatTimeVtt token.startMs) (formatTimeVtt token.endMs) token

def exportSrt (data : ExportData) : Except ExportError Text :=
  .ok (((subtitleTokens data).zipIdx 1).flatMap fun numbered => srtBlock numbered.1 numbered.2)

def exportVtt (data : ExportData) : Except ExportError Text :=
  .ok ("WEBVTT\n\n".toList ++ (subtitleTokens data).flatMap vttBlock)

/-! ## Time stamps are read back -/

theorem isDigit_padded {width n : Nat} : ∀ c ∈ padded width n, c.isDigit = true := by
  intro c hc
  rcases List.mem_append.mp hc with hzero | hdigit
  · rw [List.eq_of_mem_replicate hzero]
    decide
  · exact Nat.isDigit_of_mem_toDigits (by decide) (by decide) hdigit

theorem padded_ne_nil (width n : Nat) : padded width n ≠ [] := by
  intro h
  exact Nat.toDigits_ne_nil (List.append_eq_nil_iff.mp h).2

theorem number_digits {digits : List Char} (hne : digits ≠ []) (h : ∀ c ∈ digits, c.isDigit = true) :
    number digits = some (Nat.ofDigitChars 10 digits 0) := by
  rw [number, if_pos ⟨hne, List.all_eq_true.mpr h⟩]

theorem number_padded (width n : Nat) : number (padded width n) = some n := by
  rw [number_digits (padded_ne_nil width n) isDigit_padded, padded, Nat.ofDigitChars_append,
    Nat.ofDigitChars_replicate_zero, Nat.mul_zero, Nat.ofDigitChars_toDigits (by decide) (by decide)]

theorem number_toDigits (n : Nat) : number (Nat.toDigits 10 n) = some n := by
  have hpadded := number_padded 0 n
  rwa [padded, Nat.zero_sub, List.replicate_zero, List.nil_append] at hpadded

theorem length_padded {width n : Nat} (hpos : 0 < width) (h : n < 10 ^ width) :
    (padded width n).length = width := by
  have hle := (Nat.length_toDigits_le_iff (b := 10) (by decide) hpos).mpr h
  simp only [padded, List.length_append, List.length_replicate]
  omega

theorem le_length_padded (width n : Nat) : width ≤ (padded width n).length := by
  simp only [padded, List.length_append, List.length_replicate]
  omega

theorem notMem_padded {width n : Nat} {c : Char} (h : c.isDigit = false) : c ∉ padded width n := by
  intro hc
  rw [isDigit_padded c hc] at h
  cases h

theorem timestamp_formatTime {mark : Char} (hdigit : mark.isDigit = false) (hcolon : mark ≠ ':') (ms : Nat) :
    timestamp mark (formatTime mark ms) = some ms := by
  have hrest : ':' ∉ padded 2 (ms % 60000 / 1000) ++ mark :: padded 3 (ms % 1000) := by
    rw [List.mem_append, List.mem_cons]
    rintro (h | h | h)
    · exact notMem_padded (by decide) h
    · exact hcolon h.symm
    · exact notMem_padded (by decide) h
  have hhours : (formatTime mark ms).splitOn ':' =
      [padded 2 (ms / 3600000), padded 2 (ms % 3600000 / 60000),
        padded 2 (ms % 60000 / 1000) ++ mark :: padded 3 (ms % 1000)] := by
    rw [formatTime, List.splitOn_append_cons_self_of_not_mem (notMem_padded (by decide)),
      List.splitOn_append_cons_self_of_not_mem (notMem_padded (by decide)),
      List.splitOn_eq_singleton hrest]
  have hseconds : (padded 2 (ms % 60000 / 1000) ++ mark :: padded 3 (ms % 1000)).splitOn mark =
      [padded 2 (ms % 60000 / 1000), padded 3 (ms % 1000)] := by
    rw [List.splitOn_append_cons_self_of_not_mem (notMem_padded hdigit),
      List.splitOn_eq_singleton (notMem_padded hdigit)]
  have hwidth := le_length_padded 2 (ms / 3600000)
  have hminutes := @length_padded 2 (ms % 3600000 / 60000) (by decide) (by omega)
  have hsecs := @length_padded 2 (ms % 60000 / 1000) (by decide) (by omega)
  have hmillis := @length_padded 3 (ms % 1000) (by decide) (by omega)
  simp only [timestamp, hhours, hseconds, number_padded, Option.bind_eq_bind, Option.bind_some]
  rw [if_pos ⟨hwidth, hminutes, by omega, hsecs, by omega, hmillis⟩]
  simp only [Option.pure_def, Option.some.injEq]
  omega

theorem mem_formatTime {mark c : Char} {ms : Nat} (h : c ∈ formatTime mark ms) :
    c.isDigit = true ∨ c = ':' ∨ c = mark := by
  simp only [formatTime, List.mem_append, List.mem_cons] at h
  rcases h with h | rfl | h | rfl | h | rfl | h
  · exact .inl (isDigit_padded c h)
  · exact .inr (.inl rfl)
  · exact .inl (isDigit_padded c h)
  · exact .inr (.inl rfl)
  · exact .inl (isDigit_padded c h)
  · exact .inr (.inr rfl)
  · exact .inl (isDigit_padded c h)

/-- A time stamp has no characters that could be mistaken. -/
theorem notMem_formatTime {mark c : Char} {ms : Nat} (hdigit : c.isDigit = false) (hcolon : c ≠ ':')
    (hmark : c ≠ mark) : c ∉ formatTime mark ms := by
  intro h
  rcases mem_formatTime h with h | h | h
  · rw [hdigit] at h
    cases h
  · exact hcolon h
  · exact hmark h

def timingLine (mark : Char) (startMs endMs : Nat) : Line :=
  formatTime mark startMs ++ " --> ".toList ++ formatTime mark endMs

section
variable {mark : Char} (startMs endMs : Nat)

theorem timing_timingLine (hdigit : mark.isDigit = false) (hcolon : mark ≠ ':') (hblank : mark ≠ ' ') :
    timing mark (timingLine mark startMs endMs) = some (startMs, endMs) := by
  have hstart : ' ' ∉ formatTime mark startMs := notMem_formatTime (by decide) (by decide) hblank.symm
  have hend : ' ' ∉ formatTime mark endMs := notMem_formatTime (by decide) (by decide) hblank.symm
  have hsplit : (timingLine mark startMs endMs).splitOn ' ' =
      [formatTime mark startMs, arrow, formatTime mark endMs] := by
    have hline : timingLine mark startMs endMs =
        formatTime mark startMs ++ ' ' :: (arrow ++ ' ' :: formatTime mark endMs) := by
      simp [timingLine, arrow]
    rw [hline, List.splitOn_append_cons_self_of_not_mem hstart,
      List.splitOn_append_cons_self_of_not_mem (by decide), List.splitOn_eq_singleton hend]
  simp only [timing, hsplit, if_true, timestamp_formatTime hdigit hcolon, Option.bind_eq_bind,
    Option.bind_some, Option.pure_def]

theorem notMem_timingLine {c : Char} (hc : c ∉ " --> ".toList) (hd : c.isDigit = false) (hcolon : c ≠ ':')
    (hmark : c ≠ mark) : c ∉ timingLine mark startMs endMs := by
  simp only [timingLine, List.mem_append, not_or]
  exact ⟨⟨notMem_formatTime hd hcolon hmark, hc⟩, notMem_formatTime hd hcolon hmark⟩

theorem timingLine_ne_nil : timingLine mark startMs endMs ≠ [] := by
  simp [timingLine]

theorem hasArrow_timingLine : hasArrow (timingLine mark startMs endMs) = true := by
  simp only [hasArrow, decide_eq_true_eq]
  refine ⟨formatTime mark startMs ++ [' '], ' ' :: formatTime mark endMs, ?_⟩
  simp [timingLine, arrow]

end

def ExportToken.cue (token : ExportToken) : Cue := ⟨token.startMs, token.endMs, token.text⟩

/-! ## WebVTT -/

theorem lines_vttBlock (token : ExportToken) (rest : Text) :
    lines (vttBlock token ++ rest) =
      timingLine '.' token.startMs token.endMs :: lines (token.text ++ '\n' :: '\n' :: rest) := by
  have hblock : vttBlock token ++ rest = timingLine '.' token.startMs token.endMs ++
      '\n' :: (token.text ++ '\n' :: '\n' :: rest) := by
    simp [vttBlock, cueBlock, timingLine, formatTimeVtt]
  rw [hblock, lines_cons]
  · exact notMem_timingLine _ _ (by decide) (by decide) (by decide) (by decide)
  · exact notMem_timingLine _ _ (by decide) (by decide) (by decide) (by decide)

/-- The first cue is read with the payload under its timing line. -/
theorem vttCues_block (token : ExportToken) (rest : Text) :
    vttCues none (lines (vttBlock token ++ rest)) =
      ⟨token.startMs, token.endMs, payload vttStops (lines (token.text ++ '\n' :: '\n' :: rest))⟩ ::
        vttCues none ((lines (token.text ++ '\n' :: '\n' :: rest)).dropWhile fun line => !vttStops line) := by
  have htiming : timing '.' (timingLine '.' token.startMs token.endMs) =
      some (token.startMs, token.endMs) :=
    timing_timingLine _ _ (by decide) (by decide) (by decide)
  rw [lines_vttBlock, vttCues, if_neg (timingLine_ne_nil _ _), if_pos (hasArrow_timingLine _ _), htiming]
  simp [vttCues_open, payload]

theorem vttCues_iff (tokens : List ExportToken) :
    vttCues none (lines (tokens.flatMap vttBlock)) = tokens.map ExportToken.cue ↔
      ∀ token ∈ tokens, Kept vttStops token.text := by
  induction tokens with
  | nil => simp [lines, normalizeBreaks, vttCues]
  | cons token tokens ih =>
    have hhead := @payload_eq_iff vttStops rfl token.text (tokens.flatMap vttBlock)
    rw [List.flatMap_cons, vttCues_block, List.map_cons, List.forall_mem_cons, List.cons.injEq]
    constructor
    · rintro ⟨hcue, hrest⟩
      have hkept := hhead.mp (congrArg Cue.text hcue)
      obtain ⟨blanks, hblanks, hdrop⟩ := @rest_of_kept vttStops rfl _ hkept (tokens.flatMap vttBlock)
      rw [hdrop, vttCues_blanks hblanks] at hrest
      exact ⟨hkept, ih.mp hrest⟩
    · rintro ⟨hkept, hrest⟩
      obtain ⟨blanks, hblanks, hdrop⟩ := @rest_of_kept vttStops rfl _ hkept (tokens.flatMap vttBlock)
      rw [hdrop, vttCues_blanks hblanks]
      exact ⟨by rw [hhead.mpr hkept]; rfl, ih.mpr hrest⟩

theorem parseVtt_iff (tokens : List ExportToken) :
    parseVtt ("WEBVTT\n\n".toList ++ tokens.flatMap vttBlock) = some (tokens.map ExportToken.cue) ↔
      ∀ token ∈ tokens, Kept vttStops token.text := by
  have hlines : lines ("WEBVTT\n\n".toList ++ tokens.flatMap vttBlock) =
      "WEBVTT".toList :: [] :: lines (tokens.flatMap vttBlock) := by
    have hheader : "WEBVTT\n\n".toList ++ tokens.flatMap vttBlock =
        "WEBVTT".toList ++ '\n' :: '\n' :: tokens.flatMap vttBlock := by
      simp
    rw [hheader, lines_cons (by decide) (by decide), lines_blank]
  rw [← vttCues_iff, parseVtt, hlines]
  simp [vttCues]

/-! ## SRT -/

theorem lines_srtBlock (token : ExportToken) (idx : Nat) (rest : Text) :
    lines (srtBlock token idx ++ rest) =
      Nat.toDigits 10 idx :: timingLine ',' token.startMs token.endMs ::
        lines (token.text ++ '\n' :: '\n' :: rest) := by
  have hblock : srtBlock token idx ++ rest = Nat.toDigits 10 idx ++ '\n' ::
      (timingLine ',' token.startMs token.endMs ++ '\n' :: (token.text ++ '\n' :: '\n' :: rest)) := by
    simp [srtBlock, cueBlock, timingLine, formatTimeSrt]
  have hdigits : ∀ c ∈ Nat.toDigits 10 idx, c.isDigit = true := fun c hc =>
    Nat.isDigit_of_mem_toDigits (by decide) (by decide) hc
  rw [hblock, lines_cons, lines_cons]
  · exact notMem_timingLine _ _ (by decide) (by decide) (by decide) (by decide)
  · exact notMem_timingLine _ _ (by decide) (by decide) (by decide) (by decide)
  · intro h
    exact absurd (hdigits _ h) (by decide)
  · intro h
    exact absurd (hdigits _ h) (by decide)

theorem srtCues_block (token : ExportToken) (idx : Nat) (rest : Text) :
    srtCues .between (lines (srtBlock token idx ++ rest)) =
      (idx, ⟨token.startMs, token.endMs,
          payload srtStops (lines (token.text ++ '\n' :: '\n' :: rest))⟩) ::
        srtCues .between ((lines (token.text ++ '\n' :: '\n' :: rest)).dropWhile fun line => !srtStops line) := by
  have htiming : timing ',' (timingLine ',' token.startMs token.endMs) =
      some (token.startMs, token.endMs) :=
    timing_timingLine _ _ (by decide) (by decide) (by decide)
  rw [lines_srtBlock, srtCues, if_neg Nat.toDigits_ne_nil]
  simp only [number_toDigits]
  rw [srtCues, if_neg (timingLine_ne_nil _ _), htiming]
  simp [srtCues_open, payload]

/-- Cues under the numbers they are written with. -/
def numberedCues (tokens : List ExportToken) (first : Nat) : List (Nat × Cue) :=
  (tokens.zipIdx first).map fun numbered => (numbered.2, numbered.1.cue)

theorem parseSrt_iff (tokens : List ExportToken) (first : Nat) :
    parseSrt ((tokens.zipIdx first).flatMap fun numbered => srtBlock numbered.1 numbered.2) =
        numberedCues tokens first ↔
      ∀ token ∈ tokens, Kept srtStops token.text := by
  induction tokens generalizing first with
  | nil => simp [parseSrt, lines, normalizeBreaks, srtCues, numberedCues]
  | cons token tokens ih =>
    have hnext := ih (first + 1)
    rw [parseSrt, numberedCues] at hnext
    rw [parseSrt, numberedCues, List.zipIdx_cons, List.flatMap_cons, srtCues_block, List.map_cons,
      List.forall_mem_cons, List.cons.injEq]
    generalize (tokens.zipIdx (first + 1)).flatMap (fun numbered => srtBlock numbered.1 numbered.2) =
      rest at hnext ⊢
    have hhead := @payload_eq_iff srtStops rfl token.text rest
    constructor
    · rintro ⟨hcue, hrest⟩
      have hkept := hhead.mp (congrArg (fun numbered => numbered.2.text) hcue)
      obtain ⟨blanks, hblanks, hdrop⟩ := @rest_of_kept srtStops rfl _ hkept rest
      rw [hdrop, srtCues_blanks hblanks] at hrest
      exact ⟨hkept, hnext.mp hrest⟩
    · rintro ⟨hkept, hrest⟩
      obtain ⟨blanks, hblanks, hdrop⟩ := @rest_of_kept srtStops rfl _ hkept rest
      rw [hdrop, srtCues_blanks hblanks]
      exact ⟨by rw [hhead.mpr hkept]; rfl, hnext.mpr hrest⟩

/-! ## Both formats -/

/-- **Subtitles parse back to their cues** exactly if every cue text is kept: no carriage return,
and empty or without empty lines; in WebVTT without an arrow as well. -/
theorem subtitles_parse_back_iff (data : ExportData) :
    ((exportSrt data).map parseSrt = .ok (numberedCues (subtitleTokens data) 1) ↔
      ∀ token ∈ subtitleTokens data, Kept srtStops token.text) ∧
    ((exportVtt data).map parseVtt = .ok (some ((subtitleTokens data).map ExportToken.cue)) ↔
      ∀ token ∈ subtitleTokens data, Kept vttStops token.text) := by
  simp only [exportSrt, exportVtt, Except.map, Except.ok.injEq]
  exact ⟨parseSrt_iff (subtitleTokens data) 1, parseVtt_iff (subtitleTokens data)⟩

/-- Two paragraphs in one cue. -/
def paragraphs : ExportData where
  title := []
  transcript := .asyncTokens [⟨"a\n\nb".toList, 0, 1000⟩]
  summary := none

/-- Of two paragraphs the second is lost. -/
theorem paragraphs_are_cut :
    (exportSrt paragraphs).map parseSrt = .ok [(1, ⟨0, 1000, "a".toList⟩)] ∧
    (exportSrt paragraphs).map parseSrt ≠ .ok (numberedCues (subtitleTokens paragraphs) 1) ∧
    (exportVtt paragraphs).map parseVtt = .ok (some [⟨0, 1000, "a".toList⟩]) ∧
    (exportVtt paragraphs).map parseVtt ≠
      .ok (some ((subtitleTokens paragraphs).map ExportToken.cue)) := by
  decide +kernel

end Zulangue.Export
