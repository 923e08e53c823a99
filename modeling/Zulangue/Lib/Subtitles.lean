import Mathlib.Data.List.Infix
import Mathlib.Data.List.TakeWhile

/-!
# Subtitle files

SRT and WebVTT by their rules. Line feed, carriage return and both together break lines. A cue
is a timing line and the payload lines under it, up to an empty line; in SRT a number comes
before it, in WebVTT a line with an arrow ends it too.
-/

namespace Zulangue.Lib.Subtitles

abbrev Line := List Char

structure Cue where
  startMs : Nat
  endMs : Nat
  text : List Char
  deriving DecidableEq, Repr

/-! ## Lines -/

/-- Every break becomes a line feed. -/
def normalizeBreaks : List Char → List Char
  | [] => []
  | c :: rest =>
    if c = '\r' then
      match rest with
      | '\n' :: rest => '\n' :: normalizeBreaks rest
      | rest => '\n' :: normalizeBreaks rest
    else c :: normalizeBreaks rest

def lines (text : List Char) : List Line := (normalizeBreaks text).splitOn '\n'

def joinLines (lines : List Line) : List Char := ['\n'].intercalate lines

theorem normalizeBreaks_cons {c : Char} (h : c ≠ '\r') (rest : List Char) :
    normalizeBreaks (c :: rest) = c :: normalizeBreaks rest := by
  conv_lhs => unfold normalizeBreaks
  rw [if_neg h]

theorem normalizeBreaks_append {text : List Char} (h : '\r' ∉ text) (rest : List Char) :
    normalizeBreaks (text ++ rest) = text ++ normalizeBreaks rest := by
  induction text with
  | nil => rfl
  | cons c text ih =>
    rw [List.mem_cons, not_or] at h
    rw [List.cons_append, normalizeBreaks_cons (Ne.symm h.1), ih h.2, List.cons_append]

theorem return_notMem_normalizeBreaks (text : List Char) : '\r' ∉ normalizeBreaks text := by
  induction hlength : text.length using Nat.strongRecOn generalizing text with
  | ind length ih =>
    cases text with
    | nil => simp [normalizeBreaks]
    | cons c rest =>
      rw [List.length_cons] at hlength
      by_cases hc : c = '\r'
      · unfold normalizeBreaks
        rw [if_pos hc]
        split
        · next rest =>
          rw [List.length_cons] at hlength
          simpa using ih rest.length (by omega) rest rfl
        · simpa using ih rest.length (by omega) rest rfl
      · rw [normalizeBreaks_cons hc, List.mem_cons, not_or]
        exact ⟨Ne.symm hc, ih rest.length (by omega) rest rfl⟩

theorem mem_joinLines {ls : List Line} {c : Char} (h : c ∈ joinLines ls) :
    c = '\n' ∨ ∃ line ∈ ls, c ∈ line := by
  induction ls with
  | nil => cases h
  | cons line ls ih =>
    by_cases hls : ls = []
    · subst hls
      exact .inr ⟨line, List.mem_cons_self, by simpa [joinLines] using h⟩
    · rw [joinLines, List.intercalate_cons_of_ne_nil hls, List.mem_append, List.mem_append] at h
      rcases h with (h | h) | h
      · exact .inr ⟨line, List.mem_cons_self, h⟩
      · exact .inl (List.mem_singleton.mp h)
      · rcases ih h with h | ⟨other, hother, hc⟩
        · exact .inl h
        · exact .inr ⟨other, List.mem_cons_of_mem line hother, hc⟩

theorem mem_of_mem_line {ls : List Line} {line : Line} {c : Char} (hline : line ∈ ls) (hc : c ∈ line) :
    c ∈ joinLines ls := by
  induction ls with
  | nil => cases hline
  | cons first ls ih =>
    by_cases hls : ls = []
    · subst hls
      simp only [List.mem_singleton] at hline
      simpa [joinLines, ← hline] using hc
    · rw [joinLines, List.intercalate_cons_of_ne_nil hls, List.mem_append, List.mem_append]
      rcases List.mem_cons.mp hline with rfl | hline
      · exact .inl (.inl hc)
      · exact .inr (ih hline)

theorem joinLines_splitOn (text : List Char) : joinLines (text.splitOn '\n') = text :=
  List.intercalate_splitOn '\n'

theorem return_notMem_line {text : List Char} {line : Line} (h : line ∈ lines text) : '\r' ∉ line := by
  intro hc
  have hmem := mem_of_mem_line h hc
  rw [lines, joinLines_splitOn] at hmem
  exact return_notMem_normalizeBreaks text hmem

theorem lines_append {before : List Char} (h : '\r' ∉ before) (rest : List Char) :
    lines (before ++ '\n' :: rest) = before.splitOn '\n' ++ lines rest := by
  have hrest : normalizeBreaks ('\n' :: rest) = '\n' :: normalizeBreaks rest :=
    normalizeBreaks_cons (by decide) rest
  rw [lines, normalizeBreaks_append h, hrest, List.splitOn_append_cons_self, lines]

/-- A line without a break, and the lines under it. -/
theorem lines_cons {line : Line} (hreturn : '\r' ∉ line) (hfeed : '\n' ∉ line) (rest : List Char) :
    lines (line ++ '\n' :: rest) = line :: lines rest := by
  rw [lines_append hreturn, List.splitOn_eq_singleton hfeed, List.singleton_append]

theorem lines_blank (rest : List Char) : lines ('\n' :: rest) = [] :: lines rest :=
  @lines_cons [] (by simp) (by simp) rest

/-! ## Payloads -/

section
variable (stops : Line → Bool)

/-- What is read of a text with an empty line under it: its lines up to one that stops. -/
def payload (ls : List Line) : List Char := joinLines (ls.takeWhile fun line => !stops line)

/-- A text that is read whole: it has no carriage return, and is empty or has no line that
stops. -/
def Kept (text : List Char) : Prop :=
  '\r' ∉ text ∧ (text = [] ∨ ∀ line ∈ text.splitOn '\n', stops line = false)

variable {stops}

theorem splitOn_join {ls : List Line} (hne : ls ≠ []) (h : ∀ line ∈ ls, '\n' ∉ line) :
    (joinLines ls).splitOn '\n' = ls :=
  List.splitOn_intercalate '\n' h hne

theorem feed_notMem_splitOn (text : List Char) : ∀ line ∈ text.splitOn '\n', '\n' ∉ line := by
  induction text with
  | nil => simp
  | cons c text ih =>
    rw [List.splitOn_cons_eq_if_modifyHead]
    split
    · exact List.forall_mem_cons.mpr ⟨by simp, ih⟩
    · next hc =>
      have hne : '\n' ≠ c := fun heq => hc (by simp [← heq])
      cases hsplit : text.splitOn '\n' with
      | nil => simp
      | cons first rest =>
        rw [hsplit, List.forall_mem_cons] at ih
        rw [List.modifyHead_cons, List.forall_mem_cons]
        exact ⟨by simpa [hne] using ih.1, ih.2⟩

theorem lines_payload {text : List Char} (h : '\r' ∉ text) (rest : List Char) :
    lines (text ++ '\n' :: '\n' :: rest) = text.splitOn '\n' ++ [] :: lines rest := by
  rw [lines_append h, lines_blank]

/-- The payload is the text exactly if the text is kept. -/
theorem payload_eq_iff (hblank : stops [] = true) (text rest : List Char) :
    payload stops (lines (text ++ '\n' :: '\n' :: rest)) = text ↔ Kept stops text := by
  by_cases hreturn : '\r' ∈ text
  · -- no line that was read has a carriage return in it
    constructor
    · intro heq
      exfalso
      rw [← heq] at hreturn
      rcases mem_joinLines hreturn with hbreak | ⟨line, hline, hc⟩
      · exact absurd hbreak (by decide)
      · exact return_notMem_line ((List.takeWhile_sublist _).subset hline) hc
    · rintro ⟨hnot, -⟩
      exact absurd hreturn hnot
  rw [lines_payload hreturn, payload]
  by_cases hempty : text = []
  · subst hempty
    simp [hblank, joinLines, Kept]
  by_cases hstop : ∀ line ∈ text.splitOn '\n', stops line = false
  · have hall : ∀ line ∈ text.splitOn '\n', (fun line => !stops line) line = true := by
      intro line hline
      simp [hstop line hline]
    rw [List.takeWhile_append_of_pos hall, List.takeWhile_cons_of_neg (by simp [hblank]),
      List.append_nil, joinLines_splitOn]
    exact ⟨fun _ => ⟨hreturn, .inr hstop⟩, fun _ => rfl⟩
  · -- what is read is a proper part of the lines
    have hpart : ((text.splitOn '\n' ++ [] :: lines rest).takeWhile fun line => !stops line) ≠
        text.splitOn '\n' := by
      intro heq
      apply hstop
      intro line hline
      rw [← heq] at hline
      simpa using List.mem_takeWhile_imp hline
    have hprefix : (text.splitOn '\n' ++ [] :: lines rest).takeWhile (fun line => !stops line) <+:
        text.splitOn '\n' := by
      rw [List.takeWhile_append]
      split
      · next hlength =>
        rw [List.takeWhile_cons_of_neg (by simp [hblank])]
        simp
      · exact List.takeWhile_prefix _
    constructor
    · intro heq
      exfalso
      apply hpart
      by_cases hnil : (text.splitOn '\n' ++ [] :: lines rest).takeWhile (fun line => !stops line) = []
      · rw [hnil] at heq
        exact absurd heq.symm hempty
      · have hsplit := splitOn_join hnil fun line hline =>
          feed_notMem_splitOn text line (List.IsPrefix.subset hprefix hline)
        rw [heq] at hsplit
        exact hsplit.symm
    · rintro ⟨-, hnil | hall⟩
      · exact absurd hnil hempty
      · exact absurd hall hstop

/-- Under a payload that is kept there are blank lines, then what follows. -/
theorem rest_of_kept (hblank : stops [] = true) {text : List Char} (h : Kept stops text)
    (rest : List Char) : ∃ blanks : List Line, (∀ line ∈ blanks, line = []) ∧
      (lines (text ++ '\n' :: '\n' :: rest)).dropWhile (fun line => !stops line) =
        blanks ++ lines rest := by
  obtain ⟨hreturn, hkept⟩ := h
  rw [lines_payload hreturn]
  rcases hkept with rfl | hkept
  · exact ⟨[[], []], by simp, by simp [hblank]⟩
  · have hall : ∀ line ∈ text.splitOn '\n', (fun line => !stops line) line = true := by
      intro line hline
      simp [hkept line hline]
    refine ⟨[[]], by simp, ?_⟩
    rw [List.dropWhile_append_of_pos hall, List.dropWhile_cons_of_neg (by simp [hblank])]
    rfl

end

/-! ## Time stamps -/

def number (digits : List Char) : Option Nat :=
  if digits ≠ [] ∧ digits.all Char.isDigit then some (Nat.ofDigitChars 10 digits 0) else none

/-- `hours:minutes:seconds` and milliseconds behind `mark`. -/
def timestamp (mark : Char) (text : List Char) : Option Nat :=
  match text.splitOn ':' with
  | [hours, minutes, rest] =>
    match rest.splitOn mark with
    | [seconds, millis] => do
      let h ← number hours
      let m ← number minutes
      let s ← number seconds
      let ms ← number millis
      if 2 ≤ hours.length ∧ minutes.length = 2 ∧ m < 60 ∧ seconds.length = 2 ∧ s < 60 ∧
          millis.length = 3 then
        return h * 3600000 + m * 60000 + s * 1000 + ms
      else none
    | _ => none
  | _ => none

def arrow : List Char := ['-', '-', '>']

/-- The times of a timing line; settings may stand behind them. -/
def timing (mark : Char) (line : Line) : Option (Nat × Nat) :=
  match line.splitOn ' ' with
  | start :: mid :: stop :: _ =>
    if mid = arrow then do
      let startMs ← timestamp mark start
      let endMs ← timestamp mark stop
      return (startMs, endMs)
    else none
  | _ => none

/-! ## WebVTT -/

def hasArrow (line : Line) : Bool := decide (arrow <:+: line)

/-- A cue that is being read. -/
structure OpenCue where
  startMs : Nat
  endMs : Nat
  payload : List Line

def OpenCue.close (cue : OpenCue) : Cue := ⟨cue.startMs, cue.endMs, joinLines cue.payload⟩

def vttCues : Option OpenCue → List Line → List Cue
  | current, [] => (current.map OpenCue.close).toList
  | current, line :: rest =>
    if line = [] then (current.map OpenCue.close).toList ++ vttCues none rest
    else if hasArrow line then
      (current.map OpenCue.close).toList ++
        vttCues ((timing '.' line).map fun times => ⟨times.1, times.2, []⟩) rest
    else vttCues (current.map fun cue => { cue with payload := cue.payload ++ [line] }) rest

/-- The cues of a file, behind its header block. -/
def parseVtt (text : List Char) : Option (List Cue) :=
  match lines text with
  | [] => none
  | header :: rest =>
    if header = "WEBVTT".toList then some (vttCues none (rest.dropWhile (· ≠ []))) else none

/-- An empty line and a line with an arrow end a payload. -/
def vttStops (line : Line) : Bool := line = [] || hasArrow line

theorem vttCues_open (cue : OpenCue) (ls : List Line) :
    vttCues (some cue) ls =
      ⟨cue.startMs, cue.endMs, joinLines (cue.payload ++ ls.takeWhile fun line => !vttStops line)⟩ ::
        vttCues none (ls.dropWhile fun line => !vttStops line) := by
  induction ls generalizing cue with
  | nil => simp [vttCues, OpenCue.close]
  | cons line ls ih =>
    by_cases hline : line = []
    · simp [vttCues, vttStops, hline, OpenCue.close]
    · by_cases harrow : hasArrow line = true
      · simp [vttCues, vttStops, hline, harrow, OpenCue.close]
      · simp [vttCues, vttStops, hline, harrow, ih]

theorem vttCues_blanks {blanks : List Line} (h : ∀ line ∈ blanks, line = []) (ls : List Line) :
    vttCues none (blanks ++ ls) = vttCues none ls := by
  induction blanks with
  | nil => rfl
  | cons line blanks ih =>
    rw [List.forall_mem_cons] at h
    simp [vttCues, h.1, ih h.2]

/-! ## SRT -/

inductive SrtState where
  | between
  | numbered (n : Nat)
  | inCue (n : Nat) (cue : OpenCue)
  | skipping

/-- A number, a timing line and a payload, up to an empty line. Other blocks are skipped. -/
def srtCues : SrtState → List Line → List (Nat × Cue)
  | .inCue n cue, [] => [(n, cue.close)]
  | .between, [] => []
  | .numbered _, [] => []
  | .skipping, [] => []
  | .between, line :: rest =>
    if line = [] then srtCues .between rest
    else
      match number line with
      | some n => srtCues (.numbered n) rest
      | none => srtCues .skipping rest
  | .numbered n, line :: rest =>
    if line = [] then srtCues .between rest
    else
      match timing ',' line with
      | some times => srtCues (.inCue n ⟨times.1, times.2, []⟩) rest
      | none => srtCues .skipping rest
  | .inCue n cue, line :: rest =>
    if line = [] then (n, cue.close) :: srtCues .between rest
    else srtCues (.inCue n { cue with payload := cue.payload ++ [line] }) rest
  | .skipping, line :: rest =>
    if line = [] then srtCues .between rest else srtCues .skipping rest

def parseSrt (text : List Char) : List (Nat × Cue) := srtCues .between (lines text)

/-- Only an empty line ends a payload. -/
def srtStops (line : Line) : Bool := line = []

theorem srtCues_open (n : Nat) (cue : OpenCue) (ls : List Line) :
    srtCues (.inCue n cue) ls =
      (n, ⟨cue.startMs, cue.endMs, joinLines (cue.payload ++ ls.takeWhile fun line => !srtStops line)⟩) ::
        srtCues .between (ls.dropWhile fun line => !srtStops line) := by
  induction ls generalizing cue with
  | nil => simp [srtCues, OpenCue.close]
  | cons line ls ih =>
    by_cases hline : line = []
    · simp [srtCues, srtStops, hline, OpenCue.close]
    · simp [srtCues, srtStops, hline, ih]

theorem srtCues_blanks {blanks : List Line} (h : ∀ line ∈ blanks, line = []) (ls : List Line) :
    srtCues .between (blanks ++ ls) = srtCues .between ls := by
  induction blanks with
  | nil => rfl
  | cons line blanks ih =>
    rw [List.forall_mem_cons] at h
    simp [srtCues, h.1, ih h.2]

end Zulangue.Lib.Subtitles
