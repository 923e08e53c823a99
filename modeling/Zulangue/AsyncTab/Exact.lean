import Zulangue.AsyncTab.Marked

/-!
# What a projection marks

A projection writes the section of its session and leaves the rest alone. The text it inserts takes over the
segment of the character in front of it, so the new section is marked exactly only where that one has none.
-/

namespace Zulangue.AsyncTab.Marked

open Zulangue.Lib.Spans

/-- The document around the section of the session; without one, all of it comes before. -/
structure Around (session : String) (before own after : List Glyph) : Prop where
  unmarkedBefore : ∀ glyph ∈ before, glyph.ofSession session = false
  marked : ∀ glyph ∈ own, glyph.ofSession session = true
  unmarkedAfter : ∀ glyph ∈ after, glyph.ofSession session = false
  last : own = [] → after = []

/-- The marks of a segment that a character carries. -/
def Glyph.segment (glyph : Glyph) : Option MarkValue × Option MarkValue :=
  (glyph.marks "segment_id", glyph.marks "timestamp_ms")

def Segment.marks (segment : Segment) : Option MarkValue × Option MarkValue :=
  (some (.string segment.segmentId), some (timestampValue segment.timestampMs))

/-- The marks of the segments of a section, behind its header: those of its own segment for every block, none for what
stands between. -/
def ownSegments : Bool → List Segment → List (Option MarkValue × Option MarkValue)
  | _, [] => []
  | first, segment :: segments =>
    (if first then [] else [(none, none), (none, none)]) ++
      List.replicate (blockText segment).length segment.marks ++ ownSegments false segments

/-! ## Rendering -/

def tailText : Bool → List Segment → List Char
  | _, [] => []
  | first, segment :: segments => (if first then [] else ['\n', '\n']) ++ blockText segment ++ tailText false segments

/-- The marks of the blocks, the first of which starts at `start` when it is the first of the section. -/
def tailMarks : Nat → Bool → List Segment → List RenderedMark
  | _, _, [] => []
  | start, first, segment :: segments =>
    let pos := start + (if first then 0 else 2)
    let len := (blockText segment).length
    ⟨pos, len, "segment_id", .string segment.segmentId⟩ :: ⟨pos, len, "timestamp_ms", timestampValue segment.timestampMs⟩ ::
      tailMarks (pos + len) false segments

theorem blockText_pos (segment : Segment) : 0 < (blockText segment).length := by
  simp [blockText]

theorem pushSegments_eq (rendered : RenderedSection) (first : Bool) (segments : List Segment) :
    pushSegments rendered first segments =
      ⟨rendered.text ++ tailText first segments, rendered.marks ++ tailMarks rendered.text.length first segments⟩ := by
  induction segments generalizing rendered first with
  | nil => simp [pushSegments, tailText, tailMarks]
  | cons segment segments ih =>
    rw [pushSegments, ih, pushSegment, if_pos (blockText_pos segment)]
    cases first with
    | true => simp [tailText, tailMarks]
    | false =>
      simp only [Bool.false_eq_true, if_false, tailText, tailMarks, List.length_append, List.append_assoc, List.cons_append,
        List.nil_append, List.length_cons, List.length_nil, Nat.add_assoc]
      rw [Nat.add_comm (blockText segment).length]

theorem headerText_pos (session : String) (sectionTitle : Option String) (separator : Bool) :
    0 < (headerText session sectionTitle separator).length := by
  simp [headerText]

theorem renderTranscriptSection_eq (session : String) (sectionTitle : Option String) (segments : List Segment)
    (separator : Bool) :
    renderTranscriptSection session sectionTitle segments separator =
      ⟨headerText session sectionTitle separator ++ tailText true segments,
        tailMarks (headerText session sectionTitle separator).length true segments ++
          [⟨0, (headerText session sectionTitle separator ++ tailText true segments).length, "session_id",
            .string session⟩]⟩ := by
  have hpos := headerText_pos session sectionTitle separator
  unfold renderTranscriptSection
  rw [pushSegments_eq]
  dsimp only
  rw [if_pos (by rw [List.length_append]; omega), List.nil_append]

/-! ## Edits -/

section
variable {before own after : List Glyph} {text : List Char} {key : String} {value : MarkValue} {faults : Faults}
  {ops : List (Call × EditOp)} {doc doc' : List Glyph} {call : Call}

theorem insertText_eq (before after : List Glyph) (text : List Char) :
    insertText before.length text (before ++ after) =
      some (before ++ text.map (fun char => ⟨char, inheritedMarks before.getLast? after.head?⟩) ++ after) := by
  rw [insertText, if_pos (by simp), List.take_left, List.drop_left]

theorem deleteText_eq (before own after : List Glyph) :
    deleteText before.length own.length (before ++ own ++ after) = some (before ++ after) := by
  rw [deleteText, if_pos (by simp), ← List.length_append, List.drop_left, List.append_assoc, List.take_left]

theorem setMark_eq (hown : 0 < own.length) :
    setMark before.length own.length key value (before ++ own ++ after) =
      some (before ++ own.map (Glyph.mark key value) ++ after) := by
  rw [setMark, if_pos ⟨hown, by simp⟩, ← List.length_append, List.drop_left, List.append_assoc before, List.take_left,
    List.drop_left, List.take_left]

theorem applyOps_cons (h : applyEditOp doc op = some doc') :
    applyOps faults ((call, op) :: ops) doc =
      if faults.fails call then (doc, .error (.failed call)) else applyOps faults ops doc' := by
  rw [applyOps, h]

/-! ## The calls of a projection -/

/-- Nothing fails. -/
def Faults.none : Faults := ⟨fun _ => false, fun _ => false⟩

theorem applyOps_of_ok (h : applyOps faults ops doc = (doc', .ok ())) : applyOps .none ops doc = (doc', .ok ()) := by
  induction ops generalizing doc with
  | nil => exact h
  | cons entry ops ih =>
    obtain ⟨call, op⟩ := entry
    rw [applyOps] at h ⊢
    split at h
    · cases h
    · cases hop : applyEditOp doc op with
      | none =>
        rw [hop] at h
        cases h
      | some mid =>
        rw [hop] at h
        exact ih h

theorem applyOps_of_none_fails (h : ∀ call, faults.fails call = false) (ops : List (Call × EditOp)) (doc : List Glyph) :
    applyOps faults ops doc = applyOps .none ops doc := by
  induction ops generalizing doc with
  | nil => rfl
  | cons entry ops ih =>
    obtain ⟨call, op⟩ := entry
    rw [applyOps, applyOps, h call]
    cases applyEditOp doc op with
    | none => rfl
    | some mid => exact ih mid

/-- What stands behind the header once the blocks are marked; `marks` is what the inserted text took over. -/
def tailGlyphs (marks : String → Option MarkValue) : Bool → List Segment → List Glyph
  | _, [] => []
  | first, segment :: segments =>
    (if first then [] else ['\n', '\n']).map (fun char => ⟨char, marks⟩) ++
      (blockText segment).map (fun char => (Glyph.mk char marks |>.mark "segment_id" (.string segment.segmentId)
        |>.mark "timestamp_ms" (timestampValue segment.timestampMs))) ++
      tailGlyphs marks false segments

theorem applyOps_mark {pos len : Nat} (hpos : before.length = pos) (hlen : own.length = len) (hown : 0 < len) (index : Nat) :
    applyOps .none ((.mark index, .mark pos len key value) :: ops) (before ++ own ++ after) =
      applyOps .none ops (before ++ own.map (Glyph.mark key value) ++ after) := by
  subst hpos hlen
  have hop : applyEditOp (before ++ own ++ after) (.mark before.length own.length key value) =
      some (before ++ own.map (Glyph.mark key value) ++ after) := setMark_eq hown
  rw [applyOps_cons hop]
  rfl

theorem applyOps_tail (marks : String → Option MarkValue) (first : Bool) (segments : List Segment)
    (more : List RenderedMark) {insertPos start : Nat} (hstart : before.length = insertPos + start) (index : Nat) :
    applyOps .none (markOps insertPos index (tailMarks start first segments ++ more))
        (before ++ (tailText first segments).map (fun char => ⟨char, marks⟩) ++ after) =
      applyOps .none (markOps insertPos (index + 2 * segments.length) more)
        (before ++ tailGlyphs marks first segments ++ after) := by
  induction segments generalizing before start first index with
  | nil => rfl
  | cons segment segments ih =>
    let plain : Char → Glyph := fun char => ⟨char, marks⟩
    let gap : List Char := if first then [] else ['\n', '\n']
    let block := (blockText segment).map plain
    have hgap : gap.length = if first then 0 else 2 := by
      cases first <;> rfl
    have hpos : (before ++ gap.map plain).length = insertPos + (start + (if first then 0 else 2)) := by
      rw [List.length_append, List.length_map, hgap, hstart]
      omega
    have hlen : block.length = (blockText segment).length := List.length_map plain
    have hblock := blockText_pos segment
    have hdoc : before ++ (tailText first (segment :: segments)).map plain ++ after =
        before ++ gap.map plain ++ block ++ ((tailText false segments).map plain ++ after) := by
      simp only [tailText, List.map_append, List.append_assoc, gap, block]
    rw [tailMarks, List.cons_append, List.cons_append, markOps, markOps, hdoc]
    dsimp only
    refine (applyOps_mark hpos hlen hblock index).trans ((applyOps_mark hpos ?_ hblock (index + 1)).trans ?_)
    · rw [List.length_map, hlen]
    · rw [← List.append_assoc]
      refine (ih false ?_ (index + 1 + 1)).trans ?_
      · rw [List.length_append, List.length_map, List.length_map, hpos, hlen]
        omega
      · congr 1
        · congr 1
          rw [List.length_cons]
          omega
        · simp only [tailGlyphs, List.map_map, List.append_assoc, gap, block]
          rfl

theorem map_char_tailGlyphs (marks : String → Option MarkValue) (first : Bool) (segments : List Segment) :
    (tailGlyphs marks first segments).map (·.char) = tailText first segments := by
  induction segments generalizing first with
  | nil => rfl
  | cons segment segments ih =>
    rw [tailGlyphs, tailText, List.map_append, List.map_append, ih, List.map_map, List.map_map]
    simp [Function.comp_def, Glyph.mark]

/-- The section as a projection leaves it. -/
def sectionGlyphs (marks : String → Option MarkValue) (session : String) (header : List Char) (segments : List Segment) :
    List Glyph :=
  (header.map (Glyph.mk · marks) ++ tailGlyphs marks true segments).map (Glyph.mark "session_id" (.string session))

theorem applyOps_section (before after : List Glyph) (session : String) (sectionTitle : Option String)
    (segments : List Segment) :
    applyOps .none (sectionOps session sectionTitle segments before.length) (before ++ after) =
      (before ++ sectionGlyphs (inheritedMarks before.getLast? after.head?) session
        (headerText session sectionTitle (0 < before.length)) segments ++ after, .ok ()) := by
  let marks := inheritedMarks before.getLast? after.head?
  let header := headerText session sectionTitle (0 < before.length)
  have hinsert : applyEditOp (before ++ after) (.insert before.length (header ++ tailText true segments)) =
      some (before ++ (header ++ tailText true segments).map (fun char => ⟨char, marks⟩) ++ after) :=
    insertText_eq before after _
  have hdoc : before ++ (header ++ tailText true segments).map (fun char => (⟨char, marks⟩ : Glyph)) ++ after =
      before ++ header.map (fun char => ⟨char, marks⟩) ++ (tailText true segments).map (fun char => ⟨char, marks⟩) ++ after := by
    simp only [List.map_append, List.append_assoc]
  have hlength : (header.map (fun char => (⟨char, marks⟩ : Glyph)) ++ tailGlyphs marks true segments).length =
      (header ++ tailText true segments).length := by
    rw [← map_char_tailGlyphs marks true segments, List.length_append, List.length_append, List.length_map, List.length_map]
  rw [sectionOps, renderTranscriptSection_eq]
  dsimp only
  rw [applyOps_cons hinsert, hdoc]
  refine (applyOps_tail marks true segments _ (by rw [List.length_append, List.length_map]) 0).trans ?_
  rw [markOps, markOps, List.append_assoc before]
  refine (applyOps_mark rfl hlength ?_ _).trans ?_
  · have hpos := headerText_pos session sectionTitle (0 < before.length)
    rw [List.length_append]
    exact Nat.add_pos_left hpos _
  · rw [applyOps]
    rfl

end

/-! ## The document around the section -/

section
variable {session : String} {before own after doc doc' : List Glyph} {range : Option Span} {faults : Faults}
  {sectionTitle : Option String} {segments : List Segment}

/-- The range that is found is the only stretch. -/
theorem spans_of_findUnique (h : findUniqueMarkedRange session doc = .ok range) :
    spans (Glyph.ofSession session) doc = range.toList := by
  unfold findUniqueMarkedRange at h
  cases hranges : findMarkedRanges session doc with
  | error error =>
    rw [hranges] at h
    cases h
  | ok ranges =>
    have hspans : ranges = spans (Glyph.ofSession session) doc := by
      unfold findMarkedRanges at hranges
      split at hranges
      · cases hranges
      · exact (Except.ok.inj hranges).symm
    rw [hranges, hspans] at h
    cases hfound : spans (Glyph.ofSession session) doc with
    | nil =>
      rw [hfound] at h
      obtain rfl := Except.ok.inj h
      rfl
    | cons first rest =>
      rw [hfound] at h
      cases rest with
      | nil =>
        obtain rfl := Except.ok.inj h
        rfl
      | cons second rest => cases h

theorem exists_around (h : findUniqueMarkedRange session doc = .ok range) :
    ∃ before own after, doc = before ++ own ++ after ∧ Around session before own after ∧
      range = if own = [] then none else some ⟨before.length, own.length⟩ := by
  have hspans := spans_of_findUnique h
  have hshort : (spans (Glyph.ofSession session) doc).length ≤ 1 := by
    rw [hspans]
    cases range <;> simp
  obtain ⟨before, own, after, rfl, hbefore, hown, hafter⟩ := exists_block hshort
  rw [spans_block hbefore hown hafter] at hspans
  by_cases hempty : own = []
  · subst hempty
    refine ⟨before ++ after, [], [], by simp, ⟨fun glyph hglyph => ?_, hown, by simp, fun _ => rfl⟩, ?_⟩
    · rcases List.mem_append.mp hglyph with hmem | hmem
      · exact hbefore glyph hmem
      · exact hafter glyph hmem
    · cases range with
      | none => rfl
      | some range => cases hspans
  · refine ⟨before, own, after, rfl, ⟨hbefore, hown, hafter, fun hcontra => absurd hcontra hempty⟩, ?_⟩
    rw [if_neg hempty] at hspans ⊢
    cases range with
    | none => cases hspans
    | some range =>
      obtain rfl := List.singleton_inj.mp hspans
      rfl

theorem applyOps_projection (h : Around session before own after)
    (hrange : range = if own = [] then none else some ⟨before.length, own.length⟩) (sectionTitle : Option String)
    (segments : List Segment) :
    applyOps .none (projectionOps session sectionTitle segments (before ++ own ++ after).length range)
        (before ++ own ++ after) =
      (before ++ sectionGlyphs (inheritedMarks before.getLast? after.head?) session
        (headerText session sectionTitle (0 < before.length)) segments ++ after, .ok ()) := by
  by_cases hempty : own = []
  · have hafter := h.last hempty
    subst hempty hafter
    rw [if_pos rfl] at hrange
    rw [hrange, projectionOps]
    simp only [List.append_nil]
    have hsection := applyOps_section before [] session sectionTitle segments
    rw [List.append_nil, List.append_nil] at hsection
    exact hsection
  · rw [if_neg hempty] at hrange
    rw [hrange, projectionOps]
    have hdelete : applyEditOp (before ++ own ++ after) (.delete before.length own.length) = some (before ++ after) :=
      deleteText_eq before own after
    rw [applyOps_cons hdelete]
    exact applyOps_section before after session sectionTitle segments

theorem mutate_ok (h : mutate faults session sectionTitle segments doc = (doc', .ok ())) :
    ∃ before own after, doc = before ++ own ++ after ∧ Around session before own after ∧
      doc' = before ++ sectionGlyphs (inheritedMarks before.getLast? after.head?) session
        (headerText session sectionTitle (0 < before.length)) segments ++ after := by
  unfold mutate at h
  split at h
  · cases h
  · split at h
    · cases h
    next range hrange =>
      split at h
      · cases h
      · obtain ⟨before, own, after, rfl, haround, hrange⟩ := exists_around hrange
        refine ⟨before, own, after, rfl, haround, ?_⟩
        have hrun := (applyOps_of_ok h).symm.trans (applyOps_projection haround hrange sectionTitle segments)
        exact (Prod.mk.inj hrun).1

/-! ## The marks of the section -/

variable {marks : String → Option MarkValue}

theorem map_segment_tailGlyphs (hid : marks "segment_id" = none) (hms : marks "timestamp_ms" = none) (first : Bool)
    (segments : List Segment) : (tailGlyphs marks first segments).map Glyph.segment = ownSegments first segments := by
  induction segments generalizing first with
  | nil => rfl
  | cons segment segments ih =>
    rw [tailGlyphs, ownSegments, List.map_append, List.map_append, ih, List.map_map, List.map_map]
    congr 2
    · cases first <;> simp [Glyph.segment, hid, hms]
    · apply List.ext_getElem
      · simp
      · intro i hi hi'
        simp [Glyph.segment, Glyph.mark, Segment.marks]

theorem map_segment_sectionGlyphs_iff {header : List Char} (hheader : 0 < header.length) (session : String)
    (segments : List Segment) :
    (sectionGlyphs marks session header segments).map Glyph.segment =
        List.replicate header.length (none, none) ++ ownSegments true segments ↔
      marks "segment_id" = none ∧ marks "timestamp_ms" = none := by
  have hsection : (sectionGlyphs marks session header segments).map Glyph.segment =
      List.replicate header.length (marks "segment_id", marks "timestamp_ms") ++
        (tailGlyphs marks true segments).map Glyph.segment := by
    rw [sectionGlyphs, List.map_map]
    show (header.map (Glyph.mk · marks) ++ tailGlyphs marks true segments).map Glyph.segment = _
    rw [List.map_append, List.map_map]
    congr 1
    show header.map (fun _ => (marks "segment_id", marks "timestamp_ms")) = _
    exact List.map_const'
  rw [hsection]
  constructor
  · intro h
    obtain ⟨char, rest, rfl⟩ := List.exists_cons_of_length_pos hheader
    rw [List.length_cons, List.replicate_succ, List.replicate_succ, List.cons_append, List.cons_append] at h
    exact Prod.mk.inj (List.cons.inj h).1
  · rintro ⟨hid, hms⟩
    rw [hid, hms, map_segment_tailGlyphs hid hms]

theorem inheritedMarks_after {key : String} (h : voiceToolStyleConfig key = .after) (left right : Option Glyph) :
    inheritedMarks left right key = left.bind fun glyph => glyph.marks key := by
  unfold inheritedMarks
  rw [h]
  cases left <;> rfl

theorem segment_inherited_iff (left right : Option Glyph) :
    (inheritedMarks left right "segment_id" = none ∧ inheritedMarks left right "timestamp_ms" = none) ↔
      ∀ glyph ∈ left, glyph.segment = (none, none) := by
  rw [inheritedMarks_after rfl, inheritedMarks_after rfl]
  cases left with
  | none => simp
  | some glyph => simp [Glyph.segment]

theorem ofSession_sectionGlyphs {header : List Char} :
    ∀ glyph ∈ sectionGlyphs marks session header segments, glyph.ofSession session = true := by
  intro glyph hglyph
  obtain ⟨old, -, rfl⟩ := List.mem_map.mp hglyph
  simp [Glyph.ofSession, Glyph.mark]

theorem map_char_sectionGlyphs (marks : String → Option MarkValue) (session : String) (sectionTitle : Option String)
    (segments : List Segment) (separator : Bool) :
    (sectionGlyphs marks session (headerText session sectionTitle separator) segments).map (·.char) =
      (renderTranscriptSection session sectionTitle segments separator).text := by
  rw [renderTranscriptSection_eq, sectionGlyphs, List.map_map]
  show (_ ++ _ : List Glyph).map (·.char) = _
  rw [List.map_append, map_char_tailGlyphs, List.map_map]
  congr 1
  exact List.map_id _

/-! ## Failures -/

variable {editor editor' : Editor} {document snapshot : List Glyph} {error : SyncError} {result : Except SyncError Unit}

theorem rollBack_restores (hreplace : faults.fails .replaceDocument = false)
    (hflush : faults.fails .rollbackFlush = false) :
    rollBack faults editor document snapshot error = (⟨editor.document, editor.document⟩, .error error) := by
  simp [rollBack, flush, hreplace, hflush]

theorem rollBack_error (faults : Faults) (editor : Editor) (document snapshot : List Glyph) (error : SyncError) :
    ∃ error', (rollBack faults editor document snapshot error).2 = .error error' := by
  unfold rollBack
  split
  · exact ⟨_, rfl⟩
  · split <;> exact ⟨_, rfl⟩

theorem rollBack_ne_ok (h : rollBack faults editor document snapshot error = (editor', .ok ())) : False := by
  obtain ⟨error', herror⟩ := rollBack_error faults editor document snapshot error
  rw [h] at herror
  cases herror

theorem flush_ok {call : Call} {snapshot' : List Glyph} (h : flush faults call document snapshot = (snapshot', .ok ())) :
    snapshot' = document := by
  unfold flush at h
  split at h
  · cases h
  · exact (Prod.mk.inj h).1.symm

theorem sync_ok (h : syncSessionTranscriptIntoTab faults session sectionTitle segments editor = (editor', .ok ())) :
    mutate faults session sectionTitle segments editor.document = (editor'.document, .ok ()) ∧
      editor'.snapshot = editor'.document := by
  unfold syncSessionTranscriptIntoTab at h
  split at h
  · cases h
  split at h
  · cases h
  split at h
  · cases h
  split at h
  · cases h
  split at h
  · exact (rollBack_ne_ok h).elim
  next document hmutate =>
    split at h
    next snapshot hflush =>
      obtain ⟨rfl, -⟩ := Prod.mk.inj h
      exact ⟨hmutate, flush_ok hflush⟩
    · exact (rollBack_ne_ok h).elim

theorem sync_error (h : syncSessionTranscriptIntoTab faults session sectionTitle segments editor = (editor', .error error))
    (hreplace : faults.fails .replaceDocument = false) (hflush : faults.fails .rollbackFlush = false) :
    editor'.document = editor.document ∧ (editor'.snapshot = editor.snapshot ∨ editor'.snapshot = editor.document) := by
  unfold syncSessionTranscriptIntoTab at h
  simp only [rollBack_restores hreplace hflush] at h
  split at h
  · obtain ⟨rfl, -⟩ := Prod.mk.inj h
    exact ⟨rfl, .inl rfl⟩
  split at h
  · obtain ⟨rfl, -⟩ := Prod.mk.inj h
    exact ⟨rfl, .inl rfl⟩
  split at h
  · obtain ⟨rfl, -⟩ := Prod.mk.inj h
    exact ⟨rfl, .inl rfl⟩
  split at h
  · obtain ⟨rfl, -⟩ := Prod.mk.inj h
    exact ⟨rfl, .inl rfl⟩
  split at h
  · obtain ⟨rfl, -⟩ := Prod.mk.inj h
    exact ⟨rfl, .inr rfl⟩
  · split at h
    · cases h
    · obtain ⟨rfl, -⟩ := Prod.mk.inj h
      exact ⟨rfl, .inr rfl⟩

theorem sync_total (h : ∀ call, faults.fails call = false) (hrange : findUniqueMarkedRange session editor.document = .ok range)
    (sectionTitle : Option String) (segments : List Segment) :
    (syncSessionTranscriptIntoTab faults session sectionTitle segments editor).2 = .ok () := by
  obtain ⟨before, own, after, hdoc, haround, hsame⟩ := exists_around hrange
  have hrun := applyOps_projection haround hsame sectionTitle segments
  rw [← hdoc, ← applyOps_of_none_fails h] at hrun
  simp [syncSessionTranscriptIntoTab, mutate, flush, h, hrange, hrun]

end

/-- A projection puts the section of its session in the place of the old one, or behind everything, with its session's
mark on every character of it and the rest as it was; the marks of the segments are exact if and only if the character
in front of the section has none. When a call fails and those of the rollback do not, everything is as it was. -/
theorem projection_exact_iff {faults : Faults} {session : String} {sectionTitle : Option String} {segments : List Segment}
    {editor editor' : Editor} {result : Except SyncError Unit}
    (h : syncSessionTranscriptIntoTab faults session sectionTitle segments editor = (editor', result)) :
    (result = .ok () → ∃ before own after new, editor.document = before ++ own ++ after ∧
      Around session before own after ∧ editor'.document = before ++ new ++ after ∧
      editor'.snapshot = editor'.document ∧
      new.map (·.char) = (renderTranscriptSection session sectionTitle segments (0 < before.length)).text ∧
      (∀ glyph ∈ new, glyph.ofSession session = true) ∧
      (new.map Glyph.segment = List.replicate (headerText session sectionTitle (0 < before.length)).length (none, none) ++
        ownSegments true segments ↔ ∀ glyph ∈ before.getLast?, glyph.segment = (none, none))) ∧
    (∀ error, result = .error error → faults.fails .replaceDocument = false → faults.fails .rollbackFlush = false →
      editor'.document = editor.document ∧ (editor'.snapshot = editor.snapshot ∨ editor'.snapshot = editor.document)) ∧
    ((∀ call, faults.fails call = false) → (∃ range, findUniqueMarkedRange session editor.document = .ok range) →
      result = .ok ()) := by
  refine ⟨fun hok => ?_, fun error herror hreplace hflush => ?_, fun hfails hfound => ?_⟩
  · subst hok
    obtain ⟨hmutate, hsnapshot⟩ := sync_ok h
    obtain ⟨before, own, after, hdoc, haround, hnew⟩ := mutate_ok hmutate
    refine ⟨before, own, after, _, hdoc, haround, hnew, hsnapshot, map_char_sectionGlyphs _ _ _ _ _,
      ofSession_sectionGlyphs, ?_⟩
    rw [map_segment_sectionGlyphs_iff (headerText_pos _ _ _), segment_inherited_iff]
  · subst herror
    exact sync_error h hreplace hflush
  · obtain ⟨range, hrange⟩ := hfound
    have hok := sync_total hfails hrange sectionTitle segments
    rw [h] at hok
    exact hok

/-- The first projection. -/
theorem projection_exact_first : (syncSessionTranscriptIntoTab .none "first" none [] ⟨[], []⟩).2 = .ok () := by
  have hsync : syncSessionTranscriptIntoTab .none "first" none [] ⟨[], []⟩ = (_, _) := Prod.mk.eta.symm
  exact (projection_exact_iff hsync).2.2 (fun _ => rfl) ⟨none, rfl⟩

/-- The last character of a segment of another session. -/
def lastOfSegment : Glyph :=
  ⟨'x', fun key => if key = "session_id" then some (.string "first") else if key = "segment_id" then some (.string "0") else none⟩

/-- A section without segments, appended behind a segment of another session, carries that segment. -/
theorem header_takes_segment_over :
    ∃ editor', syncSessionTranscriptIntoTab .none "second" none [] ⟨[lastOfSegment], [lastOfSegment]⟩ = (editor', .ok ()) ∧
      ∃ glyph ∈ editor'.document, glyph.ofSession "second" = true ∧ glyph.marks "segment_id" = some (.string "0") := by
  refine ⟨_, rfl, ?_⟩
  refine ⟨_, List.mem_cons_of_mem _ List.mem_cons_self, ?_, ?_⟩
  · rfl
  · rfl

end Zulangue.AsyncTab.Marked
