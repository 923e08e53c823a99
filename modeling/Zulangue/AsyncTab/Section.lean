import Zulangue.AsyncTab.Document

/-!
# One projection

A projection that finds one stretch of its session, written by projections only, puts a new section in
its place and changes nothing else.
-/

namespace Zulangue.AsyncTab

open Zulangue.Lib.Fallible Zulangue.Lib.Spans

section
variable {Session : Type}

theorem marks_pushSegments (rendered : RenderedSection Session) (first : Bool) (segments : List Segment) :
    ∀ mark ∈ (pushSegments rendered first segments).marks, mark ∈ rendered.marks ∨ mark.key ≠ .sessionId := by
  induction segments generalizing rendered first with
  | nil => exact fun mark hmark => .inl hmark
  | cons segment segments ih =>
    intro mark hmark
    obtain hpushed | hlater := ih (pushSegment rendered segment first) false mark hmark
    · obtain hold | hnew := List.mem_append.mp hpushed
      · exact .inl hold
      · refine .inr ?_
        obtain rfl | hlast := List.mem_cons.mp hnew
        · exact fun hcontra => (by cases hcontra)
        · obtain rfl := List.mem_singleton.mp hlast
          exact fun hcontra => (by cases hcontra)
    · exact .inr hlater

theorem text_pushSegments {rendered : RenderedSection Session} (h : rendered.text ≠ []) (first : Bool)
    (segments : List Segment) : (pushSegments rendered first segments).text ≠ [] := by
  induction segments generalizing rendered first with
  | nil => exact h
  | cons segment segments ih =>
    refine ih ?_ false
    rw [pushSegment]
    exact List.append_ne_nil_of_left_ne_nil (by cases first <;> simp [h]) _

theorem rendered_eq (session : Session) (title : List Char) (segments : List Segment) (separator : Bool) :
    ∃ text marks, renderTranscriptSection session title segments separator =
        ⟨text, marks ++ [⟨0, text.length, .sessionId, .session session⟩]⟩ ∧
      text ≠ [] ∧ ∀ mark ∈ marks, mark.key ≠ .sessionId := by
  refine ⟨_, _, rfl, text_pushSegments (fun hcontra => ?_) true segments, ?_⟩
  · simp at hcontra
  · intro mark hmark
    obtain hcontra | hkey := marks_pushSegments _ true segments mark hmark
    · cases hcontra
    · exact hkey

theorem setMark_of_key {pos len : Nat} {key : MarkKey} {value : Option (MarkValue Session)}
    {doc doc' : List (Glyph Session)} (hkey : key ≠ .sessionId) (h : setMark pos len key value doc = some doc') :
    doc' = doc := by
  rw [setMark, if_neg hkey] at h
  split at h
  · exact (Option.some.inj h).symm
  · cases h

theorem applyMarks_eq {insertPos : Nat} {marks : List (RenderedMark Session)}
    {doc doc' : List (Glyph Session)} (hmarks : ∀ mark ∈ marks, mark.key ≠ .sessionId)
    (h : marks.foldlM (applyMark insertPos) doc = .ok doc') : doc' = doc := by
  refine foldlM_relates (R := fun doc doc' => doc' = doc) (fun _ => rfl) (fun _ _ _ hfst hsnd => hsnd.trans hfst) ?_ h
  intro mid mark hmark mid' hmid
  exact setMark_of_key (hmarks mark hmark) (orError_eq_ok.mp hmid)

theorem setMark_block {before own after : List (Glyph Session)} {value : Option (MarkValue Session)}
    {doc' : List (Glyph Session)}
    (h : setMark before.length own.length .sessionId value (before ++ own ++ after) = some doc') :
    doc' = before ++ own.map (fun glyph => { glyph with sessionId := value }) ++ after := by
  rw [setMark, if_pos rfl] at h
  split at h
  · obtain rfl := Option.some.inj h
    rw [← List.length_append, List.drop_left, List.append_assoc before, List.take_left, List.drop_left, List.take_left]
  · cases h

variable [DecidableEq Session] {session : Session} {doc doc' : List (Glyph Session)}

theorem insertText_block {before after : List (Glyph Session)} {text : List Char}
    (h : insertText false before.length text (before ++ after) = some doc') :
    ∃ mark, doc' = before ++ text.map (fun char => ⟨char, mark, false⟩) ++ after := by
  rw [insertText] at h
  split at h
  · obtain rfl := Option.some.inj h
    rw [List.take_left, List.drop_left]
    exact ⟨_, rfl⟩
  · cases h

/-- The document around the section of the session; without one, all of it comes before. -/
structure Around (session : Session) (before own after : List (Glyph Session)) : Prop where
  unmarkedBefore : ∀ glyph ∈ before, glyph.ofSession session = false
  projected : ∀ glyph ∈ own, glyph.ofSession session = true ∧ glyph.byUser = false
  unmarkedAfter : ∀ glyph ∈ after, glyph.ofSession session = false
  last : own = [] → after = []

theorem Owned.around (h : Owned session doc) :
    ∃ before own after, doc = before ++ own ++ after ∧ Around session before own after := by
  obtain ⟨before, own, after, rfl, hbefore, hown, hafter⟩ := exists_block h.unsplit
  cases own with
  | nil =>
    refine ⟨before ++ after, [], [], by simp, ?_, fun _ hcontra => (by cases hcontra), fun _ hcontra => (by cases hcontra),
      fun _ => rfl⟩
    intro glyph hglyph
    obtain hold | hold := List.mem_append.mp hglyph
    · exact hbefore glyph hold
    · exact hafter glyph hold
  | cons first own =>
    refine ⟨before, first :: own, after, rfl, hbefore, fun glyph hglyph => ⟨hown glyph hglyph, ?_⟩, hafter,
      fun hcontra => (by cases hcontra)⟩
    exact h.projected glyph (List.mem_append_left _ (List.mem_append_right _ hglyph)) (hown glyph hglyph)

variable {before own after : List (Glyph Session)}

theorem findMarkedRanges_around (h : Around session before own after) {ranges : List Span}
    (hranges : findMarkedRanges session (before ++ own ++ after) = .ok ranges) :
    ranges = if own = [] then [] else [⟨before.length, own.length⟩] := by
  rw [findMarkedRanges] at hranges
  split at hranges
  · cases hranges
  · rw [← spans_block h.unmarkedBefore (fun glyph hglyph => (h.projected glyph hglyph).1) h.unmarkedAfter]
    exact (Except.ok.inj hranges).symm

theorem findUniqueMarkedRange_around (h : Around session before own after) {range : Option Span}
    (hrange : findUniqueMarkedRange session (before ++ own ++ after) = .ok range) :
    range = if own = [] then none else some ⟨before.length, own.length⟩ := by
  obtain ⟨ranges, hranges, hunique⟩ := bind_eq_ok.mp hrange
  obtain rfl := findMarkedRanges_around h hranges
  by_cases hown : own = []
  · rw [if_pos hown] at hunique ⊢
    exact (Except.ok.inj hunique).symm
  · rw [if_neg hown] at hunique ⊢
    exact (Except.ok.inj hunique).symm

/-- The range is not split. -/
theorem not_split (h : Owned session doc) (count : Nat) : findUniqueMarkedRange session doc ≠ .error (.split count) := by
  obtain ⟨before, own, after, rfl, haround⟩ := h.around
  intro hcontra
  rw [findUniqueMarkedRange] at hcontra
  cases hranges : findMarkedRanges session (before ++ own ++ after) with
  | error err =>
    rw [hranges] at hcontra
    obtain rfl : err = .split count := Except.error.inj hcontra
    rw [findMarkedRanges] at hranges
    split at hranges
    · cases hranges
    · cases hranges
  | ok ranges =>
    rw [hranges] at hcontra
    obtain rfl := findMarkedRanges_around haround hranges
    by_cases hown : own = []
    · rw [if_pos hown] at hcontra
      cases hcontra
    · rw [if_neg hown] at hcontra
      cases hcontra

/-- The old section goes, and the new one comes in its place. -/
theorem syncSessionTranscript_around (h : Around session before own after) {title : List Char} {segments : List Segment}
    (hdoc : syncSessionTranscript session title segments (before ++ own ++ after) = .ok doc') :
    ∃ new, doc' = before ++ new ++ after ∧ new ≠ [] ∧
      ∀ glyph ∈ new, glyph.sessionId = some (.session session) ∧ glyph.byUser = false := by
  obtain ⟨range, hrange, hrest⟩ := bind_eq_ok.mp hdoc
  obtain rfl := findUniqueMarkedRange_around h hrange
  obtain ⟨⟨kept, insertPos⟩, hkept, hrest⟩ := bind_eq_ok.mp hrest
  obtain ⟨rfl, rfl⟩ : kept = before ++ after ∧ insertPos = before.length := by
    by_cases hown : own = []
    · rw [if_pos hown] at hkept
      obtain rfl := hown
      obtain rfl := h.last rfl
      obtain ⟨rfl, rfl⟩ := Prod.mk.inj (Except.ok.inj hkept)
      exact ⟨by simp, by simp⟩
    · rw [if_neg hown] at hkept
      change (orError (deleteText before.length own.length (before ++ own ++ after)) EditorError.edit).map _ = _ at hkept
      rw [deleteText, if_pos (by simp only [List.length_append]; omega), List.append_assoc, List.take_left,
        ← List.append_assoc, ← List.length_append, List.drop_left] at hkept
      obtain ⟨rfl, rfl⟩ := Prod.mk.inj (Except.ok.inj hkept)
      exact ⟨rfl, rfl⟩
  obtain ⟨text, marks, hrendered, htext, hmarks⟩ :=
    rendered_eq session title segments (decide (0 < before.length))
  obtain ⟨inserted, hinserted, hmarked⟩ := bind_eq_ok.mp hrest
  rw [hrendered] at hinserted hmarked
  obtain ⟨mark, rfl⟩ := insertText_block (orError_eq_ok.mp hinserted)
  rw [List.foldlM_append] at hmarked
  obtain ⟨mid, hmid, hlast⟩ := bind_eq_ok.mp hmarked
  obtain rfl := applyMarks_eq hmarks hmid
  obtain ⟨_, hset, hdone⟩ := bind_eq_ok.mp hlast
  obtain rfl := Except.ok.inj hdone
  have hsection := orError_eq_ok.mp hset
  have hlength : text.length = (text.map (fun char => (⟨char, mark, false⟩ : Glyph Session))).length :=
    (List.length_map _).symm
  change setMark (before.length + 0) text.length .sessionId _ _ = some _ at hsection
  rw [Nat.add_zero, hlength] at hsection
  refine ⟨_, setMark_block hsection, ?_, ?_⟩
  · simp [htext]
  · intro glyph hglyph
    obtain ⟨old, hold, rfl⟩ := List.mem_map.mp hglyph
    obtain ⟨char, -, rfl⟩ := List.mem_map.mp hold
    exact ⟨rfl, rfl⟩

/-! ## What the user wrote, and the other sections -/

variable {title : List Char} {segments : List Segment}

theorem userText_sync (h : Owned session doc) (hdoc : syncSessionTranscript session title segments doc = .ok doc') :
    userText doc' = userText doc := by
  obtain ⟨before, own, after, rfl, haround⟩ := h.around
  obtain ⟨new, rfl, -, hnew⟩ := syncSessionTranscript_around haround hdoc
  have hprojected : ∀ {part : List (Glyph Session)}, (∀ glyph ∈ part, glyph.byUser = false) →
      userText (before ++ part ++ after) = userText before ++ userText after := by
    intro part hpart
    have hnone : userText part = [] := List.filter_eq_nil_iff.mpr fun glyph hglyph => by
      rw [hpart glyph hglyph]
      exact Bool.false_ne_true
    rw [userText, List.filter_append, List.filter_append]
    change userText before ++ userText part ++ userText after = _
    rw [hnone, List.append_nil]
  rw [hprojected fun glyph hglyph => (hnew glyph hglyph).2, hprojected fun glyph hglyph => (haround.projected glyph hglyph).2]

theorem sections_sync (h : Owned session doc) (hdoc : syncSessionTranscript session title segments doc = .ok doc') :
    sections session doc' = 1 := by
  obtain ⟨before, own, after, rfl, haround⟩ := h.around
  obtain ⟨new, rfl, hne, hnew⟩ := syncSessionTranscript_around haround hdoc
  rw [sections, spans_block haround.unmarkedBefore (fun glyph hglyph => ofSession_iff.mpr (hnew glyph hglyph).1) haround.unmarkedAfter, if_neg hne]
  rfl

theorem ofSession_of_ne {glyph : Glyph Session} {other : Session} (hmark : glyph.sessionId = some (.session session))
    (hne : other ≠ session) : glyph.ofSession other = false := by
  rw [← Bool.not_eq_true, ofSession_iff, hmark]
  intro hcontra
  exact hne (MarkValue.session.inj (Option.some.inj hcontra)).symm

theorem other_sections_sync (h : Owned session doc) (hdoc : syncSessionTranscript session title segments doc = .ok doc')
    {other : Session} (hne : other ≠ session) :
    sections other doc' = sections other doc := by
  obtain ⟨before, own, after, rfl, haround⟩ := h.around
  obtain ⟨new, rfl, hnewne, hnew⟩ := syncSessionTranscript_around haround hdoc
  have hother : ∀ glyph ∈ new, glyph.ofSession other = false := fun glyph hglyph =>
    ofSession_of_ne (hnew glyph hglyph).1 hne
  by_cases hown : own = []
  · obtain rfl := hown
    obtain rfl := haround.last rfl
    rw [List.append_nil, List.append_nil, List.append_nil, sections, length_spans_append hother, sections]
  · refine length_spans_replace ?_ hown hother hnewne
    intro glyph hglyph
    exact ofSession_of_ne (ofSession_iff.mp (haround.projected glyph hglyph).1) hne

/-- A projection leaves every session as it should be. -/
theorem owned_sync (h : Owned session doc) (hdoc : syncSessionTranscript session title segments doc = .ok doc')
    {other : Session} (hother : Owned other doc) : Owned other doc' := by
  refine ⟨?_, ?_⟩
  · by_cases hsame : other = session
    · obtain rfl := hsame
      exact Nat.le_of_eq (sections_sync h hdoc)
    · rw [other_sections_sync h hdoc hsame]
      exact hother.unsplit
  · intro glyph hglyph hmarked
    obtain ⟨before, own, after, rfl, haround⟩ := h.around
    obtain ⟨new, rfl, -, hnew⟩ := syncSessionTranscript_around haround hdoc
    obtain (hbefore | hin) | hafter := (List.mem_append.mp hglyph).imp_left List.mem_append.mp
    · exact hother.projected glyph (List.mem_append_left _ (List.mem_append_left _ hbefore)) hmarked
    · exact (hnew glyph hin).2
    · exact hother.projected glyph (List.mem_append_right _ hafter) hmarked

end

end Zulangue.AsyncTab
