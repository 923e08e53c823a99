import Zulangue.Assembler.Segments

/-!
# Where a source token goes

There is at most one open segment, and it is the last one. A source token goes into it, opens
the first one, or, where a final one has another identity, closes it and opens the next.
-/

namespace Zulangue.Assembler

/-! ## A segment after a source token -/

namespace LaneRevision

variable (lane : LaneRevision) (token : SttStreamToken) (language : Option String)

@[simp] theorem push_committed : (lane.push token language).committed =
    if token.isFinal then lane.committed ++ token.text else lane.committed := by
  unfold push
  split
  · rfl
  · simp only
    repeat' split
    all_goals rfl

@[simp] theorem push_pending : (lane.push token language).pending =
    if token.isFinal then lane.pending else lane.pending ++ token.text := by
  unfold push
  split
  · rfl
  · simp only
    repeat' split
    all_goals rfl

@[simp] theorem push_committedLanguage : (lane.push token language).committedLanguage =
    if token.isFinal then language.or lane.committedLanguage else lane.committedLanguage := by
  unfold push
  split
  · rfl
  · simp only
    repeat' split
    all_goals rfl

end LaneRevision

/-- What carries the words of a segment, and the identity they are committed under. -/
structure Core where
  id : String
  sequence : Nat
  committed : String
  pending : String
  language : Option String
  speaker : Option String
  deriving DecidableEq, Repr

namespace RealtimeSegmentRevision

variable (segment : RealtimeSegmentRevision) (token : SttStreamToken)

def core : Core :=
  { id := segment.id
    sequence := segment.sequence
    committed := segment.source.committed
    pending := segment.source.pending
    language := segment.source.committedLanguage
    speaker := segment.committedProviderSpeaker }

theorem core_pushSpeaker (isFinal : Bool) (speaker : Option String) :
    (segment.pushSpeaker isFinal speaker).core =
      if isFinal then { segment.core with speaker := speaker.or segment.core.speaker } else segment.core := by
  unfold pushSpeaker
  split
  · rfl
  · repeat' split
    all_goals rfl

theorem core_pushTimes : (segment.pushTimes token).core = segment.core := by
  unfold pushTimes
  split <;> rfl

/-- A source token adds its text, committed or pending, and a final one its identity. -/
theorem core_pushOriginal : (segment.pushOriginal token).core =
    if token.isFinal then
      { segment.core with
        committed := segment.core.committed ++ token.text
        language := token.originalLanguage.or segment.core.language
        speaker := token.providerSpeaker.or segment.core.speaker }
    else { segment.core with pending := segment.core.pending ++ token.text } := by
  have hcore : (segment.pushOriginal token).core =
      (({ segment with source := segment.source.push token token.originalLanguage }.pushSpeaker
        token.isFinal token.providerSpeaker).pushTimes token).core := rfl
  rw [hcore, core_pushTimes, core_pushSpeaker]
  simp only [core, LaneRevision.push_committed, LaneRevision.push_pending, LaneRevision.push_committedLanguage]
  split <;> rfl

theorem complete_pushOriginal : (segment.pushOriginal token).complete = segment.complete := by
  unfold pushOriginal pushTimes pushSpeaker
  simp only
  repeat' split
  all_goals rfl

theorem complete_pushTranslation : (segment.pushTranslation token).complete = segment.complete := by
  unfold pushTranslation
  simp only
  repeat' split
  all_goals rfl

theorem core_pushTranslation : (segment.pushTranslation token).core = segment.core := by
  unfold pushTranslation
  simp only
  repeat' split
  all_goals rfl

theorem core_beginResponseRevision :
    segment.beginResponseRevision.core = { segment.core with pending := "" } :=
  rfl

end RealtimeSegmentRevision

/-! ## The segment that takes a token -/

namespace RealtimeUtteranceAssembler

/-- The segments are those that are `closed`, then the `current` one, where there is one. -/
structure Current (a : RealtimeUtteranceAssembler) (closed : List RealtimeSegmentRevision)
    (current : Option RealtimeSegmentRevision) : Prop where
  segments : a.segments = closed ++ current.toList
  latest : a.latestOriginalSegment = current.map fun _ => closed.length
  closed : ∀ segment ∈ closed, segment.complete = true
  current : ∀ segment ∈ current, segment.complete = false

/-- The identity of a final token is not that of the segment. -/
def splits (segment : RealtimeSegmentRevision) (token : SttStreamToken) : Bool :=
  token.isFinal && segment.hasSourceText &&
    (identityConflicts segment.stableSourceLanguage token.originalLanguage ||
      identityConflicts segment.stableProviderSpeaker token.providerSpeaker)

/-- The closed segments and the open one that takes the token, with the next sequence. -/
inductive Opens (a : RealtimeUtteranceAssembler) (token : SttStreamToken) (closed : List RealtimeSegmentRevision) :
    Option RealtimeSegmentRevision → List RealtimeSegmentRevision → RealtimeSegmentRevision → Nat → Prop
  | first : Opens a token closed none closed (.new a.sessionId a.nextSequence) (a.nextSequence + 1)
  | same {segment : RealtimeSegmentRevision} (h : splits segment token = false) :
    Opens a token closed (some segment) closed segment a.nextSequence
  | next {segment : RealtimeSegmentRevision} (h : splits segment token = true) :
    Opens a token closed (some segment) (closed ++ [segment.markComplete]) (.new a.sessionId a.nextSequence)
      (a.nextSequence + 1)

/-- The assembler once a segment has taken a token. -/
def opened (a : RealtimeUtteranceAssembler) (closed : List RealtimeSegmentRevision)
    (segment : RealtimeSegmentRevision) (next : Nat) : RealtimeUtteranceAssembler :=
  { a with
    nextSequence := next
    segments := closed ++ [segment]
    latestOriginalSegment := some closed.length }

theorem modify_last {α : Type} (closed : List α) (last : α) (f : α → α) :
    (closed ++ [last]).modify closed.length f = closed ++ [f last] := by
  induction closed with
  | nil => rfl
  | cons first closed ih => simp [ih]

theorem rposition_eq_none {α : Type} {p : α → Bool} {items : List α} (h : ∀ item ∈ items, p item = false) :
    rposition p items = none := by
  rw [rposition, Option.map_eq_none_iff, List.findIdx?_eq_none_iff]
  intro item hitem
  exact h item (List.mem_reverse.mp hitem)

variable {a : RealtimeUtteranceAssembler} {closed : List RealtimeSegmentRevision}
  {current : Option RealtimeSegmentRevision}

theorem applyOriginalToken_eq (h : a.Current closed current) (token : SttStreamToken) :
    ∃ closed' segment next, Opens a token closed current closed' segment next ∧
      a.applyOriginalToken token = (a.opened closed' (segment.pushOriginal token) next, closed'.length) := by
  obtain ⟨hsegments, hlatest, hclosed, hcurrent⟩ := h
  cases current with
  | none =>
    have hnone : ∀ speaker, rposition (fun segment => !segment.complete && !segment.hasSourceText &&
        segment.matchingProviderSpeaker = some speaker) a.segments = none := by
      intro speaker
      apply rposition_eq_none
      intro segment hsegment
      rw [hsegments, Option.toList_none, List.append_nil] at hsegment
      simp [hclosed segment hsegment]
    have hwaiting : (token.providerSpeaker.bind fun speaker =>
        rposition (fun segment => !segment.complete && !segment.hasSourceText &&
          segment.matchingProviderSpeaker = some speaker) a.segments) = none := by
      cases token.providerSpeaker with
      | none => rfl
      | some speaker => exact hnone speaker
    refine ⟨closed, _, _, .first, ?_⟩
    simp only [applyOriginalToken, sourceSegmentForToken, hlatest, Option.map_none, Option.bind_none, hwaiting,
      createSegment, modifySegment, opened]
    simp [hsegments, modify_last]
  | some segment =>
    have hopen : segment.complete = false := hcurrent segment rfl
    have hget : a.segments[closed.length]? = some segment := by simp [hsegments]
    cases hsplits : splits segment token with
    | false =>
      refine ⟨closed, segment, _, .same hsplits, ?_⟩
      rw [splits] at hsplits
      simp only [applyOriginalToken, sourceSegmentForToken, hlatest, Option.map_some, Option.bind_some, hget,
        Option.filter_some, hopen, Bool.not_false, if_true, hsplits, modifySegment, opened]
      simp [hsegments, modify_last]
    | true =>
      refine ⟨closed ++ [segment.markComplete], _, _, .next hsplits, ?_⟩
      rw [splits] at hsplits
      simp only [applyOriginalToken, sourceSegmentForToken, hlatest, Option.map_some, Option.bind_some, hget,
        Option.filter_some, hopen, Bool.not_false, if_true, hsplits, createSegment, modifySegment, opened]
      simp only [hsegments, Option.toList_some, modify_last, List.length_append, List.length_singleton]
      have hlength : closed.length + 1 = (closed ++ [segment.markComplete]).length := by simp
      rw [hlength, modify_last]

end RealtimeUtteranceAssembler

end Zulangue.Assembler
