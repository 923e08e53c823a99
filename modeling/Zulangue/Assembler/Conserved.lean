import Zulangue.Assembler.Published

/-!
# No word is lost

Responses one after the other, each stored before the next one comes, then the end of the
stretch.
-/

namespace Zulangue.Assembler

/-! ## Finalizing -/

namespace RealtimeSegmentRevision

variable {segment : RealtimeSegmentRevision} {published : List AssembledRealtimeUtterance}

theorem core_completeFilled : segment.completeFilled.core = segment.core := by
  rw [completeFilled]
  split <;> rfl

theorem sourceText_completeFilled : segment.completeFilled.sourceText = segment.sourceText := by
  rw [completeFilled]
  split <;> rfl

theorem kept_completeFilled (h : Kept published segment) : Kept published segment.completeFilled := by
  rw [completeFilled]
  split
  · exact kept_markComplete h
  · exact h

theorem isEmpty_of_open (h : segment.completeFilled.complete = false) : segment.completeFilled.isEmpty = true := by
  rw [completeFilled] at h ⊢
  split at h
  · cases h
  · next hfilled =>
    rw [if_neg hfilled]
    simpa [h] using hfilled

theorem withoutDetached_of_not (h : segment.detaches = false) : segment.withoutDetached = segment := by
  rw [withoutDetached, h]
  rfl

theorem detaches_of_pending (h : segment.source.pending = "") : segment.detaches = false := by
  simp [detaches, h]

/-- A tail that stays is part of the text. -/
theorem sourceText_of_not_detaches (h : segment.detaches = false) :
    segment.sourceText = segment.source.committed ++ segment.source.pending := by
  by_cases hpending : segment.source.pending = ""
  · rw [sourceText_of_pending hpending, hpending, String.append_empty]
  · have hmatches : segment.pendingSourceMatchesCommittedIdentity = true := by
      simpa [detaches, hpending] using h
    rw [sourceText, hmatches]
    rfl

theorem sourceText_withoutDetached (h : segment.detaches = true) :
    segment.withoutDetached.sourceText = segment.source.committed := by
  rw [withoutDetached, if_pos h]
  exact sourceText_of_pending rfl

theorem core_withoutDetached (h : segment.detaches = true) :
    segment.withoutDetached.core = { segment.core with pending := "" } := by
  rw [withoutDetached, if_pos h]
  rfl

theorem kept_withoutDetached (h : Kept published segment) : Kept published segment.withoutDetached := by
  rw [withoutDetached]
  split
  · exact ⟨h.recorded, .inl rfl⟩
  · exact h

/-- A detached tail has no committed identity, so it is the text. -/
theorem sourceText_ofDetached (sessionId : String) (sequence : Nat) :
    (segment.ofDetached (new sessionId sequence)).sourceText = segment.source.pending := by
  have hmatches : (segment.ofDetached (new sessionId sequence)).pendingSourceMatchesCommittedIdentity = true := rfl
  rw [sourceText, hmatches]
  exact String.empty_append

end RealtimeSegmentRevision

namespace RealtimeUtteranceAssembler

variable {a : RealtimeUtteranceAssembler} {published : List AssembledRealtimeUtterance}
  {placed : List (Nat × SttStreamToken)} {tail : String}

/-- The segments before the last one have no tail. -/
theorem split_last (h : Frame.LastPending a.frame.cores tail) :
    ∃ front, ∃ last : Option RealtimeSegmentRevision, a.segments = front ++ last.toList ∧
      (∀ segment ∈ front, segment.source.pending = "") ∧
      joinTexts (last.toList.map fun segment => segment.source.pending) = tail := by
  obtain ⟨front, last, hcores, hfront, htail⟩ := h
  obtain ⟨front', rest, hsegments, rfl, hrest⟩ := List.map_eq_append_iff.mp hcores
  have hfront' : ∀ segment ∈ front', segment.source.pending = "" :=
    fun segment hsegment => hfront segment.core (List.mem_map_of_mem hsegment)
  cases last with
  | none =>
    rw [Option.toList_none, List.map_eq_nil_iff] at hrest
    subst hrest
    exact ⟨front', none, hsegments, hfront', htail⟩
  | some core =>
    obtain ⟨segment, rfl, rfl⟩ := List.map_eq_singleton_iff.mp hrest
    exact ⟨front', some segment, hsegments, hfront', htail⟩

/-- Nothing is detached, or the tail of the last segment is. -/
inductive Finalized (a : RealtimeUtteranceAssembler) (tail : String) : Prop
  | whole (hnone : ∀ segment ∈ a.segments, segment.detaches = false)
    (hsegments : a.finalized.segments = a.segments.map RealtimeSegmentRevision.completeFilled)
    (hnext : a.finalized.nextSequence = a.nextSequence)
  | detached {front : List RealtimeSegmentRevision} {last : RealtimeSegmentRevision}
    (hsplit : a.segments = front ++ [last]) (hlast : last.detaches = true)
    (hfront : ∀ segment ∈ front, segment.source.pending = "") (hpending : last.source.pending = tail)
    (hsegments : a.finalized.segments = (front ++ [last.withoutDetached] ++
      [last.ofDetached (.new a.sessionId a.nextSequence)]).map RealtimeSegmentRevision.completeFilled)
    (hnext : a.finalized.nextSequence = a.nextSequence + 1)

theorem sessionId_finalized : a.finalized.sessionId = a.sessionId := by
  have hadded : ∀ (detached : List RealtimeSegmentRevision) (b : RealtimeUtteranceAssembler),
      (detached.foldl addDetached b).sessionId = b.sessionId := by
    intro detached
    induction detached with
    | nil => exact fun _ => rfl
    | cons segment detached ih => exact fun b => ih (b.addDetached segment)
  exact hadded _ _

theorem finalized_cases (h : Frame.LastPending a.frame.cores tail) : a.Finalized tail := by
  obtain ⟨front, last, hsegments, hfront, htail⟩ := split_last h
  have hfrontDetaches : ∀ segment ∈ front, segment.detaches = false :=
    fun segment hsegment => RealtimeSegmentRevision.detaches_of_pending (hfront segment hsegment)
  have hwhole : (∀ segment ∈ a.segments, segment.detaches = false) → a.Finalized tail := by
    intro hnone
    have hfilter : a.segments.filter RealtimeSegmentRevision.detaches = [] := by
      rw [List.filter_eq_nil_iff]
      intro segment hsegment
      simp [hnone segment hsegment]
    have hkept : a.segments.map RealtimeSegmentRevision.withoutDetached = a.segments := by
      rw [List.map_congr_left fun segment hsegment =>
        RealtimeSegmentRevision.withoutDetached_of_not (hnone segment hsegment), List.map_id']
    refine .whole hnone ?_ ?_
    · simp only [finalized, hfilter, hkept, List.foldl_nil]
    · simp only [finalized, hfilter, List.foldl_nil]
  cases last with
  | none =>
    apply hwhole
    intro segment hsegment
    rw [hsegments, Option.toList_none, List.append_nil] at hsegment
    exact hfrontDetaches segment hsegment
  | some last =>
    cases hlast : last.detaches with
    | false =>
      apply hwhole
      intro segment hsegment
      rw [hsegments, List.mem_append] at hsegment
      rcases hsegment with hsegment | hsegment
      · exact hfrontDetaches segment hsegment
      · rw [Option.toList_some, List.mem_singleton] at hsegment
        rw [hsegment]
        exact hlast
    | true =>
      have hfilter : a.segments.filter RealtimeSegmentRevision.detaches = [last] := by
        have hnone : front.filter RealtimeSegmentRevision.detaches = [] := by
          rw [List.filter_eq_nil_iff]
          intro segment hsegment
          simp [hfrontDetaches segment hsegment]
        simp [hsegments, hnone, hlast]
      have hkept : a.segments.map RealtimeSegmentRevision.withoutDetached = front ++ [last.withoutDetached] := by
        rw [hsegments, List.map_append, List.map_congr_left fun segment hsegment =>
          RealtimeSegmentRevision.withoutDetached_of_not (hfrontDetaches segment hsegment), List.map_id']
        rfl
      refine .detached hsegments hlast hfront (by simpa using htail) ?_ ?_
      · simp only [finalized, hfilter, hkept, List.foldl_cons, List.foldl_nil, addDetached, createSegment, modifySegment,
          modify_last]
      · simp only [finalized, hfilter, List.foldl_cons, List.foldl_nil, addDetached, createSegment, modifySegment]

theorem placed_finalized (h : a.frame.Worded placed tail) : a.finalized.frame.Placed placed := by
  have hcores : ∀ segments : List RealtimeSegmentRevision,
      (segments.map RealtimeSegmentRevision.completeFilled).map RealtimeSegmentRevision.core =
        segments.map RealtimeSegmentRevision.core := by
    intro segments
    rw [List.map_map]
    exact List.map_congr_left fun segment _ => RealtimeSegmentRevision.core_completeFilled
  cases finalized_cases h.tail with
  | whole hnone hsegments hnext =>
    have hplaced := h.toPlaced.setPending rfl a.finalized.frame.complete a.finalized.frame.latest
    simp only [frame, hsegments, hcores, hnext, sessionId_finalized] at hplaced ⊢
    exact hplaced
  | @detached front last hsplit hlast hfront hpending hsegments hnext =>
    have hkept : Frame.Placed ⟨a.sessionId, a.nextSequence, (front ++ [last.withoutDetached]).map
        RealtimeSegmentRevision.core, [], none⟩ placed := by
      apply h.toPlaced.setPending
      simp only [frame, hsplit, List.map_append, List.map_singleton,
        RealtimeSegmentRevision.core_withoutDetached hlast]
    have hplaced := hkept.create (last.ofDetached (.new a.sessionId a.nextSequence)).core rfl rfl rfl
      a.finalized.frame.complete a.finalized.frame.latest
    simp only [frame, hsegments, hcores, hnext, sessionId_finalized, List.map_append, List.map_singleton,
      RealtimeSegmentRevision.core_completeFilled] at hplaced ⊢
    exact hplaced

/-- The texts of the segments are the words, with the tail behind them. -/
theorem sourceText_finalized (h : a.frame.Worded placed tail) :
    joinTexts (a.finalized.segments.map RealtimeSegmentRevision.sourceText) =
      textsOf (placed.map Prod.snd) ++ tail := by
  have htexts : ∀ segments : List RealtimeSegmentRevision,
      (segments.map RealtimeSegmentRevision.completeFilled).map RealtimeSegmentRevision.sourceText =
        segments.map RealtimeSegmentRevision.sourceText := by
    intro segments
    rw [List.map_map]
    exact List.map_congr_left fun segment _ => RealtimeSegmentRevision.sourceText_completeFilled
  have hfrontTexts : ∀ front : List RealtimeSegmentRevision, (∀ segment ∈ front, segment.source.pending = "") →
      front.map RealtimeSegmentRevision.sourceText = front.map fun segment => segment.source.committed :=
    fun front hfront => List.map_congr_left fun segment hsegment =>
      RealtimeSegmentRevision.sourceText_of_pending (hfront segment hsegment)
  have hwords : joinTexts (a.segments.map fun segment => segment.source.committed) =
      textsOf (placed.map Prod.snd) := by
    rw [← h.words, frame, List.map_map]
    rfl
  rw [← hwords]
  cases finalized_cases h.tail with
  | whole hnone hsegments hnext =>
    obtain ⟨front, last, hsplit, hfront, htail⟩ := split_last h.tail
    rw [hsegments, htexts]
    rw [hsplit] at hnone ⊢
    rw [List.map_append, List.map_append, hfrontTexts front hfront, joinTexts_append, joinTexts_append, ← htail,
      String.append_assoc]
    cases last with
    | none => rfl
    | some last =>
      have htext := RealtimeSegmentRevision.sourceText_of_not_detaches (hnone last (by simp))
      simp [htext]
  | @detached front last hsplit hlast hfront hpending hsegments hnext =>
    rw [hsegments, htexts, hsplit]
    simp only [List.map_append, List.map_singleton, joinTexts_append, joinTexts_singleton, hfrontTexts front hfront,
      RealtimeSegmentRevision.sourceText_withoutDetached hlast, RealtimeSegmentRevision.sourceText_ofDetached, hpending]

theorem settled_finalized (htail : Frame.LastPending a.frame.cores tail) (h : a.Settled published) :
    a.finalized.Settled published := by
  cases finalized_cases htail with
  | whole hnone hsegments hnext =>
    constructor
    · intro segment hsegment
      rw [hsegments] at hsegment
      obtain ⟨old, hold, rfl⟩ := List.mem_map.mp hsegment
      exact RealtimeSegmentRevision.kept_completeFilled (h.kept old hold)
    · rw [hnext, sessionId_finalized]
      exact h.unused
  | @detached front last hsplit hlast hfront hpending hsegments hnext =>
    have hold : ∀ segment ∈ front ++ [last.withoutDetached], Kept published segment := by
      intro segment hsegment
      rcases List.mem_append.mp hsegment with hsegment | hsegment
      · exact h.kept segment (hsplit ▸ List.mem_append_left _ hsegment)
      · rw [List.mem_singleton.mp hsegment]
        exact RealtimeSegmentRevision.kept_withoutDetached (h.kept last (hsplit ▸ by simp))
    constructor
    · intro segment hsegment
      rw [hsegments] at hsegment
      obtain ⟨old, hmem, rfl⟩ := List.mem_map.mp hsegment
      apply RealtimeSegmentRevision.kept_completeFilled
      rcases List.mem_append.mp hmem with hmem | hmem
      · exact hold old hmem
      · rw [List.mem_singleton.mp hmem]
        exact ⟨fun _ => h.unused a.nextSequence (Nat.le_refl _), .inl rfl⟩
    · rw [hnext, sessionId_finalized]
      intro n hn
      exact h.unused n (Nat.le_of_succ_le hn)

theorem isEmpty_of_finalized_open {segment : RealtimeSegmentRevision} (h : segment ∈ a.finalized.segments)
    (hopen : segment.complete = false) : segment.isEmpty = true := by
  obtain ⟨old, -, rfl⟩ := List.mem_map.mp h
  exact RealtimeSegmentRevision.isEmpty_of_open hopen

end RealtimeUtteranceAssembler

/-! ## A stretch of responses -/

open RealtimeUtteranceAssembler

/-- The tokens of a response and what the store answers to its updates. -/
structure Response where
  tokens : List SttStreamToken
  answer : AssembledRealtimeUtterance → StoreAnswer

/-- The assembler, all updates, and the segments that took the final source tokens. -/
structure History where
  assembler : RealtimeUtteranceAssembler
  published : List AssembledRealtimeUtterance
  placed : List (Nat × SttStreamToken)

namespace History

/-- A response is applied, and its updates are stored before the next one comes. -/
def respond (h : History) (response : Response) : History :=
  let applied := h.assembler.applyTokens response.tokens
  { assembler := applied.1.persistAssembledUtterances response.answer applied.2
    published := h.published ++ applied.2
    placed := h.placed ++ h.assembler.placedBy response.tokens }

def run (a : RealtimeUtteranceAssembler) (responses : List Response) : History :=
  responses.foldl respond { assembler := a.advance, published := [], placed := [] }

def finalize (h : History) : History :=
  { h with assembler := h.assembler.finalize.1, published := h.published ++ h.assembler.finalize.2 }

end History

/-- The final source tokens in the order they came. -/
def finalTokens (responses : List Response) : List SttStreamToken :=
  responses.flatMap fun response => finalsOf response.tokens

/-- The other source tokens of the last response. -/
def lastTail (responses : List Response) : List SttStreamToken :=
  (responses.getLast?.map fun response => tailOf response.tokens).getD []

theorem snd_placedBy (a : RealtimeUtteranceAssembler) (tokens : List SttStreamToken) :
    (a.placedBy tokens).map Prod.snd = finalsOf tokens := by
  have hfilter : ∀ entries : List (Nat × SttStreamToken),
      (entries.filter fun entry => entry.2.isFinal).map Prod.snd =
        (entries.map Prod.snd).filter SttStreamToken.isFinal := by
    intro entries
    rw [List.filter_map]
    rfl
  rw [placedBy, hfilter, snd_placements, finalsOf]

/-- What holds between responses. -/
theorem history_run (a : RealtimeUtteranceAssembler) {responses : List Response}
    (hordered : ∀ response ∈ responses, FinalsFirst response.tokens) :
    (History.run a responses).assembler.frame.Worded (History.run a responses).placed (textsOf (lastTail responses)) ∧
      (History.run a responses).assembler.Settled (History.run a responses).published ∧
      (History.run a responses).placed.map Prod.snd = finalTokens responses := by
  induction responses using List.reverseRecOn with
  | nil =>
    refine ⟨?_, ⟨by simp [History.run, advance], fun _ _ => rfl⟩, rfl⟩
    refine { words := rfl, known := ?_, held := ?_, identified := ?_, numbered := ?_, ascending := ?_,
             current := ⟨[], none, rfl, rfl, rfl⟩, tail := ⟨[], none, rfl, by simp, rfl⟩ }
    all_goals simp [History.run, advance, frame]
  | append_singleton responses response ih =>
    obtain ⟨hworded, hsettled, htokens⟩ := ih fun other hother => hordered other (List.mem_append_left _ hother)
    have hfirst := hordered response (by simp)
    have hrun : History.run a (responses ++ [response]) = (History.run a responses).respond response := by
      simp [History.run]
    rw [hrun]
    generalize History.run a responses = h at hworded hsettled htokens
    have happlied : ((h.assembler.beginResponse.applyOriginalTokens response.tokens).applyTranslationTokens
        response.tokens).frame.Worded (h.placed ++ h.assembler.placedBy response.tokens)
        (textsOf (tailOf response.tokens)) := by
      rw [frame_applyTranslationTokens]
      exact worded_originals hworded hfirst
    have hkept := settled_applied hsettled response.tokens
    have htaken := worded_applyTokens hworded hfirst
    have hawaiting : ∀ segment ∈ (h.assembler.applyTokens response.tokens).1.segments,
        Awaiting (h.assembler.applyTokens response.tokens).2
          (h.published ++ (h.assembler.applyTokens response.tokens).2) segment :=
      fun segment hsegment => awaiting_takeDirtyUpdates hkept (nodup_segmentIds happlied.toPlaced) hsegment
    have hunused := unused_takeDirtyUpdates happlied.toPlaced hkept
    have hlast : lastTail (responses ++ [response]) = tailOf response.tokens := by simp [lastTail]
    rw [hlast]
    refine ⟨worded_persistAssembledUtterances htaken _ _,
      settled_persistAssembledUtterances htaken hawaiting hunused _, ?_⟩
    rw [History.respond, List.map_append, htokens, snd_placedBy]
    simp [finalTokens]

/-- The words, their order, where they went and what was published of them. -/
structure Conserved (responses : List Response) (h : History) : Prop where
  words : joinTexts (h.assembler.segments.map RealtimeSegmentRevision.sourceText) =
    textsOf (finalTokens responses) ++ textsOf (lastTail responses)
  ascending : (h.assembler.segments.map RealtimeSegmentRevision.sequence).Pairwise (· < ·)
  placed : h.placed.map Prod.snd = finalTokens responses
  held : ∀ index segment, h.assembler.segments[index]? = some segment →
    segment.source.committed = textsOf (Frame.placedAt h.placed index)
  published : ∀ segment ∈ h.assembler.segments, lastPublished h.published segment.id = segment.sourceText

/-- No two final tokens with text share a segment under different languages. -/
def LanguagesApart (placed : List (Nat × SttStreamToken)) : Prop :=
  ∀ index one other, (index, one) ∈ placed → (index, other) ∈ placed → one.text ≠ "" → other.text ≠ "" →
    ∀ language language', one.originalLanguage = some language → other.originalLanguage = some language' →
      language = language'

/-- No two final tokens with text share a segment under different speakers. -/
def SpeakersApart (placed : List (Nat × SttStreamToken)) : Prop :=
  ∀ index one other, (index, one) ∈ placed → (index, other) ∈ placed → one.text ≠ "" → other.text ≠ "" →
    ∀ speaker speaker', one.providerSpeaker = some speaker → other.providerSpeaker = some speaker' →
      speaker = speaker'

theorem Frame.Placed.languagesApart {f : Frame} {placed : List (Nat × SttStreamToken)} (h : f.Placed placed) :
    LanguagesApart placed := by
  intro index one other hone hother honeText hotherText language language' hlanguage hlanguage'
  obtain ⟨core, hcore, hidentified⟩ := h.identified _ hone honeText
  obtain ⟨core', hcore', hidentified'⟩ := h.identified _ hother hotherText
  obtain rfl : core = core' := Option.some.inj (hcore.symm.trans hcore')
  exact Option.some.inj ((hidentified.language _ hlanguage).symm.trans (hidentified'.language _ hlanguage'))

theorem Frame.Placed.speakersApart {f : Frame} {placed : List (Nat × SttStreamToken)} (h : f.Placed placed)
    (hlabelled : Frame.Labelled placed) : SpeakersApart placed := by
  intro index one other hone hother honeText hotherText speaker speaker' hspeaker hspeaker'
  obtain ⟨core, hcore, hidentified⟩ := h.identified _ hone honeText
  obtain ⟨core', hcore', hidentified'⟩ := h.identified _ hother hotherText
  obtain rfl : core = core' := Option.some.inj (hcore.symm.trans hcore')
  exact Option.some.inj ((hidentified.speaker hlabelled _ hspeaker).symm.trans
    (hidentified'.speaker hlabelled _ hspeaker'))

/-- Whatever responses came, all source words are in the segments once, in order, and published. -/
theorem assembler_conserves_words (a : RealtimeUtteranceAssembler) {responses : List Response}
    (hordered : ∀ response ∈ responses, FinalsFirst response.tokens) :
    Conserved responses (History.run a responses).finalize ∧
      LanguagesApart (History.run a responses).finalize.placed ∧
      ((∀ token ∈ finalTokens responses, token.providerSpeaker ≠ some "und") →
        SpeakersApart (History.run a responses).finalize.placed) := by
  obtain ⟨hworded, hsettled, htokens⟩ := history_run a hordered
  generalize History.run a responses = h at hworded hsettled htokens
  have hplaced := placed_finalized hworded
  have hkept := settled_finalized hworded.tail hsettled
  have hsegments : ∀ {β : Type} (g : RealtimeSegmentRevision → β),
      (∀ segment, g { segment with sourceDirty := false, translationDirty := false } = g segment) →
      h.finalize.assembler.segments.map g = h.assembler.finalized.segments.map g := by
    intro β g hg
    rw [History.finalize, RealtimeUtteranceAssembler.finalize, takeDirtyUpdates, List.map_map]
    exact List.map_congr_left fun segment _ => hg segment
  refine ⟨?_, hplaced.languagesApart, ?_⟩
  · constructor
    · rw [hsegments _ fun _ => rfl, sourceText_finalized hworded, htokens]
    · rw [hsegments _ fun _ => rfl]
      have hascending := hplaced.ascending
      rw [frame, List.map_map] at hascending
      exact hascending
    · exact htokens
    · intro index segment hsegment
      have hcommitted := congrArg (fun texts => texts[index]?)
        (hsegments (fun segment => segment.core) fun _ => rfl)
      simp only [List.getElem?_map, hsegment, Option.map_some] at hcommitted
      apply hplaced.held index segment.core
      rw [frame, List.getElem?_map]
      exact hcommitted.symm
    · intro segment hsegment
      have hawaiting := awaiting_takeDirtyUpdates hkept (nodup_segmentIds hplaced) hsegment
      rcases hawaiting.shown with hshown | ⟨hshown, hopen⟩
      · exact hshown
      · obtain ⟨old, hold, rfl⟩ := List.mem_map.mp hsegment
        have hempty := isEmpty_of_finalized_open hold hopen
        simp only [RealtimeSegmentRevision.isEmpty, LaneRevision.isEmpty, Bool.and_eq_true, decide_eq_true_eq]
          at hempty
        have htext : old.sourceText = "" := by
          rw [RealtimeSegmentRevision.sourceText_of_pending hempty.1.2, hempty.1.1]
        exact hshown.trans htext.symm
  · intro hlabelled
    apply hplaced.speakersApart
    intro entry hentry
    apply hlabelled
    rw [← htokens]
    exact List.mem_map_of_mem hentry

namespace Sample

def lane : RealtimeUtteranceAssembler :=
  { sessionId := "s", selectedLanguages := ["en", "fr"], captureMode := .twoWay, commonCaptionLanguage := none,
    nextSequence := 0, segments := [], latestOriginalSegment := none, latestTranslationSegment := none,
    unattachedTranslationTokens := 0 }

def token (text : String) (isFinal : Bool) (language speaker : Option String) : SttStreamToken :=
  { text, startMs := none, endMs := none, isFinal, translationStatus := .original, language,
    sourceLanguage := none, speaker }

def stored (tokens : List SttStreamToken) : Response :=
  { tokens, answer := fun _ => { revision := 1, shell := none } }

end Sample

theorem assembler_conserves_words_greeting :
    Conserved [Sample.stored [Sample.token "Hello" true (some "en") none, Sample.token " there" false none none]]
        (History.run Sample.lane
          [Sample.stored [Sample.token "Hello" true (some "en") none, Sample.token " there" false none none]]).finalize ∧
      LanguagesApart (History.run Sample.lane
        [Sample.stored [Sample.token "Hello" true (some "en") none, Sample.token " there" false none none]]).finalize.placed ∧
      ((∀ token ∈ finalTokens
          [Sample.stored [Sample.token "Hello" true (some "en") none, Sample.token " there" false none none]],
          token.providerSpeaker ≠ some "und") →
        SpeakersApart (History.run Sample.lane
          [Sample.stored [Sample.token "Hello" true (some "en") none, Sample.token " there" false none none]]).finalize.placed) :=
  assembler_conserves_words Sample.lane (by
    intro response hresponse
    rw [List.mem_singleton.mp hresponse]
    decide)

/-- A final token without text leaves its segment to the next language, and a speaker called `und`
stands between two others. -/
theorem identities_share_segment :
    (History.run Sample.lane [Sample.stored
        [Sample.token "" true (some "en") none, Sample.token "oui" true (some "fr") none]]).finalize.placed =
        [(0, Sample.token "" true (some "en") none), (0, Sample.token "oui" true (some "fr") none)] ∧
      (Sample.token "" true (some "en") none).originalLanguage = some "en" ∧
      (Sample.token "oui" true (some "fr") none).originalLanguage = some "fr" ∧
      (History.run Sample.lane [Sample.stored
        [Sample.token "a" true none (some "1"), Sample.token "b" true none (some "und"),
          Sample.token "c" true none (some "2")]]).finalize.placed =
        [(0, Sample.token "a" true none (some "1")), (0, Sample.token "b" true none (some "und")),
          (0, Sample.token "c" true none (some "2"))] := by
  decide

end Zulangue.Assembler
