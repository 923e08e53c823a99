import Mathlib.Data.List.Infix
import Zulangue.Lib.Ranking
import Zulangue.Capture.Model

/-!
# Two matchers for one auxiliary segment

Which canonical row an auxiliary translation belongs to is decided twice:
`ranked_canonical_sequences` of `vt-ffi/src/notebook_capture_api.rs` for the live capture,
`unique_translation_inbox_candidate` of `vt-store/src/notebook_capture_store.rs` for the
durable inbox. The evidence is the same but for the rounding of the midpoint distance.
Unicode's `char::to_lowercase` is a parameter; nothing depends on it.
-/

namespace Zulangue.Capture

open Std Zulangue.Lib.Text Zulangue.Lib.Word Zulangue.Lib.Ranking

/-! ## The evidence of the texts -/

inductive SourceTextAlignment where
  | exact
  | contained (canonicalChars : Nat)
  | unrelated
  deriving DecidableEq, Repr

def minimumContainedAlignmentChars : Nat := 2

def isAsciiPunctuation (c : Char) : Bool :=
  (0x21 ≤ c.toNat && c.toNat ≤ 0x2f) || (0x3a ≤ c.toNat && c.toNat ≤ 0x40) ||
    (0x5b ≤ c.toNat && c.toNat ≤ 0x60) || (0x7b ≤ c.toNat && c.toNat ≤ 0x7e)

def isAlignmentNoise (c : Char) : Bool :=
  if isWhitespace c then true
  else if c.toNat < 0x80 then isAsciiPunctuation c
  else c.toNat = 0xa1 || c.toNat = 0xa7 || c.toNat = 0xb6 || c.toNat = 0xb7 || c.toNat = 0xbf ||
    (0x2000 ≤ c.toNat && c.toNat ≤ 0x206f) || (0x3000 ≤ c.toNat && c.toNat ≤ 0x303f) ||
    (0xff01 ≤ c.toNat && c.toNat ≤ 0xff0f) || (0xff1a ≤ c.toNat && c.toNat ≤ 0xff20) ||
    (0xff3b ≤ c.toNat && c.toNat ≤ 0xff40) || (0xff5b ≤ c.toNat && c.toNat ≤ 0xff65)

section
variable (toLowercase : Char → List Char)

def normalizedAlignmentText (value : String) : List Char :=
  (value.toList.filter fun c => !isAlignmentNoise c).flatMap toLowercase

def alignSourceText (auxiliary canonical : String) : SourceTextAlignment :=
  let auxiliary := normalizedAlignmentText toLowercase auxiliary
  if auxiliary.isEmpty then .unrelated
  else
    let canonical := normalizedAlignmentText toLowercase canonical
    if auxiliary = canonical then .exact
    else if minimumContainedAlignmentChars ≤ auxiliary.length ∧ auxiliary <:+: canonical then
      .contained canonical.length
    else .unrelated

/-! ## The score of a row -/

/-- `TimelineAlignmentScore` and `TranslationInboxAlignmentScore`. -/
structure AlignmentScore where
  exactSourceText : Bool
  containedSourceText : Bool
  canonicalTextChars : Nat
  overlapPerMille : Nat
  sourceLanguageMatches : Bool
  midpointDistanceMs : Nat
  sequence : Nat
  deriving DecidableEq, Repr

def timestampOverlapPerMille (leftStart leftEnd rightStart rightEnd : Nat) : Option Nat :=
  if leftEnd < leftStart ∨ rightEnd < rightStart then none
  else
    let intersectionStart := max leftStart rightStart
    let intersectionEnd := min leftEnd rightEnd
    if intersectionEnd < intersectionStart ∨
        (leftStart < leftEnd ∧ rightStart < rightEnd ∧ intersectionEnd = intersectionStart) then
      none
    else
      let shorter := min (leftEnd - leftStart) (rightEnd - rightStart)
      if shorter = 0 then some 1000
      else some (min ((intersectionEnd - intersectionStart) * 1000 / shorter) 1000)

/-- The evidence of the texts and languages alone. -/
def textScore (sourceText : String) (sourceLanguageMatches : Bool) (utterance : RealtimeUtterance) :
    AlignmentScore :=
  let alignment := alignSourceText toLowercase sourceText utterance.sourceText
  { exactSourceText := alignment = .exact
    containedSourceText := match alignment with
      | .contained _ => true
      | _ => false
    canonicalTextChars := match alignment with
      | .contained canonicalChars => canonicalChars
      | _ => u64Max
    overlapPerMille := 0
    sourceLanguageMatches
    midpointDistanceMs := u64Max
    sequence := utterance.sequence }

/-- What both matchers make of one row. `distance` is taken of the two interval sums; an
interval that is missing leaves the text as the only evidence. -/
def alignmentScore (distance : Nat → Nat → Nat) (sourceText : String)
    (startMs endMs : Option Nat) (sourceLanguageMatches : Bool) (utterance : RealtimeUtterance) :
    Option AlignmentScore :=
  let score := textScore toLowercase sourceText sourceLanguageMatches utterance
  match startMs, endMs, utterance.sourceStartMs, utterance.sourceEndMs with
  | some leftStart, some leftEnd, some rightStart, some rightEnd =>
    if leftEnd < leftStart ∨ rightEnd < rightStart then none
    else (timestampOverlapPerMille leftStart leftEnd rightStart rightEnd).map fun overlapPerMille =>
      { score with
        overlapPerMille
        midpointDistanceMs :=
          distance (saturatingAdd leftStart leftEnd) (saturatingAdd rightStart rightEnd) }
  | _, _, _, _ => if score.exactSourceText || score.containedSourceText then some score else none

/-- `sort_by` of both matchers, best first. -/
def compareScores (left right : AlignmentScore) : Ordering :=
  (compare right.exactSourceText left.exactSourceText).then <|
  (compare right.containedSourceText left.containedSourceText).then <|
  (compare left.canonicalTextChars right.canonicalTextChars).then <|
  (compare right.overlapPerMille left.overlapPerMille).then <|
  (compare right.sourceLanguageMatches left.sourceLanguageMatches).then <|
  (compare left.midpointDistanceMs right.midpointDistanceMs).then <|
  compare left.sequence right.sequence

/-- `timeline_alignment_evidence_eq` and `translation_inbox_evidence_eq`. -/
def evidenceEq (left right : AlignmentScore) : Bool :=
  left.exactSourceText == right.exactSourceText &&
  left.containedSourceText == right.containedSourceText &&
  left.canonicalTextChars == right.canonicalTextChars &&
  left.overlapPerMille == right.overlapPerMille &&
  left.sourceLanguageMatches == right.sourceLanguageMatches &&
  left.midpointDistanceMs == right.midpointDistanceMs

/-! ## The runtime's matcher -/

structure CanonicalUtteranceMatch where
  groupEpoch : Nat
  utterance : RealtimeUtterance
  deriving DecidableEq, Repr

structure PendingTranslationVariant where
  sessionId : String
  groupEpoch : Nat
  sourceSequence : Nat
  sourceLanguage : String
  sourceText : String
  sourceStartMs : Option Nat
  sourceEndMs : Option Nat
  targetLanguage : String
  completion : UtteranceCompletion
  reverseConflictWarned : Bool
  deriving DecidableEq, Repr

def pendingTranslationFromInbox (item : RealtimeTranslationInboxItem) :
    Option PendingTranslationVariant :=
  if item.withdrawn ∨ item.boundSequence.isSome then none
  else do
    let _ ← item.translatedText
    let completion ← item.completion
    return {
      sessionId := item.key.sessionId
      groupEpoch := item.key.groupEpoch
      sourceSequence := item.key.providerSequence
      sourceLanguage := normalizeLanguage item.sourceLanguage
      sourceText := item.sourceText
      sourceStartMs := item.sourceStartMs
      sourceEndMs := item.sourceEndMs
      targetLanguage := normalizeLanguage item.key.targetLanguage
      completion
      reverseConflictWarned := false }

/-- The runtime halves the sums, then takes their difference. -/
def timelineDistance (left right : Nat) : Nat := absDiff (left / 2) (right / 2)

def timelineAlignmentScore (pending : PendingTranslationVariant)
    (candidate : CanonicalUtteranceMatch) : Option AlignmentScore :=
  if candidate.groupEpoch ≠ pending.groupEpoch then none
  else alignmentScore toLowercase timelineDistance pending.sourceText pending.sourceStartMs
    pending.sourceEndMs
    (normalizeLanguage candidate.utterance.sourceLanguage = pending.sourceLanguage)
    candidate.utterance

def rankedCanonicalSequences (pending : PendingTranslationVariant)
    (candidates : List CanonicalUtteranceMatch) : List Nat :=
  let ranked := sortBy (fun left right => compareScores left.1 right.1)
    (candidates.filterMap fun candidate =>
      (timelineAlignmentScore toLowercase pending candidate).map (·, candidate))
  let equallySupported := leaders (fun best score => evidenceEq best.1 score.1)
    (·.2.utterance.sequence) ranked
  if 1 < equallySupported.length then [] else ranked.map (·.2.utterance.sequence)

/-! ## The store's matcher -/

/-- The store takes the difference of the sums, then halves it. -/
def translationInboxDistance (left right : Nat) : Nat := absDiff left right / 2

def translationInboxAlignmentScore (item : RealtimeTranslationInboxItem)
    (utterance : RealtimeUtterance) : Option AlignmentScore :=
  alignmentScore toLowercase translationInboxDistance item.sourceText item.sourceStartMs
    item.sourceEndMs
    (canonicalLanguage item.sourceLanguage = canonicalLanguage utterance.sourceLanguage) utterance

def uniqueTranslationInboxCandidate (item : RealtimeTranslationInboxItem)
    (candidates : List RealtimeUtterance) : Option Nat :=
  let ranked := sortBy (fun left right => compareScores left.1 right.1)
    (candidates.filterMap fun candidate =>
      (translationInboxAlignmentScore toLowercase item candidate).map (·, candidate))
  match ranked with
  | [] => none
  | best :: rest =>
    let equallySupported := leaders (fun best score => evidenceEq best.1 score.1)
      (·.2.sequence) (best :: rest)
    if equallySupported.length = 1 then some best.2.sequence else none

/-! ## What each matcher chooses -/

/-- All of a score but the midpoint distance and the number of the row. -/
def compareSupport (left right : AlignmentScore) : Ordering :=
  (compare right.exactSourceText left.exactSourceText).then <|
  (compare right.containedSourceText left.containedSourceText).then <|
  (compare left.canonicalTextChars right.canonicalTextChars).then <|
  (compare right.overlapPerMille left.overlapPerMille).then <|
  compare right.sourceLanguageMatches left.sourceLanguageMatches

instance : TransCmp compareSupport :=
  inferInstanceAs (TransCmp
    (compareLex (fun a b : AlignmentScore => compareOn AlignmentScore.exactSourceText b a)
    (compareLex (fun a b : AlignmentScore => compareOn AlignmentScore.containedSourceText b a)
    (compareLex (compareOn AlignmentScore.canonicalTextChars)
    (compareLex (fun a b : AlignmentScore => compareOn AlignmentScore.overlapPerMille b a)
      (fun a b : AlignmentScore => compareOn AlignmentScore.sourceLanguageMatches b a))))))

section
variable {γ : Type*}

/-- The ranking of both matchers, on rows that carry their scores. -/
def bySupport (left right : AlignmentScore × γ) : Ordering := compareSupport left.1 right.1

def distanceOf (scored : AlignmentScore × γ) : Nat := scored.1.midpointDistanceMs

instance : TransCmp (bySupport (γ := γ)) where
  eq_swap := fun {a b} => @OrientedCmp.eq_swap _ compareSupport _ a.1 b.1
  isLE_trans := fun {a b c} => @TransCmp.isLE_trans _ compareSupport _ a.1 b.1 c.1

theorem compareScores_eq :
    (fun left right : AlignmentScore × γ => compareScores left.1 right.1) =
      compareLex (byDistance bySupport distanceOf) (compareOn fun scored => scored.1.sequence) := by
  funext left right
  simp only [compareScores, compareLex, byDistance, bySupport, compareSupport, compareOn, distanceOf,
    Ordering.then_assoc]

theorem evidenceEq_eq (left right : AlignmentScore × γ) :
    evidenceEq left.1 right.1 = (byDistance bySupport distanceOf left right == .eq) := by
  rw [Bool.eq_iff_iff]
  simp only [evidenceEq, byDistance, compareLex, bySupport, compareSupport, compareOn, distanceOf,
    Bool.and_eq_true, beq_iff_eq, Ordering.then_eq_eq, Std.compare_eq_iff_eq]
  grind

/-- The one best row, if there is one. -/
def chosen (number : γ → Nat) (items : List (AlignmentScore × γ)) : Option Nat :=
  match sortBy (fun left right => compareScores left.1 right.1) items with
  | [] => none
  | best :: rest =>
    if (leaders (fun best score => evidenceEq best.1 score.1) (fun scored => number scored.2)
        (best :: rest)).length = 1 then some (number best.2)
    else none

theorem chosen_eq_some {number : γ → Nat} {items : List (AlignmentScore × γ)} {n : Nat} :
    chosen number items = some n ↔
      Leads (byDistance bySupport distanceOf) (fun scored => number scored.2) items n := by
  have trans : TransCmp (byDistance (bySupport (γ := γ)) distanceOf) :=
    inferInstanceAs (TransCmp (compareLex bySupport (compareOn distanceOf)))
  rw [chosen]
  split
  · next hsort =>
    rw [sortBy_eq_nil] at hsort
    rw [hsort]
    constructor
    · intro h
      cases h
    · rintro ⟨x, hx, -⟩
      cases hx
  · next best rest hsort =>
    rw [compareScores_eq] at hsort
    rw [← leads_iff (fun a b => evidenceEq_eq a b) hsort n, Option.ite_none_right_eq_some,
      Option.some.injEq]

end

theorem rankedCanonicalSequences_head (pending : PendingTranslationVariant)
    (candidates : List CanonicalUtteranceMatch) :
    (rankedCanonicalSequences toLowercase pending candidates).head? =
      chosen (fun candidate : CanonicalUtteranceMatch => candidate.utterance.sequence)
        (candidates.filterMap fun candidate =>
          (timelineAlignmentScore toLowercase pending candidate).map (·, candidate)) := by
  rw [rankedCanonicalSequences, chosen]
  generalize sortBy _ _ = ranked
  cases ranked with
  | nil => rfl
  | cons best rest =>
    have hself : evidenceEq best.1 best.1 = true := by simp [evidenceEq]
    have hpos : 0 < (leaders (fun best score => evidenceEq best.1 score.1)
        (fun scored => scored.2.utterance.sequence) (best :: rest)).length := by
      apply List.length_pos_of_mem (a := best.2.utterance.sequence)
      rw [leaders, List.takeWhile_cons, if_pos hself]
      exact List.mem_dedup.mpr List.mem_cons_self
    simp only
    split
    · next hmany =>
      rw [if_neg (by omega)]
      rfl
    · next hfew =>
      rw [if_pos (by omega)]
      rfl

theorem uniqueTranslationInboxCandidate_eq (item : RealtimeTranslationInboxItem)
    (candidates : List RealtimeUtterance) :
    uniqueTranslationInboxCandidate toLowercase item candidates =
      chosen (fun candidate : RealtimeUtterance => candidate.sequence)
        (candidates.filterMap fun candidate =>
          (translationInboxAlignmentScore toLowercase item candidate).map (·, candidate)) := by
  rw [uniqueTranslationInboxCandidate, chosen]
  simp only
  generalize sortBy _ _ = ranked
  cases ranked <;> rfl

/-! ## Where the rounding makes a difference -/

/-- The sums of both intervals, where all four times are known. -/
def intervalSums (startMs endMs : Option Nat) (utterance : RealtimeUtterance) : Option (Nat × Nat) :=
  match startMs, endMs, utterance.sourceStartMs, utterance.sourceEndMs with
  | some leftStart, some leftEnd, some rightStart, some rightEnd =>
    some (saturatingAdd leftStart leftEnd, saturatingAdd rightStart rightEnd)
  | _, _, _, _ => none

/-- The midpoints lie half a millisecond off, on the side where halving each sum first
takes it away from the other. -/
def RoundedCloser (item : RealtimeTranslationInboxItem) (utterance : RealtimeUtterance) : Prop :=
  ∃ left right, intervalSums item.sourceStartMs item.sourceEndMs utterance = some (left, right) ∧
    (left % 2 = 0 ∧ right % 2 = 1 ∧ right < left ∨ left % 2 = 1 ∧ right % 2 = 0 ∧ left < right)

theorem timelineDistance_eq (left right : Nat) :
    timelineDistance left right = translationInboxDistance left right +
      if left % 2 = 0 ∧ right % 2 = 1 ∧ right < left ∨ left % 2 = 1 ∧ right % 2 = 0 ∧ left < right
      then 1 else 0 := by
  simp only [timelineDistance, translationInboxDistance, absDiff]
  split <;> omega

/-- A score with the store's distance. -/
def restate (item : RealtimeTranslationInboxItem) (scored : AlignmentScore × RealtimeUtterance) :
    AlignmentScore × RealtimeUtterance :=
  match intervalSums item.sourceStartMs item.sourceEndMs scored.2 with
  | some (left, right) =>
    ({ scored.1 with midpointDistanceMs := translationInboxDistance left right }, scored.2)
  | none => scored

/-- The rows an item can belong to, with the scores of the runtime. -/
def evidence (item : RealtimeTranslationInboxItem) (rows : List RealtimeUtterance) :
    List (AlignmentScore × RealtimeUtterance) :=
  rows.filterMap fun utterance =>
    (alignmentScore toLowercase timelineDistance item.sourceText item.sourceStartMs item.sourceEndMs
      (canonicalLanguage item.sourceLanguage = canonicalLanguage utterance.sourceLanguage)
      utterance).map (·, utterance)

theorem alignmentScore_restate (item : RealtimeTranslationInboxItem) (sourceLanguageMatches : Bool)
    (utterance : RealtimeUtterance) :
    (alignmentScore toLowercase translationInboxDistance item.sourceText item.sourceStartMs
        item.sourceEndMs sourceLanguageMatches utterance).map (·, utterance) =
      ((alignmentScore toLowercase timelineDistance item.sourceText item.sourceStartMs
        item.sourceEndMs sourceLanguageMatches utterance).map (·, utterance)).map (restate item) := by
  simp only [alignmentScore]
  split
  · next leftStart leftEnd rightStart rightEnd hls hle hrs hre =>
    split
    · rfl
    · cases timestampOverlapPerMille leftStart leftEnd rightStart rightEnd with
      | none => rfl
      | some overlap =>
        simp only [Option.map_some, restate, intervalSums, hls, hle, hrs, hre]
  · next hnot =>
    split
    · have hsums : intervalSums item.sourceStartMs item.sourceEndMs utterance = none := by
        unfold intervalSums
        split
        · next hls hle hrs hre => exact absurd hre (hnot _ _ _ _ hls hle hrs)
        · rfl
      simp only [Option.map_some, restate, hsums]
    · rfl

/-- The store ranks the same rows with restated scores. -/
theorem store_evidence (item : RealtimeTranslationInboxItem) (rows : List RealtimeUtterance) :
    (rows.filterMap fun candidate =>
      (translationInboxAlignmentScore toLowercase item candidate).map (·, candidate)) =
      (evidence toLowercase item rows).map (restate item) := by
  rw [evidence, List.map_filterMap]
  congr 1
  funext candidate
  exact alignmentScore_restate toLowercase item _ candidate

/-- The runtime ranks the same rows with the same scores. -/
theorem mem_runtime_evidence {item : RealtimeTranslationInboxItem}
    {pending : PendingTranslationVariant} (hpending : pendingTranslationFromInbox item = some pending)
    (hepoch : item.key.groupEpoch = 0) {rows : List RealtimeUtterance}
    {candidates : List CanonicalUtteranceMatch}
    (hcandidates : candidates.Perm (rows.map fun utterance => ⟨0, utterance⟩))
    (scored : AlignmentScore × CanonicalUtteranceMatch) :
    scored ∈ (candidates.filterMap fun candidate =>
        (timelineAlignmentScore toLowercase pending candidate).map (·, candidate)) ↔
      scored ∈ (evidence toLowercase item rows).map fun p => (p.1, (⟨0, p.2⟩ : CanonicalUtteranceMatch)) := by
  have hscore : ∀ utterance : RealtimeUtterance,
      timelineAlignmentScore toLowercase pending ⟨0, utterance⟩ =
        alignmentScore toLowercase timelineDistance item.sourceText item.sourceStartMs
          item.sourceEndMs
          (canonicalLanguage item.sourceLanguage = canonicalLanguage utterance.sourceLanguage)
          utterance := by
    intro utterance
    rw [pendingTranslationFromInbox] at hpending
    split at hpending
    · cases hpending
    · obtain ⟨text, -, hpending⟩ := Option.bind_eq_some_iff.mp hpending
      obtain ⟨completion, -, hpending⟩ := Option.bind_eq_some_iff.mp hpending
      obtain rfl := Option.some.inj hpending
      simp only [timelineAlignmentScore, hepoch, ne_eq, not_true_eq_false, if_false,
        normalizeLanguage_eq, eq_comm]
  rw [List.mem_filterMap, evidence, List.map_filterMap, List.mem_filterMap]
  simp only [hcandidates.mem_iff, List.mem_map, exists_exists_and_eq_and, hscore, Option.map_map,
    Function.comp_def]

/-- The rounding decides: the store singles out one of several rows that are nearest for the
runtime, or it finds a second row as near as the only one nearest for the runtime. -/
def RoundingDecides (item : RealtimeTranslationInboxItem) (rows : List RealtimeUtterance) : Prop :=
  Decides bySupport distanceOf (fun scored => RoundedCloser item scored.2)
    (fun scored => scored.2.sequence) (evidence toLowercase item rows)

theorem distanceOf_restate {item : RealtimeTranslationInboxItem} {rows : List RealtimeUtterance}
    {scored : AlignmentScore × RealtimeUtterance} (h : scored ∈ evidence toLowercase item rows) :
    (RoundedCloser item scored.2 → distanceOf scored = distanceOf (restate item scored) + 1) ∧
      (¬ RoundedCloser item scored.2 → distanceOf scored = distanceOf (restate item scored)) := by
  obtain ⟨utterance, -, hscore⟩ := List.mem_filterMap.mp h
  obtain ⟨score, hscored, rfl⟩ := Option.map_eq_some_iff.mp hscore
  cases hsums : intervalSums item.sourceStartMs item.sourceEndMs utterance with
  | none =>
    simp only [RoundedCloser, restate, hsums]
    constructor
    · rintro ⟨left, right, hnone, -⟩
      cases hnone
    · intro _
      trivial
  | some sums =>
    obtain ⟨left, right⟩ := sums
    have hdistance : score.midpointDistanceMs = timelineDistance left right := by
      have hsums := hsums
      unfold intervalSums at hsums
      split at hsums
      · next hls hle hrs hre =>
        obtain ⟨rfl, rfl⟩ := Prod.mk.inj (Option.some.inj hsums)
        simp only [alignmentScore, hls, hle, hrs, hre] at hscored
        split at hscored
        · cases hscored
        · obtain ⟨overlap, -, rfl⟩ := Option.map_eq_some_iff.mp hscored
          rfl
      · cases hsums
    have hcloser : RoundedCloser item utterance ↔
        (left % 2 = 0 ∧ right % 2 = 1 ∧ right < left ∨ left % 2 = 1 ∧ right % 2 = 0 ∧ left < right) := by
      simp only [RoundedCloser, hsums, Option.some.injEq, Prod.mk.injEq]
      constructor
      · rintro ⟨l, r, ⟨rfl, rfl⟩, hparity⟩
        exact hparity
      · intro hparity
        exact ⟨left, right, ⟨rfl, rfl⟩, hparity⟩
    have heq := timelineDistance_eq left right
    simp only [distanceOf, restate, hsums, hcloser, hdistance]
    constructor
    · intro hparity
      rw [heq, if_pos hparity]
    · intro hparity
      rw [heq, if_neg hparity, Nat.add_zero]

/-- **Both matchers bind the same row** of group epoch 0, or none, exactly unless the
rounding decides. -/
theorem matchers_agree_iff {item : RealtimeTranslationInboxItem}
    {pending : PendingTranslationVariant} (hpending : pendingTranslationFromInbox item = some pending)
    (hepoch : item.key.groupEpoch = 0) {rows : List RealtimeUtterance}
    {candidates : List CanonicalUtteranceMatch}
    (hcandidates : candidates.Perm (rows.map fun utterance => ⟨0, utterance⟩)) :
    (rankedCanonicalSequences toLowercase pending candidates).head? =
        uniqueTranslationInboxCandidate toLowercase item rows ↔
      ¬ RoundingDecides toLowercase item rows := by
  have hruntime : ∀ n, (rankedCanonicalSequences toLowercase pending candidates).head? = some n ↔
      Leads (byDistance bySupport distanceOf) (fun scored => scored.2.sequence)
        (evidence toLowercase item rows) n := by
    intro n
    rw [rankedCanonicalSequences_head, chosen_eq_some,
      leads_congr (mem_runtime_evidence toLowercase hpending hepoch hcandidates), leads_map]
    rfl
  have hstore : ∀ n, uniqueTranslationInboxCandidate toLowercase item rows = some n ↔
      Leads (byDistance bySupport fun scored => distanceOf (restate item scored))
        (fun scored => scored.2.sequence) (evidence toLowercase item rows) n := by
    intro n
    have hrow : ∀ scored, (restate item scored).2 = scored.2 := by
      intro scored
      rw [restate]
      split <;> rfl
    have hsupport : ∀ a b, bySupport (restate item a) (restate item b) = bySupport a b := by
      intro a b
      rw [restate, restate]
      split <;> split <;> rfl
    rw [uniqueTranslationInboxCandidate_eq, chosen_eq_some, store_evidence, leads_map]
    simp only [Leads, byDistance, compareLex, compareOn, hsupport, hrow]
  rw [Option.ext_iff]
  simp only [hruntime, hstore]
  exact agree_iff distanceOf (fun scored => distanceOf (restate item scored))
    (fun scored => scored.2.sequence) (evidence toLowercase item rows)
    (fun scored h => (distanceOf_restate toLowercase h).1)
    (fun scored h => (distanceOf_restate toLowercase h).2)

end

/-- A segment over the first 100 ms. -/
def earlySegment : RealtimeTranslationInboxItem where
  key := ⟨"session", 1, 0, 7, "zh"⟩
  sourceLanguage := "en"
  sourceText := "hello"
  sourceStartMs := some 0
  sourceEndMs := some 100
  translatedText := some "nihao"
  completion := some .complete
  withdrawn := false
  revision := 1
  boundUtteranceId := none
  boundSequence := none

/-- A row from 0 to `endMs` in which nothing was understood yet. -/
def earlyRow (sequence endMs : Nat) : RealtimeUtterance where
  id := "row"
  sessionId := "session"
  sequence := sequence
  sessionSpeakerId := none
  sourceLanguage := "und"
  sourceText := ""
  sourceStartMs := some 0
  sourceEndMs := some endMs
  translatedLanguage := none
  translatedText := none
  revision := 1
  completion := .partial_
  alignment := .sourceOnly
  sourceProjectionRevision := 0
  sourceEditRevision := 0
  variants := []

def earlyPending : PendingTranslationVariant where
  sessionId := "session"
  groupEpoch := 0
  sourceSequence := 7
  sourceLanguage := "en"
  sourceText := "hello"
  sourceStartMs := some 0
  sourceEndMs := some 100
  targetLanguage := "zh"
  completion := .complete
  reverseConflictWarned := false

/-- Rows that end 5 ms and 50 ms off: both matchers take the nearer one. -/
theorem matchers_agree_far :
    ((rankedCanonicalSequences (fun c => [c.toLower]) earlyPending
        [⟨0, earlyRow 1 105⟩, ⟨0, earlyRow 2 150⟩]).head? =
      uniqueTranslationInboxCandidate (fun c => [c.toLower]) earlySegment
        [earlyRow 1 105, earlyRow 2 150] ↔
      ¬ RoundingDecides (fun c => [c.toLower]) earlySegment [earlyRow 1 105, earlyRow 2 150]) ∧
    uniqueTranslationInboxCandidate (fun c => [c.toLower]) earlySegment
      [earlyRow 1 105, earlyRow 2 150] = some 1 :=
  ⟨matchers_agree_iff _ (by decide +kernel) rfl (.refl _), by decide +kernel⟩

/-- Rows that end 1 ms before and 1 ms after: the runtime finds the later one nearer, the
store finds both as near. -/
theorem matchers_disagree :
    pendingTranslationFromInbox earlySegment = some earlyPending ∧ earlySegment.key.groupEpoch = 0 ∧
    (rankedCanonicalSequences (fun c => [c.toLower]) earlyPending
      [⟨0, earlyRow 1 101⟩, ⟨0, earlyRow 2 99⟩]).head? = some 1 ∧
    uniqueTranslationInboxCandidate (fun c => [c.toLower]) earlySegment
      [earlyRow 1 101, earlyRow 2 99] = none := by
  decide +kernel

end Zulangue.Capture
