import Zulangue.Capture.Alignment

/-!
# The store binds by evidence alone

What `unique_translation_inbox_candidate` returns depends on the set of rows and on what
speaks for each of them. Their order in the list and the numbers they carry are read only to
sort and to answer.
-/

namespace Zulangue.Capture

open Std Zulangue.Lib.Word Zulangue.Lib.Ranking

/-- Everything in a score but the number of the row, best first: the words, the tightest row
around them, the overlap, the source language, and last the distance of the midpoints. -/
def compareEvidence (left right : AlignmentScore) : Ordering :=
  (compareSupport left right).then (compare left.midpointDistanceMs right.midpointDistanceMs)

instance : TransCmp compareEvidence :=
  inferInstanceAs (TransCmp (compareLex compareSupport (compareOn AlignmentScore.midpointDistanceMs)))

section
variable (toLowercase : Char → List Char) (cmp : AlignmentScore → AlignmentScore → Ordering)
  (item : RealtimeTranslationInboxItem)

/-- Row `s` is eligible, and every other eligible row is strictly behind it. -/
def StrictlyBest (candidates : List RealtimeUtterance) (s : Nat) : Prop :=
  ∃ best ∈ candidates, best.sequence = s ∧
    ∃ score, translationInboxAlignmentScore toLowercase item best = some score ∧
      ∀ other ∈ candidates, other.sequence ≠ s →
        ∀ behind, translationInboxAlignmentScore toLowercase item other = some behind →
          cmp score behind = .lt

/-- Two different rows are level, and no row is ahead of them. -/
def Tied (candidates : List RealtimeUtterance) : Prop :=
  ∃ first ∈ candidates, ∃ second ∈ candidates, first.sequence ≠ second.sequence ∧
    ∃ one two, translationInboxAlignmentScore toLowercase item first = some one ∧
      translationInboxAlignmentScore toLowercase item second = some two ∧ cmp one two = .eq ∧
      ∀ other ∈ candidates, ∀ score, translationInboxAlignmentScore toLowercase item other = some score →
        cmp score one ≠ .lt

/-- Row `s` is strictly better than everything in `added` that is eligible at all. -/
def Behind (candidates added : List RealtimeUtterance) (s : Nat) : Prop :=
  ∃ best ∈ candidates, best.sequence = s ∧
    ∃ score, translationInboxAlignmentScore toLowercase item best = some score ∧
      (∀ other ∈ candidates, ∀ better, translationInboxAlignmentScore toLowercase item other = some better →
        cmp better score ≠ .lt) ∧
      ∀ worse ∈ added, ∀ behind, translationInboxAlignmentScore toLowercase item worse = some behind →
        cmp score behind = .lt

variable {item}

theorem leads_evidence (candidates : List RealtimeUtterance) (s : Nat) :
    Leads (byDistance bySupport distanceOf) (fun scored => scored.2.sequence)
        (candidates.filterMap fun candidate =>
          (translationInboxAlignmentScore toLowercase item candidate).map (·, candidate)) s ↔
      StrictlyBest toLowercase compareEvidence item candidates s := by
  constructor
  · rintro ⟨x, hx, rfl, hlead⟩
    obtain ⟨best, hbest, hscored⟩ := List.mem_filterMap.mp hx
    obtain ⟨score, hscore, rfl⟩ := Option.map_eq_some_iff.mp hscored
    refine ⟨best, hbest, rfl, score, hscore, ?_⟩
    intro other hother hne behind hbehind
    have hmem : (behind, other) ∈ candidates.filterMap fun candidate =>
        (translationInboxAlignmentScore toLowercase item candidate).map (·, candidate) :=
      List.mem_filterMap.mpr ⟨other, hother, by simp [hbehind]⟩
    exact hlead (behind, other) hmem hne
  · rintro ⟨best, hbest, hs, score, hscore, hlead⟩
    refine ⟨(score, best), List.mem_filterMap.mpr ⟨best, hbest, by simp [hscore]⟩, hs, ?_⟩
    intro y hy hne
    obtain ⟨other, hother, hscored⟩ := List.mem_filterMap.mp hy
    obtain ⟨behind, hbehind, rfl⟩ := Option.map_eq_some_iff.mp hscored
    exact hlead other hother hne behind hbehind

theorem candidate_eq_some {candidates : List RealtimeUtterance} {s : Nat} :
    uniqueTranslationInboxCandidate toLowercase item candidates = some s ↔
      StrictlyBest toLowercase compareEvidence item candidates s := by
  rw [uniqueTranslationInboxCandidate_eq, chosen_eq_some, leads_evidence]

theorem strictlyBest_congr {candidates permuted : List RealtimeUtterance}
    (h : ∀ row, row ∈ permuted ↔ row ∈ candidates) (s : Nat) :
    StrictlyBest toLowercase cmp item permuted s ↔ StrictlyBest toLowercase cmp item candidates s := by
  simp only [StrictlyBest, h]

/-- No row leads where the best ones are level. -/
theorem not_strictlyBest_of_tied {candidates : List RealtimeUtterance}
    (h : Tied toLowercase compareEvidence item candidates) (s : Nat) :
    ¬ StrictlyBest toLowercase compareEvidence item candidates s := by
  rintro ⟨best, hbest, hs, score, hscore, hlead⟩
  obtain ⟨first, hfirst, second, hsecond, hne, one, two, hone, htwo, hlevel, htop⟩ := h
  -- one of the two rows is not row `s`, and nothing is strictly ahead of it
  by_cases hown : first.sequence = s
  · have hother : second.sequence ≠ s := fun heq => hne (by omega)
    have hlt : compareEvidence score two = .lt := hlead second hsecond hother two htwo
    have hle : (compareEvidence two one).isLE = true := by
      rw [OrientedCmp.eq_comm.mpr hlevel]
      rfl
    exact htop best hbest score hscore (TransCmp.lt_of_lt_of_isLE hlt hle)
  · exact htop best hbest score hscore (hlead first hfirst hown one hone)

theorem strictlyBest_append {candidates added : List RealtimeUtterance} {s : Nat}
    (hbest : StrictlyBest toLowercase compareEvidence item candidates s)
    (hadded : Behind toLowercase compareEvidence item candidates added s) :
    StrictlyBest toLowercase compareEvidence item (candidates ++ added) s := by
  obtain ⟨row, hrow, hs, score, hscore, htop, hbehind⟩ := hadded
  obtain ⟨best, hmem, hbs, top, htopScore, hlead⟩ := hbest
  have hahead : (compareEvidence score top).isLE = true := by
    have hnot := htop best hmem top htopScore
    rw [@OrientedCmp.eq_swap _ compareEvidence, Ordering.isLE_swap]
    cases hcmp : compareEvidence top score with
    | lt => exact absurd hcmp hnot
    | eq => rfl
    | gt => rfl
  refine ⟨row, List.mem_append_left added hrow, hs, score, hscore, ?_⟩
  intro other hother hne behind hscored
  rcases List.mem_append.mp hother with hold | hnew
  · exact TransCmp.lt_of_isLE_of_lt hahead (hlead other hold hne behind hscored)
  · exact hbehind other hnew behind hscored

end

/-! ## Numbers never decide -/

/-- The same row under another number. -/
def RealtimeUtterance.renumbered (number : Nat → Nat) (row : RealtimeUtterance) : RealtimeUtterance :=
  { row with sequence := number row.sequence }

section
variable (toLowercase : Char → List Char) {item : RealtimeTranslationInboxItem}

@[simp] theorem renumbered_sequence (number : Nat → Nat) (row : RealtimeUtterance) :
    (row.renumbered number).sequence = number row.sequence := rfl

/-- The number of a row goes through its score and changes nothing else. -/
theorem score_renumbered (number : Nat → Nat) (row : RealtimeUtterance) :
    translationInboxAlignmentScore toLowercase item (row.renumbered number) =
      (translationInboxAlignmentScore toLowercase item row).map fun score =>
        { score with sequence := number row.sequence } := by
  have htext : ∀ sourceLanguageMatches,
      textScore toLowercase item.sourceText sourceLanguageMatches (row.renumbered number) =
        { textScore toLowercase item.sourceText sourceLanguageMatches row with
          sequence := number row.sequence } := fun _ => rfl
  have hlanguage : (row.renumbered number).sourceLanguage = row.sourceLanguage := rfl
  have hstart : (row.renumbered number).sourceStartMs = row.sourceStartMs := rfl
  have hend : (row.renumbered number).sourceEndMs = row.sourceEndMs := rfl
  simp only [translationInboxAlignmentScore, alignmentScore, htext, hlanguage, hstart, hend]
  cases item.sourceStartMs <;> cases item.sourceEndMs <;> cases row.sourceStartMs <;>
    cases row.sourceEndMs <;>
    simp only [apply_ite (Option.map _), Option.map_map, Option.map_some, Option.map_none,
      Function.comp_def]

theorem compareEvidence_renumbered (one two : AlignmentScore) (n m : Nat) :
    compareEvidence { one with sequence := n } { two with sequence := m } = compareEvidence one two :=
  rfl

theorem strictlyBest_renumbered {number : Nat → Nat} (hinj : Function.Injective number)
    (candidates : List RealtimeUtterance) (s : Nat) :
    StrictlyBest toLowercase compareEvidence item (candidates.map (·.renumbered number)) (number s) ↔
      StrictlyBest toLowercase compareEvidence item candidates s := by
  simp only [StrictlyBest, List.mem_map, exists_exists_and_eq_and, forall_exists_index, and_imp,
    forall_apply_eq_imp_iff₂, renumbered_sequence, hinj.eq_iff, score_renumbered,
    Option.map_eq_some_iff, compareEvidence_renumbered, ne_eq]

/-- **Binding rests on evidence alone**: the same answer for every order of the rows; the one
row that is strictly best, if there is one; none where the best rows are level, whatever their
numbers; and no change through rows behind the choice or through other numbers for the rows. -/
theorem binding_rests_on_evidence (item : RealtimeTranslationInboxItem)
    (candidates : List RealtimeUtterance) :
    (∀ permuted : List RealtimeUtterance, permuted.Perm candidates →
      uniqueTranslationInboxCandidate toLowercase item permuted =
        uniqueTranslationInboxCandidate toLowercase item candidates) ∧
    (∀ s, uniqueTranslationInboxCandidate toLowercase item candidates = some s ↔
      StrictlyBest toLowercase compareEvidence item candidates s) ∧
    (Tied toLowercase compareEvidence item candidates →
      uniqueTranslationInboxCandidate toLowercase item candidates = none) ∧
    (∀ s added, uniqueTranslationInboxCandidate toLowercase item candidates = some s →
      Behind toLowercase compareEvidence item candidates added s →
      uniqueTranslationInboxCandidate toLowercase item (candidates ++ added) = some s) ∧
    ∀ number : Nat → Nat, Function.Injective number →
      uniqueTranslationInboxCandidate toLowercase item (candidates.map (·.renumbered number)) =
        (uniqueTranslationInboxCandidate toLowercase item candidates).map number := by
  refine ⟨fun permuted hperm => ?_, fun s => candidate_eq_some toLowercase, fun htied => ?_,
    fun s added hs hadded => ?_, fun number hinj => ?_⟩
  · apply Option.ext
    intro s
    rw [candidate_eq_some, candidate_eq_some]
    exact strictlyBest_congr toLowercase compareEvidence (fun row => hperm.mem_iff) s
  · apply Option.eq_none_iff_forall_ne_some.mpr
    intro s hs
    exact not_strictlyBest_of_tied toLowercase htied s ((candidate_eq_some toLowercase).mp hs)
  · rw [candidate_eq_some] at hs ⊢
    exact strictlyBest_append toLowercase hs hadded
  · apply Option.ext
    intro n
    rw [Option.map_eq_some_iff, candidate_eq_some]
    constructor
    · intro hbest
      obtain ⟨row, hrow, hn, -⟩ := id hbest
      obtain ⟨original, -, rfl⟩ := List.mem_map.mp hrow
      rw [← hn] at hbest ⊢
      refine ⟨original.sequence, ?_, rfl⟩
      rw [candidate_eq_some]
      exact (strictlyBest_renumbered toLowercase hinj candidates _).mp hbest
    · rintro ⟨s, hs, rfl⟩
      rw [candidate_eq_some] at hs
      exact (strictlyBest_renumbered toLowercase hinj candidates s).mpr hs

end

/-! ## The order of the criteria -/

/-- The words, the overlap, the tightest row around them, then the distance. -/
def compareOverlapFirst (left right : AlignmentScore) : Ordering :=
  (compare right.exactSourceText left.exactSourceText).then <|
  (compare right.containedSourceText left.containedSourceText).then <|
  (compare right.overlapPerMille left.overlapPerMille).then <|
  (compare left.canonicalTextChars right.canonicalTextChars).then <|
  compare left.midpointDistanceMs right.midpointDistanceMs

/-- A row that has the words of the segment in it. -/
def containingRow (sequence startMs endMs : Nat) (text language : String) : RealtimeUtterance :=
  { earlyRow sequence endMs with
    sourceStartMs := some startMs, sourceText := text, sourceLanguage := language }

theorem not_strictlyBest_of_not_lt {toLowercase : Char → List Char}
    {cmp : AlignmentScore → AlignmentScore → Ordering} {item : RealtimeTranslationInboxItem}
    (row other : RealtimeUtterance) (score behind : AlignmentScore)
    (hrow : translationInboxAlignmentScore toLowercase item row = some score)
    (hother : translationInboxAlignmentScore toLowercase item other = some behind)
    (hne : other.sequence ≠ row.sequence) (hnot : cmp score behind ≠ .lt) :
    ¬ StrictlyBest toLowercase cmp item [row, other] row.sequence := by
  rintro ⟨best, hbest, hs, top, htop, hlead⟩
  obtain rfl | rfl : best = row ∨ best = other := by simpa using hbest
  · obtain rfl := Option.some.inj (hrow.symm.trans htop)
    exact hnot (hlead other (by simp) hne behind hother)
  · exact hne hs

/-- A tighter row wins over one with more overlap, and between rows that are level in words,
overlap and distance the language decides. -/
theorem tighter_row_wins :
    (uniqueTranslationInboxCandidate (fun c => [c.toLower]) earlySegment
        [containingRow 1 50 150 "hello you" "en", containingRow 2 0 100 "hello you there" "en"] = some 1 ∧
      ¬ StrictlyBest (fun c => [c.toLower]) compareOverlapFirst earlySegment
        [containingRow 1 50 150 "hello you" "en", containingRow 2 0 100 "hello you there" "en"] 1) ∧
    (uniqueTranslationInboxCandidate (fun c => [c.toLower]) earlySegment
        [containingRow 1 0 100 "hello" "en", containingRow 2 0 100 "hello" "es"] = some 1 ∧
      ¬ StrictlyBest (fun c => [c.toLower]) compareOverlapFirst earlySegment
        [containingRow 1 0 100 "hello" "en", containingRow 2 0 100 "hello" "es"] 1) := by
  refine ⟨⟨by decide +kernel, ?_⟩, by decide +kernel, ?_⟩
  · apply not_strictlyBest_of_not_lt (containingRow 1 50 150 "hello you" "en")
      (containingRow 2 0 100 "hello you there" "en") ⟨false, true, 8, 500, true, 50, 1⟩
      ⟨false, true, 13, 1000, true, 0, 2⟩ <;> decide +kernel
  · apply not_strictlyBest_of_not_lt (containingRow 1 0 100 "hello" "en")
      (containingRow 2 0 100 "hello" "es") ⟨true, false, u64Max, 1000, true, 0, 1⟩
      ⟨true, false, u64Max, 1000, false, 0, 2⟩ <;> decide +kernel

/-- The row that is chosen stays chosen behind the other one. -/
theorem tighter_row_wins_anywhere :
    uniqueTranslationInboxCandidate (fun c => [c.toLower]) earlySegment
      [containingRow 2 0 100 "hello you there" "en", containingRow 1 50 150 "hello you" "en"] = some 1 :=
  ((binding_rests_on_evidence _ earlySegment
      [containingRow 1 50 150 "hello you" "en", containingRow 2 0 100 "hello you there" "en"]).1
    _ (List.Perm.swap _ _ [])).trans (by decide +kernel)

end Zulangue.Capture
