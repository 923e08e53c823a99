import Zulangue.Lib.FirstMatch
import Zulangue.LivePresentation.Utterance

/-!
# Merging a committed lane

The source lane and the language variants of an utterance by the key of their language, and what
`mergingCommittedLane` leaves of a row that another edit is merged into.
-/

namespace Zulangue.LaneEdits

open Zulangue.Lib.FirstMatch Zulangue.LivePresentation

abbrev Row := NotebookCaptureUtteranceDTO

abbrev Variant := NotebookCaptureLanguageVariantDTO

/-! ## Lanes -/

section
variable (lowercased : String → String)

def isSourceLane (row : Row) (key : String) : Bool :=
  row.hasSourceLane && decide (languageKey lowercased row.sourceLanguage = key)

def inLanguage (key : String) (variant : Variant) : Bool := decide (languageKey lowercased variant.language = key)

def variantIn (row : Row) (key : String) : Option Variant := row.languageVariants.find? (inLanguage lowercased key)

def isTranslatedLane (row : Row) (key : String) : Bool :=
  decide (row.translatedLanguage.map (languageKey lowercased) = some key)

def laneText (row : Row) (language : String) : Option String :=
  let key := languageKey lowercased language
  if isSourceLane lowercased row key then some row.sourceText
  else
    match variantIn lowercased row key with
    | some variant => variant.text
    | none => if isTranslatedLane lowercased row key then row.translatedText else none

def laneEditRevision (row : Row) (language : String) : Nat :=
  let key := languageKey lowercased language
  if isSourceLane lowercased row key then row.sourceEditRevision
  else ((variantIn lowercased row key).map (·.editRevision)).getD 0

def mergingVariant (committed variant : Variant) : Variant :=
  { variant with
    text := committed.text
    projectionRevision := max variant.projectionRevision committed.projectionRevision
    editRevision := max variant.editRevision committed.editRevision }

def mergingSourceLane (row committed : Row) (key : String) : Row :=
  { row with
    revision := max row.revision committed.revision
    sourceText := committed.sourceText
    sourceProjectionRevision := max row.sourceProjectionRevision committed.sourceProjectionRevision
    sourceEditRevision := max row.sourceEditRevision committed.sourceEditRevision
    languageVariants :=
      match variantIn lowercased committed key with
      | some variant => updateFirst (inLanguage lowercased key) (mergingVariant variant) row.languageVariants
      | none => row.languageVariants }

def mergingTranslationLane (row committed : Row) (key : String) : Row :=
  let committedVariant := variantIn lowercased committed key
  let committedLaneText :=
    match committedVariant with
    | some variant => variant.text
    | none => if isTranslatedLane lowercased committed key then committed.translatedText else none
  { row with
    revision := max row.revision committed.revision
    languageVariants :=
      match variantIn lowercased row key, committedVariant with
      | some _, some variant => updateFirst (inLanguage lowercased key) (mergingVariant variant) row.languageVariants
      | some _, none =>
        updateFirst (inLanguage lowercased key) (fun variant => { variant with text := committedLaneText })
          row.languageVariants
      | none, some variant => row.languageVariants ++ [variant]
      | none, none => row.languageVariants
    translatedText := if isTranslatedLane lowercased row key then committedLaneText else row.translatedText }

def mergingLane (row committed : Row) (key : String) : Row :=
  if isSourceLane lowercased committed key then mergingSourceLane lowercased row committed key
  else mergingTranslationLane lowercased row committed key

def mergingCommittedLane (row committed : Row) (language : String) : Row :=
  if row.id = committed.id ∧ row.sessionId = committed.sessionId then
    mergingLane lowercased row committed (languageKey lowercased language)
  else row

/-- What a row has in a language: the source lane with its revisions, the variant, and the aggregate translation. -/
structure Lane where
  source : Option (String × Nat × Nat)
  variant : Option Variant
  translated : Option String
  deriving DecidableEq, Repr

def Lane.text (lane : Lane) : Option String :=
  match lane.source, lane.variant with
  | some source, _ => some source.1
  | none, some variant => variant.text
  | none, none => lane.translated

def laneIn (row : Row) (key : String) : Lane where
  source :=
    if isSourceLane lowercased row key then some (row.sourceText, row.sourceProjectionRevision, row.sourceEditRevision)
    else none
  variant := variantIn lowercased row key
  translated := if isTranslatedLane lowercased row key then row.translatedText else none

/-- What a row has beside its lanes. -/
structure SameFields (row other : Row) : Prop where
  id : row.id = other.id
  sessionId : row.sessionId = other.sessionId
  sequence : row.sequence = other.sequence
  sessionSpeakerId : row.sessionSpeakerId = other.sessionSpeakerId
  sourceLanguage : row.sourceLanguage = other.sourceLanguage
  provisionalSourceLanguage : row.provisionalSourceLanguage = other.provisionalSourceLanguage
  sourceStartMs : row.sourceStartMs = other.sourceStartMs
  sourceEndMs : row.sourceEndMs = other.sourceEndMs
  translatedLanguage : row.translatedLanguage = other.translatedLanguage
  completion : row.completion = other.completion
  alignment : row.alignment = other.alignment

/-- The lane is of the same kind in both rows: the source lane, or that of a translation. -/
inductive Laid (row committed : Row) (key : String) : Prop
  | source : isSourceLane lowercased row key = true → isSourceLane lowercased committed key = true →
      (∀ variant, variantIn lowercased committed key = some variant → variant.text.isSome) →
        Laid row committed key
  | translation (variant : Variant) : isSourceLane lowercased committed key = false →
      variantIn lowercased committed key = some variant → variant.role ≠ "source" →
        languageKey lowercased row.sourceLanguage ≠ key → row.languageVariants ≠ [] →
          (∀ other, variantIn lowercased row key = some other → other.role ≠ "source") → Laid row committed key

end

section
variable {lowercased : String → String} {row other committed committed' : Row} {key key' : String} {variant : Variant}

theorem laneText_eq (lowercased : String → String) (row : Row) (language : String) :
    laneText lowercased row language = (laneIn lowercased row (languageKey lowercased language)).text := by
  unfold laneText laneIn Lane.text
  dsimp only
  split
  · rfl
  · split <;> simp_all

theorem SameFields.refl (row : Row) : SameFields row row := ⟨rfl, rfl, rfl, rfl, rfl, rfl, rfl, rfl, rfl, rfl, rfl⟩

theorem SameFields.trans {third : Row} (h : SameFields row other) (h' : SameFields other third) :
    SameFields row third :=
  ⟨h.id.trans h'.id, h.sessionId.trans h'.sessionId, h.sequence.trans h'.sequence,
    h.sessionSpeakerId.trans h'.sessionSpeakerId, h.sourceLanguage.trans h'.sourceLanguage,
    h.provisionalSourceLanguage.trans h'.provisionalSourceLanguage, h.sourceStartMs.trans h'.sourceStartMs,
    h.sourceEndMs.trans h'.sourceEndMs, h.translatedLanguage.trans h'.translatedLanguage,
    h.completion.trans h'.completion, h.alignment.trans h'.alignment⟩

theorem mergingLane_fields (lowercased : String → String) (row committed : Row) (key : String) :
    SameFields (mergingLane lowercased row committed key) row := by
  unfold mergingLane
  split
  · exact ⟨rfl, rfl, rfl, rfl, rfl, rfl, rfl, rfl, rfl, rfl, rfl⟩
  · exact ⟨rfl, rfl, rfl, rfl, rfl, rfl, rfl, rfl, rfl, rfl, rfl⟩

theorem revision_mergingLane (lowercased : String → String) (row committed : Row) (key : String) :
    (mergingLane lowercased row committed key).revision = max row.revision committed.revision := by
  unfold mergingLane
  split <;> rfl

theorem mergingLane_of_source (h : isSourceLane lowercased committed key = true) :
    mergingLane lowercased row committed key = mergingSourceLane lowercased row committed key := if_pos h

theorem mergingLane_of_translation (h : isSourceLane lowercased committed key = false) :
    mergingLane lowercased row committed key = mergingTranslationLane lowercased row committed key := by
  rw [mergingLane, h, if_neg Bool.false_ne_true]

theorem mergingCommittedLane_eq (hid : row.id = committed.id) (hsession : row.sessionId = committed.sessionId)
    (hkey : languageKey lowercased key = key) :
    mergingCommittedLane lowercased row committed key = mergingLane lowercased row committed key := by
  rw [mergingCommittedLane, if_pos ⟨hid, hsession⟩, hkey]

/-! ## The source lane -/

/-- A variant that makes a source lane. -/
def Readable (variant : Variant) : Prop :=
  variant.role = "source" ∧ variant.state = "ready" ∧ variant.text.isSome ∧ variant.completion.isSome

theorem hasSourceLane_iff (row : Row) :
    row.hasSourceLane = true ↔ row.languageVariants = [] ∨ ∃ variant ∈ row.languageVariants, Readable variant := by
  unfold NotebookCaptureUtteranceDTO.hasSourceLane
  dsimp only
  split
  next hnone =>
    rw [decide_eq_true_iff]
    constructor
    · exact .inl
    · rintro (h | ⟨variant, hmem, hreadable⟩)
      · exact h
      · have hin : variant ∈ row.languageVariants.filter (·.role = "source") := by
          simp [hmem, hreadable.1]
        rw [hnone] at hin
        cases hin
  next hsome =>
    rw [List.any_eq_true]
    constructor
    · rintro ⟨variant, hmem, hready⟩
      obtain ⟨hmem, hrole⟩ := List.mem_filter.mp hmem
      exact .inr ⟨variant, hmem, of_decide_eq_true hrole, of_decide_eq_true hready⟩
    · rintro (h | ⟨variant, hmem, hrole, hready⟩)
      · rw [h] at hsome
        exact absurd rfl hsome
      · exact ⟨variant, List.mem_filter.mpr ⟨hmem, decide_eq_true hrole⟩, decide_eq_true hready⟩

theorem languageKey_of_isSourceLane (h : isSourceLane lowercased row key = true) :
    row.hasSourceLane = true ∧ languageKey lowercased row.sourceLanguage = key := by
  rw [isSourceLane, Bool.and_eq_true, decide_eq_true_iff] at h
  exact h

/-- The variants of a row into which a lane of a translation is merged. -/
theorem languageVariants_mergingLane (row : Row) (hcommitted : isSourceLane lowercased committed key = false)
    (hvariant : variantIn lowercased committed key = some variant) :
    (mergingLane lowercased row committed key).languageVariants =
      match variantIn lowercased row key with
      | some _ => updateFirst (inLanguage lowercased key) (mergingVariant variant) row.languageVariants
      | none => row.languageVariants ++ [variant] := by
  rw [mergingLane_of_translation hcommitted]
  unfold mergingTranslationLane
  dsimp only
  rw [hvariant]
  cases variantIn lowercased row key <;> rfl

theorem hasSourceLane_mergingLane (h : Laid lowercased row committed key) :
    (mergingLane lowercased row committed key).hasSourceLane = row.hasSourceLane := by
  cases h with
  | source hrow hcommitted htexts =>
    have hhas := (languageKey_of_isSourceLane hrow).1
    rw [hhas, hasSourceLane_iff, mergingLane_of_source hcommitted]
    unfold mergingSourceLane
    dsimp only
    cases hvariant : variantIn lowercased committed key with
    | none => exact (hasSourceLane_iff row).mp hhas
    | some variant =>
      dsimp only
      rcases (hasSourceLane_iff row).mp hhas with hnil | ⟨old, hmem, hreadable⟩
      · exact .inl (updateFirst_eq_nil.mpr hnil)
      · right
        rcases mem_updateFirst_of_mem hmem (mergingVariant variant) with hmem | ⟨-, hmem⟩
        · exact ⟨old, hmem, hreadable⟩
        · exact ⟨_, hmem, hreadable.1, hreadable.2.1, htexts variant hvariant, hreadable.2.2.2⟩
  | translation variant hcommitted hvariant hrole hlanguage hne hroles =>
    have hvariants := languageVariants_mergingLane row hcommitted hvariant
    rw [Bool.eq_iff_iff, hasSourceLane_iff, hasSourceLane_iff, hvariants]
    cases hown : variantIn lowercased row key with
    | none =>
      have hne' : row.languageVariants ++ [variant] ≠ [] := by simp
      simp only [hne', hne, false_or, List.mem_append, List.mem_singleton]
      constructor
      · rintro ⟨other, hmem | rfl, hreadable⟩
        · exact ⟨other, hmem, hreadable⟩
        · exact absurd hreadable.1 hrole
      · rintro ⟨other, hmem, hreadable⟩
        exact ⟨other, .inl hmem, hreadable⟩
    | some own =>
      have hownRole := hroles own hown
      simp only [updateFirst_eq_nil, hne, false_or]
      constructor
      · rintro ⟨other, hmem, hreadable⟩
        rcases of_mem_updateFirst hmem with hmem | ⟨old, hfind, rfl⟩
        · exact ⟨other, hmem, hreadable⟩
        · obtain rfl := Option.some.inj (hown.symm.trans hfind)
          exact absurd hreadable.1 hownRole
      · rintro ⟨other, hmem, hreadable⟩
        rcases mem_updateFirst_of_mem hmem (mergingVariant variant) with hmem | ⟨hfind, -⟩
        · exact ⟨other, hmem, hreadable⟩
        · obtain rfl := Option.some.inj (hown.symm.trans hfind)
          exact absurd hreadable.1 hownRole

theorem isSourceLane_mergingLane (h : Laid lowercased row committed key) (other : String) :
    isSourceLane lowercased (mergingLane lowercased row committed key) other = isSourceLane lowercased row other := by
  unfold isSourceLane
  rw [hasSourceLane_mergingLane h, (mergingLane_fields lowercased row committed key).sourceLanguage]

theorem isTranslatedLane_mergingLane (lowercased : String → String) (row committed : Row) (key other : String) :
    isTranslatedLane lowercased (mergingLane lowercased row committed key) other =
      isTranslatedLane lowercased row other := by
  unfold isTranslatedLane
  rw [(mergingLane_fields lowercased row committed key).translatedLanguage]

/-! ## The lanes of a merged row -/

theorem inLanguage_mergingVariant (committedVariant variant : Variant) (key : String) :
    inLanguage lowercased key (mergingVariant committedVariant variant) = inLanguage lowercased key variant := rfl

theorem inLanguage_of_ne (hne : key' ≠ key) (h : inLanguage lowercased key variant = true) :
    inLanguage lowercased key' variant = false := by
  unfold inLanguage at h ⊢
  rw [decide_eq_true_iff] at h
  rw [decide_eq_false_iff_not, h]
  exact hne.symm

theorem variantIn_mergingLane_of_ne (h : Laid lowercased row committed key) (hne : key' ≠ key) :
    variantIn lowercased (mergingLane lowercased row committed key) key' = variantIn lowercased row key' := by
  have hupdate : ∀ variant, (updateFirst (inLanguage lowercased key) (mergingVariant variant) row.languageVariants).find?
      (inLanguage lowercased key') = row.languageVariants.find? (inLanguage lowercased key') := by
    intro variant
    apply find?_updateFirst_of_other
    intro old hold
    have hother := inLanguage_of_ne hne hold
    exact ⟨hother, hother⟩
  cases h with
  | source hrow hcommitted htexts =>
    unfold variantIn
    rw [mergingLane_of_source hcommitted]
    unfold mergingSourceLane
    dsimp only
    split
    next variant hvariant => exact hupdate variant
    · rfl
  | translation variant hcommitted hvariant hrole hlanguage hne' hroles =>
    have hvariants := languageVariants_mergingLane row hcommitted hvariant
    have hlanguage := List.find?_some hvariant
    unfold variantIn
    rw [hvariants]
    cases variantIn lowercased row key with
    | some own => exact hupdate variant
    | none =>
      dsimp only
      rw [List.find?_append, List.find?_singleton, if_neg]
      · exact Option.or_none
      · rw [inLanguage_of_ne hne hlanguage]
        exact Bool.false_ne_true

theorem not_isSourceLane_of_ne (hne : key' ≠ key) (h : isSourceLane lowercased row key = true) :
    isSourceLane lowercased row key' = false := by
  have hkey := (languageKey_of_isSourceLane h).2
  rw [isSourceLane, hkey, decide_eq_false hne.symm, Bool.and_false]

theorem not_isTranslatedLane_of_ne (hne : key' ≠ key) (h : isTranslatedLane lowercased row key = true) :
    isTranslatedLane lowercased row key' = false := by
  unfold isTranslatedLane at h ⊢
  rw [of_decide_eq_true h, decide_eq_false_iff_not]
  intro hkey
  exact hne (Option.some.inj hkey).symm

/-- The other lanes stay. -/
theorem laneIn_mergingLane_of_ne (h : Laid lowercased row committed key) (hne : key' ≠ key) :
    laneIn lowercased (mergingLane lowercased row committed key) key' = laneIn lowercased row key' := by
  have hsource := isSourceLane_mergingLane h key'
  have hvariant := variantIn_mergingLane_of_ne h hne
  have htranslated := isTranslatedLane_mergingLane lowercased row committed key key'
  unfold laneIn
  rw [hsource, hvariant, htranslated]
  cases h with
  | source hrow hcommitted htexts =>
    rw [not_isSourceLane_of_ne hne hrow, mergingLane_of_source hcommitted]
    rfl
  | translation variant hcommitted hvariant hrole hlanguage hne' hroles =>
    rw [mergingLane_of_translation hcommitted]
    unfold mergingTranslationLane
    dsimp only
    cases hown : isTranslatedLane lowercased row key with
    | true =>
      rw [not_isTranslatedLane_of_ne hne hown]
      rfl
    | false => simp only [Bool.false_eq_true, if_false]

/-- The lane reads as the one that was merged. -/
theorem text_laneIn_mergingLane (h : Laid lowercased row committed key) :
    (laneIn lowercased (mergingLane lowercased row committed key) key).text = (laneIn lowercased committed key).text := by
  have hsource := isSourceLane_mergingLane h key
  unfold laneIn Lane.text
  rw [hsource]
  cases h with
  | source hrow hcommitted htexts =>
    rw [hrow, hcommitted, mergingLane_of_source hcommitted]
    rfl
  | translation variant hcommitted hvariant hrole hlanguage hne hroles =>
    have hrow : isSourceLane lowercased row key = false := by
      rw [isSourceLane, decide_eq_false hlanguage, Bool.and_false]
    have hvariants := languageVariants_mergingLane row hcommitted hvariant
    have hmerged : ∃ own, variantIn lowercased (mergingLane lowercased row committed key) key = some own ∧
        own.text = variant.text := by
      rw [variantIn, hvariants]
      cases hown : variantIn lowercased row key with
      | some own =>
        refine ⟨mergingVariant variant own, ?_, rfl⟩
        have hkeeps : ∀ own, inLanguage lowercased key (mergingVariant variant own) = inLanguage lowercased key own :=
          fun own => inLanguage_mergingVariant variant own key
        rw [find?_updateFirst_self hkeeps, ← variantIn, hown]
        rfl
      | none =>
        refine ⟨variant, ?_, rfl⟩
        have hlanguage := List.find?_some hvariant
        rw [variantIn] at hown
        dsimp only
        rw [List.find?_append, hown, List.find?_singleton, if_pos hlanguage]
        rfl
    obtain ⟨own, hown, htext⟩ := hmerged
    rw [hrow, hcommitted, hown, hvariant]
    exact htext

theorem languageVariants_mergingLane_ne_nil (h : Laid lowercased row committed key)
    (hne : row.languageVariants ≠ []) :
    (mergingLane lowercased row committed key).languageVariants ≠ [] := by
  cases h with
  | source hrow hcommitted htexts =>
    rw [mergingLane_of_source hcommitted]
    unfold mergingSourceLane
    dsimp only
    split
    · rw [ne_eq, updateFirst_eq_nil]
      exact hne
    · exact hne
  | translation variant hcommitted hvariant hrole hlanguage hne' hroles =>
    rw [languageVariants_mergingLane row hcommitted hvariant]
    split
    · rw [ne_eq, updateFirst_eq_nil]
      exact hne
    · simp

/-- Merging one lane leaves the kind of the others. -/
theorem Laid.merging (h : Laid lowercased row committed key) (h' : Laid lowercased row committed' key')
    (hne : key' ≠ key) :
    Laid lowercased (mergingLane lowercased row committed key) committed' key' := by
  cases h' with
  | source hrow hcommitted htexts =>
    apply Laid.source _ hcommitted htexts
    rw [isSourceLane_mergingLane h]
    exact hrow
  | translation variant hcommitted hvariant hrole hlanguage hvariants hroles =>
    apply Laid.translation variant hcommitted hvariant hrole
    · rw [(mergingLane_fields lowercased row committed key).sourceLanguage]
      exact hlanguage
    · exact languageVariants_mergingLane_ne_nil h hvariants
    · rw [variantIn_mergingLane_of_ne h hne]
      exact hroles

end

end Zulangue.LaneEdits
