import Zulangue.LivePresentation.Utterance

/-!
# Where the source text goes

`laneProjection` fills the language lanes of an utterance, `audienceSourcePlacement` names the column of the
audience canvas its source line joins. Both are to follow the same source rules.
-/

namespace Zulangue.LivePresentation

inductive NotebookCaptureMissingLaneState where
  | waiting
  | failed
  | unavailable
  deriving DecidableEq, Repr

structure NotebookCaptureLanguageLane where
  language : String
  text : Option String
  missingLaneState : NotebookCaptureMissingLaneState
  deriving DecidableEq, Repr

structure NotebookCaptureLaneProjection where
  lanes : List NotebookCaptureLanguageLane
  pendingLanguage : Option String
  unselectedLanguageText : Option String
  deriving DecidableEq, Repr

/-- A dictionary by language. -/
abbrev ByLanguage (α : Type) := String → Option α

def ByLanguage.set {α : Type} (entries : ByLanguage α) (language : String) (value : α) : ByLanguage α :=
  fun other => if other = language then some value else entries other

section
variable (lowercased : String → String)

def missingLaneState (utterance : NotebookCaptureUtteranceDTO) : NotebookCaptureMissingLaneState :=
  if lowercased (trimmed utterance.alignment) = "translation_pending" ∧
      lowercased (trimmed utterance.completion) = "partial" then .waiting
  else .unavailable

/-- The language of a variant, where it has a lane. -/
def laneOf (languages : List String) (variant : NotebookCaptureLanguageVariantDTO) : Option String :=
  (normalizedLanguage lowercased (some variant.language)).filter (· ∈ languages)

/-- The texts of the language variants. -/
def variantTexts (languages : List String) (variants : List NotebookCaptureLanguageVariantDTO) : ByLanguage String :=
  variants.foldl (fun texts variant =>
    match laneOf lowercased languages variant, (variant.text.map trimmed).filter (· ≠ "") with
    | some language, some text => texts.set language text
    | _, _ => texts) fun _ => none

def variantStates (languages : List String) (variants : List NotebookCaptureLanguageVariantDTO) :
    ByLanguage NotebookCaptureMissingLaneState :=
  variants.foldl (fun states variant =>
    match laneOf lowercased languages variant with
    | some language =>
      states.set language
        (if variant.state = "waiting" then .waiting else if variant.state = "failed" then .failed else .unavailable)
    | none => states) fun _ => none

/-- The source has no identity yet. -/
def isPending (source : Option String) : Bool := source = none ∨ source = some "und"

/-- The provider's hint, then the caller's guess. -/
def pendingPlacement (languages : List String) (utterance : NotebookCaptureUtteranceDTO)
    (lastIdentifiedSourceLanguage : Option String) : Option String :=
  (((normalizedLanguage lowercased utterance.provisionalSourceLanguage).filter (· ≠ "und")).filter (· ∈ languages)).or
    ((normalizedLanguage lowercased lastIdentifiedSourceLanguage).filter (· ∈ languages))

/-- The lane of a source text of known language. -/
def withCommittedSource (languages : List String) (utterance : NotebookCaptureUtteranceDTO) (texts : ByLanguage String) :
    ByLanguage String :=
  match normalizedLanguage lowercased utterance.sourceLanguage with
  | some source =>
    if utterance.hasSourceLane ∧ source ≠ "und" ∧ source ∈ languages ∧ utterance.sourceText ≠ "" then
      texts.set source utterance.sourceText
    else texts
  | none => texts

/-- The lane of a source text whose language is pending. -/
def withPendingSource (languages : List String) (utterance : NotebookCaptureUtteranceDTO)
    (lastIdentifiedSourceLanguage : Option String) (texts : ByLanguage String) : ByLanguage String :=
  match pendingPlacement lowercased languages utterance lastIdentifiedSourceLanguage with
  | some placement =>
    if utterance.hasSourceLane ∧ isPending (normalizedLanguage lowercased utterance.sourceLanguage) ∧
        utterance.sourceText ≠ "" ∧ texts placement = none then
      texts.set placement utterance.sourceText
    else texts
  | none => texts

/-- The lane of the translation in the utterance's own fields. -/
def withTranslated (languages : List String) (utterance : NotebookCaptureUtteranceDTO) (texts : ByLanguage String) :
    ByLanguage String :=
  match normalizedLanguage lowercased utterance.translatedLanguage, utterance.translatedText with
  | some translated, some translatedText =>
    if translated ∈ languages ∧ texts translated = none ∧ translatedText ≠ "" then texts.set translated translatedText
    else texts
  | _, _ => texts

def textsByLanguage (languages : List String) (utterance : NotebookCaptureUtteranceDTO)
    (lastIdentifiedSourceLanguage : Option String) : ByLanguage String :=
  withTranslated lowercased languages utterance
    (withPendingSource lowercased languages utterance lastIdentifiedSourceLanguage
      (withCommittedSource lowercased languages utterance
        (variantTexts lowercased languages utterance.languageVariants)))

def laneProjection (utterance : NotebookCaptureUtteranceDTO) (selectedLanguages : List String)
    (lastIdentifiedSourceLanguage : Option String) : NotebookCaptureLaneProjection :=
  let languages := orderedLanguages lowercased selectedLanguages
  let texts := textsByLanguage lowercased languages utterance lastIdentifiedSourceLanguage
  let states := variantStates lowercased languages utterance.languageVariants
  let source := normalizedLanguage lowercased utterance.sourceLanguage
  let lanes := languages.map fun language =>
    { language
      text := texts language
      missingLaneState :=
        if (texts language).isSome then .unavailable
        else
          match states language with
          | some state => state
          | none =>
            if missingLaneState lowercased utterance = .waiting ∧ some language ≠ source then .waiting
            else .unavailable : NotebookCaptureLanguageLane }
  let hasVisibleLaneText := lanes.any fun lane => lane.text.any (· ≠ "")
  { lanes
    pendingLanguage :=
      if utterance.hasSourceLane ∧ isPending source ∧ hasVisibleLaneText = false then some utterance.sourceText else none
    unselectedLanguageText :=
      if utterance.hasSourceLane ∧ isPending source = false ∧ source.any (· ∉ languages) then some utterance.sourceText
      else none }

/-- A hint that names a language outside the selection joins no column. -/
def audienceSourcePlacement (utterance : NotebookCaptureUtteranceDTO) (selectedLanguages : List String)
    (lastIdentifiedSourceLanguage : Option String) : Option String :=
  if utterance.hasSourceLane = false ∨ utterance.sourceText = "" then none
  else
    let languages := orderedLanguages lowercased selectedLanguages
    match (normalizedLanguage lowercased utterance.sourceLanguage).filter (· ≠ "und") with
    | some source => if source ∈ languages then some source else none
    | none =>
      match (normalizedLanguage lowercased utterance.provisionalSourceLanguage).filter (· ≠ "und") with
      | some provisional => if provisional ∈ languages then some provisional else none
      | none => (normalizedLanguage lowercased lastIdentifiedSourceLanguage).filter (· ∈ languages)

/-! ## Agreement -/

def PendingSource (utterance : NotebookCaptureUtteranceDTO) : Prop :=
  isPending (normalizedLanguage lowercased utterance.sourceLanguage) = true

/-- A language variant has a text for the lane. -/
def HoldsTranslation (utterance : NotebookCaptureUtteranceDTO) (selectedLanguages : List String) (language : String) :
    Prop :=
  variantTexts lowercased (orderedLanguages lowercased selectedLanguages) utterance.languageVariants language ≠ none

def WithoutTranslations (utterance : NotebookCaptureUtteranceDTO) (selectedLanguages : List String) : Prop :=
  (∀ language, ¬ HoldsTranslation lowercased utterance selectedLanguages language) ∧
    utterance.translatedText.getD "" = ""

/-- The column of the canvas is the lane of the source text. -/
structure Agrees (utterance : NotebookCaptureUtteranceDTO) (selectedLanguages : List String)
    (lastIdentifiedSourceLanguage : Option String) : Prop where
  placed : ∀ language,
    audienceSourcePlacement lowercased utterance selectedLanguages lastIdentifiedSourceLanguage = some language →
      (∃ lane ∈ (laneProjection lowercased utterance selectedLanguages lastIdentifiedSourceLanguage).lanes,
        lane.language = language ∧ lane.text = some utterance.sourceText) ∨
      PendingSource lowercased utterance ∧ HoldsTranslation lowercased utterance selectedLanguages language
  unplaced :
    audienceSourcePlacement lowercased utterance selectedLanguages lastIdentifiedSourceLanguage = none →
      WithoutTranslations lowercased utterance selectedLanguages →
        ∀ lane ∈ (laneProjection lowercased utterance selectedLanguages lastIdentifiedSourceLanguage).lanes, lane.text = none

/-- A pending source whose hint names a language outside the selection, while the language identified last is
in it. -/
structure FallsThrough (utterance : NotebookCaptureUtteranceDTO) (selectedLanguages : List String)
    (lastIdentifiedSourceLanguage : Option String) : Prop where
  sourceLane : utterance.hasSourceLane = true
  sourceText : utterance.sourceText ≠ ""
  pending : PendingSource lowercased utterance
  outside : ∃ provisional, normalizedLanguage lowercased utterance.provisionalSourceLanguage = some provisional ∧
    provisional ≠ "und" ∧ provisional ∉ orderedLanguages lowercased selectedLanguages
  borrowed : ∃ language, normalizedLanguage lowercased lastIdentifiedSourceLanguage = some language ∧
    language ∈ orderedLanguages lowercased selectedLanguages
  translations : WithoutTranslations lowercased utterance selectedLanguages

end

section
variable {lowercased : String → String} {utterance : NotebookCaptureUtteranceDTO} {selectedLanguages languages : List String}
  {lastIdentifiedSourceLanguage : Option String} {language : String} {texts : ByLanguage String}

@[simp]
theorem ByLanguage.set_self {α : Type} (entries : ByLanguage α) (language : String) (value : α) :
    entries.set language value language = some value := if_pos rfl

/-- A translation is put where no text stands. -/
theorem withTranslated_cases (lowercased : String → String) (languages : List String)
    (utterance : NotebookCaptureUtteranceDTO) (texts : ByLanguage String) :
    withTranslated lowercased languages utterance texts = texts ∨
      ∃ translated text, utterance.translatedText = some text ∧ text ≠ "" ∧ texts translated = none ∧
        withTranslated lowercased languages utterance texts = texts.set translated text := by
  unfold withTranslated
  split
  next translated text _ htext =>
    split
    next hadds => exact .inr ⟨translated, text, htext, hadds.2.2, hadds.2.1, rfl⟩
    · exact .inl rfl
  · exact .inl rfl

theorem withTranslated_of_none (h : utterance.translatedText.getD "" = "") :
    withTranslated lowercased languages utterance texts = texts := by
  obtain heq | ⟨translated, text, htext, hne, -, -⟩ := withTranslated_cases lowercased languages utterance texts
  · exact heq
  · rw [htext, Option.getD_some] at h
    exact absurd h hne

/-- A lane that has a text keeps it. -/
theorem withTranslated_keeps {text : String} (h : texts language = some text) :
    withTranslated lowercased languages utterance texts language = some text := by
  obtain heq | ⟨translated, other, -, -, hfree, heq⟩ := withTranslated_cases lowercased languages utterance texts
  · rw [heq, h]
  · have hne : language ≠ translated := by
      rintro rfl
      rw [h] at hfree
      cases hfree
    rw [heq, ByLanguage.set, if_neg hne, h]

theorem withCommittedSource_of_pending (h : PendingSource lowercased utterance) :
    withCommittedSource lowercased languages utterance texts = texts := by
  unfold withCommittedSource
  split
  next source hsource =>
    rw [PendingSource, hsource] at h
    rw [if_neg]
    rintro ⟨-, hund, -⟩
    simp [isPending, hund] at h
  · rfl

theorem withPendingSource_of_committed (h : ¬ PendingSource lowercased utterance) :
    withPendingSource lowercased languages utterance lastIdentifiedSourceLanguage texts = texts := by
  unfold withPendingSource
  split
  · rw [if_neg (fun hplaces => h hplaces.2.1)]
  · rfl

/-- What stands in the lanes. -/
theorem exists_lane (hmem : language ∈ orderedLanguages lowercased selectedLanguages) {text : String}
    (h : textsByLanguage lowercased (orderedLanguages lowercased selectedLanguages) utterance lastIdentifiedSourceLanguage
      language = some text) :
    ∃ lane ∈ (laneProjection lowercased utterance selectedLanguages lastIdentifiedSourceLanguage).lanes,
      lane.language = language ∧ lane.text = some text := by
  refine ⟨_, List.mem_map_of_mem hmem, rfl, h⟩

theorem lanes_empty_iff :
    (∀ lane ∈ (laneProjection lowercased utterance selectedLanguages lastIdentifiedSourceLanguage).lanes, lane.text = none) ↔
      ∀ language ∈ orderedLanguages lowercased selectedLanguages,
        textsByLanguage lowercased (orderedLanguages lowercased selectedLanguages) utterance lastIdentifiedSourceLanguage
          language = none := by
  unfold laneProjection
  simp only [List.mem_map, forall_exists_index, and_imp, forall_apply_eq_imp_iff₂]

theorem not_holdsTranslation : ¬ HoldsTranslation lowercased utterance selectedLanguages language ↔
    variantTexts lowercased (orderedLanguages lowercased selectedLanguages) utterance.languageVariants language = none :=
  not_not

/-- Without a source lane, or with an empty source text, the source rules do nothing. -/
theorem textsByLanguage_of_none (h : utterance.hasSourceLane = false ∨ utterance.sourceText = "") :
    textsByLanguage lowercased languages utterance lastIdentifiedSourceLanguage =
      withTranslated lowercased languages utterance
        (variantTexts lowercased languages utterance.languageVariants) := by
  have hcommitted : ∀ texts, withCommittedSource lowercased languages utterance texts = texts := by
    intro texts
    unfold withCommittedSource
    split
    · rw [if_neg]
      rintro ⟨hlane, -, -, htext⟩
      rcases h with hnone | hempty
      · rw [hnone] at hlane
        cases hlane
      · exact htext hempty
    · rfl
  have hpending : ∀ texts, withPendingSource lowercased languages utterance lastIdentifiedSourceLanguage texts = texts := by
    intro texts
    unfold withPendingSource
    split
    · rw [if_neg]
      rintro ⟨hlane, -, htext, -⟩
      rcases h with hnone | hempty
      · rw [hnone] at hlane
        cases hlane
      · exact htext hempty
    · rfl
  rw [textsByLanguage, hcommitted, hpending]

theorem pendingSource_iff :
    PendingSource lowercased utterance ↔
      (normalizedLanguage lowercased utterance.sourceLanguage).filter (· ≠ "und") = none := by
  unfold PendingSource isPending
  cases normalizedLanguage lowercased utterance.sourceLanguage <;> simp

/-- A known source is put in its lane, when that is selected. -/
theorem textsByLanguage_of_committed {source : String} (hlane : utterance.hasSourceLane = true)
    (htext : utterance.sourceText ≠ "")
    (hsource : (normalizedLanguage lowercased utterance.sourceLanguage).filter (· ≠ "und") = some source) :
    textsByLanguage lowercased languages utterance lastIdentifiedSourceLanguage =
      withTranslated lowercased languages utterance
        (if source ∈ languages then
          (variantTexts lowercased languages utterance.languageVariants).set source utterance.sourceText
        else variantTexts lowercased languages utterance.languageVariants) := by
  have hpending : ¬ PendingSource lowercased utterance := by
    rw [pendingSource_iff, hsource]
    simp
  obtain ⟨hnormalized, hund⟩ := Option.filter_eq_some_iff.mp hsource
  rw [textsByLanguage, withPendingSource_of_committed hpending, withCommittedSource, hnormalized]
  simp [hlane, htext, of_decide_eq_true hund]

/-- A pending source is put in the lane of its hint or of the guess, when nothing stands there. -/
theorem textsByLanguage_of_pending (hlane : utterance.hasSourceLane = true) (htext : utterance.sourceText ≠ "")
    (h : PendingSource lowercased utterance) :
    textsByLanguage lowercased languages utterance lastIdentifiedSourceLanguage =
      withTranslated lowercased languages utterance
        (match pendingPlacement lowercased languages utterance lastIdentifiedSourceLanguage with
        | some placement =>
          if variantTexts lowercased languages utterance.languageVariants placement = none then
            (variantTexts lowercased languages utterance.languageVariants).set placement utterance.sourceText
          else variantTexts lowercased languages utterance.languageVariants
        | none => variantTexts lowercased languages utterance.languageVariants) := by
  rw [textsByLanguage, withCommittedSource_of_pending h, withPendingSource]
  have hpending : isPending (normalizedLanguage lowercased utterance.sourceLanguage) = true := h
  simp [hlane, htext, hpending]

/-- What the variants leave free stays free when the source rules put nothing. -/
theorem lanes_empty_of_variants (h : WithoutTranslations lowercased utterance selectedLanguages)
    (htexts : textsByLanguage lowercased (orderedLanguages lowercased selectedLanguages) utterance
        lastIdentifiedSourceLanguage =
      withTranslated lowercased (orderedLanguages lowercased selectedLanguages) utterance
        (variantTexts lowercased (orderedLanguages lowercased selectedLanguages) utterance.languageVariants)) :
    ∀ lane ∈ (laneProjection lowercased utterance selectedLanguages lastIdentifiedSourceLanguage).lanes,
      lane.text = none := by
  rw [lanes_empty_iff]
  intro language _
  rw [htexts, withTranslated_of_none h.2]
  exact not_holdsTranslation.mp (h.1 language)

/-- A pending source that has a place is there, unless a translation is. -/
theorem placed_of_pending (hlane : utterance.hasSourceLane = true) (htext : utterance.sourceText ≠ "")
    (h : PendingSource lowercased utterance)
    (hplacement : pendingPlacement lowercased (orderedLanguages lowercased selectedLanguages) utterance
      lastIdentifiedSourceLanguage = some language)
    (hmem : language ∈ orderedLanguages lowercased selectedLanguages) :
    (∃ lane ∈ (laneProjection lowercased utterance selectedLanguages lastIdentifiedSourceLanguage).lanes,
      lane.language = language ∧ lane.text = some utterance.sourceText) ∨
      PendingSource lowercased utterance ∧ HoldsTranslation lowercased utterance selectedLanguages language := by
  by_cases hholds : HoldsTranslation lowercased utterance selectedLanguages language
  · exact .inr ⟨h, hholds⟩
  · left
    apply exists_lane hmem
    rw [textsByLanguage_of_pending hlane htext h, hplacement]
    apply withTranslated_keeps
    dsimp only
    rw [if_pos (not_holdsTranslation.mp hholds), ByLanguage.set_self]

theorem FallsThrough.provisional
    (h : FallsThrough lowercased utterance selectedLanguages lastIdentifiedSourceLanguage) :
    ∃ provisional, (normalizedLanguage lowercased utterance.provisionalSourceLanguage).filter (· ≠ "und") =
      some provisional ∧ provisional ∉ orderedLanguages lowercased selectedLanguages := by
  obtain ⟨provisional, hprovisional, hund, hmem⟩ := h.outside
  exact ⟨provisional, by simp [hprovisional, hund], hmem⟩

/-- A hint outside the selection: the canvas gives no column, the lanes fall through to the guess. -/
theorem agrees_iff_of_outside {provisional : String} (hlane : utterance.hasSourceLane = true)
    (htext : utterance.sourceText ≠ "") (h : PendingSource lowercased utterance)
    (hprovisional : (normalizedLanguage lowercased utterance.provisionalSourceLanguage).filter (· ≠ "und") =
      some provisional) (hmem : provisional ∉ orderedLanguages lowercased selectedLanguages) :
    Agrees lowercased utterance selectedLanguages lastIdentifiedSourceLanguage ↔
      ¬ FallsThrough lowercased utterance selectedLanguages lastIdentifiedSourceLanguage := by
  have hnone : audienceSourcePlacement lowercased utterance selectedLanguages lastIdentifiedSourceLanguage = none := by
    have hsource : ¬ (utterance.hasSourceLane = false ∨ utterance.sourceText = "") := by simp [hlane, htext]
    simp only [audienceSourcePlacement, if_neg hsource, pendingSource_iff.mp h, hprovisional, if_neg hmem]
  have hplacement : pendingPlacement lowercased (orderedLanguages lowercased selectedLanguages) utterance
      lastIdentifiedSourceLanguage = (normalizedLanguage lowercased lastIdentifiedSourceLanguage).filter
        (· ∈ orderedLanguages lowercased selectedLanguages) := by
    rw [pendingPlacement, hprovisional, Option.filter_some_neg (by simpa using hmem), Option.none_or]
  constructor
  · intro hagrees hfalls
    obtain ⟨language, hlast, hselected⟩ := hfalls.borrowed
    have hborrowed : pendingPlacement lowercased (orderedLanguages lowercased selectedLanguages) utterance
        lastIdentifiedSourceLanguage = some language := by
      simp [hplacement, hlast, hselected]
    obtain ⟨lane, hmemLane, -, hshown⟩ :=
      (placed_of_pending hlane htext h hborrowed hselected).resolve_right fun hheld => hfalls.translations.1 _ hheld.2
    rw [hagrees.unplaced hnone hfalls.translations lane hmemLane] at hshown
    cases hshown
  · intro hfalls
    constructor
    · intro language hsome
      rw [hnone] at hsome
      cases hsome
    · intro _ htranslations
      apply lanes_empty_of_variants htranslations
      rw [textsByLanguage_of_pending hlane htext h, hplacement]
      cases hlast : (normalizedLanguage lowercased lastIdentifiedSourceLanguage).filter
        (· ∈ orderedLanguages lowercased selectedLanguages) with
      | none => rfl
      | some language =>
        obtain ⟨hlanguage, hselected⟩ := Option.filter_eq_some_iff.mp hlast
        obtain ⟨hnormalized, hund⟩ := Option.filter_eq_some_iff.mp hprovisional
        exact absurd ⟨hlane, htext, h, ⟨provisional, hnormalized, of_decide_eq_true hund, hmem⟩,
          ⟨language, hlanguage, of_decide_eq_true hselected⟩, htranslations⟩ hfalls

/-- A line without identity, which the provider takes for French, after a Chinese one. -/
def frenchLine : NotebookCaptureUtteranceDTO :=
  ⟨"u", "s", 1, none, 1, "und", some "fr", "des mots", none, none, none, none, "complete", "source_only", [], 0, 0⟩

end

end Zulangue.LivePresentation
