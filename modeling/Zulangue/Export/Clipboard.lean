import Zulangue.Export.Columns

/-!
# Every fact once

The clipboard shows every fact under its column or behind the columns. The documents do so
exactly if no column has two facts of one utterance.
-/

namespace Zulangue.Export

open Zulangue.Lib.Text

/-! ## The clipboard -/

/-- A fact under the first column with its base language. -/
def columnLine (languageColumns : List Text) (fact : UtteranceFact) : Text :=
  clipboardLine ((languageColumns.find? fun column => sameLanguage column fact.language).getD fact.language)
    fact.text

/-- The facts of the columns first, each exactly once, then the others. -/
structure LinesShow (languageColumns : List Text) (ls : List Text) (utterance : ClipboardUtterance) : Prop where
  shown : ∃ own others, ls = own ++ others ∧
    own.Perm (((factsOf utterance.exportUtterance).filter fun fact =>
      !isUnrepresented languageColumns fact).map (columnLine languageColumns)) ∧
    others.Perm (((factsOf utterance.exportUtterance).filter (isUnrepresented languageColumns)).map
      fun fact => clipboardLine fact.language fact.text)

/-- A paragraph for each utterance with facts, in the order of the utterances. -/
def ClipboardKeepsFacts (data : ClipboardTranscript) : Prop :=
  ∃ paragraphs : List (List Text),
    List.Forall₂ (LinesShow data.languageColumns) paragraphs
      (data.utterances.filter fun utterance => !(factsOf utterance.exportUtterance).isEmpty) ∧
    exportClipboardText data = "\n\n".toList.intercalate (clipboardTitle data.title ++
      List.zipWith (fun utterance ls => "\n".toList.intercalate (clipboardHead utterance ++ ls))
        (data.utterances.filter fun utterance => !(factsOf utterance.exportUtterance).isEmpty) paragraphs)

theorem emitColumn_eq (column : Text) (facts : List UtteranceFact) :
    emitColumn column facts =
      ((facts.filter fun fact => sameLanguage column fact.language).map fun fact => clipboardLine column fact.text,
        facts.filter fun fact => !sameLanguage column fact.language) := by
  induction facts with
  | nil => rfl
  | cons fact facts ih =>
    rw [emitColumn, ih, sameLanguage_comm]
    cases hsame : sameLanguage column fact.language <;> simp [hsame]

theorem isUnrepresented_cons (column : Text) (languageColumns : List Text) (fact : UtteranceFact) :
    isUnrepresented (column :: languageColumns) fact =
      (!sameLanguage column fact.language && isUnrepresented languageColumns fact) := by
  rw [Bool.eq_iff_iff]
  simp [isUnrepresented_iff]

/-- Column by column the facts are emitted under the first column that matches. -/
theorem emitColumns_spec (languageColumns : List Text) (facts : List UtteranceFact) :
    (emitColumns languageColumns facts).1.Perm
        ((facts.filter fun fact => !isUnrepresented languageColumns fact).map (columnLine languageColumns)) ∧
      (emitColumns languageColumns facts).2 = facts.filter (isUnrepresented languageColumns) := by
  induction languageColumns generalizing facts with
  | nil =>
    have hnone : isUnrepresented [] = fun _ => true := by
      funext fact
      simp [isUnrepresented_iff]
    simp [emitColumns, hnone]
  | cons column columns ih =>
    rw [emitColumns, emitColumn_eq]
    obtain ⟨hown, hothers⟩ := ih (facts.filter fun fact => !sameLanguage column fact.language)
    constructor
    · have hfirst : ((facts.filter fun fact => sameLanguage column fact.language).map
          fun fact => clipboardLine column fact.text) =
          (facts.filter fun fact => sameLanguage column fact.language).map (columnLine (column :: columns)) := by
        apply List.map_congr_left
        intro fact hfact
        simp [columnLine, (List.mem_filter.mp hfact).2]
      have hlater : ((facts.filter fun fact => !sameLanguage column fact.language).filter
          fun fact => !isUnrepresented columns fact).map (columnLine columns) =
          ((facts.filter fun fact => !sameLanguage column fact.language).filter
            fun fact => !isUnrepresented columns fact).map (columnLine (column :: columns)) := by
        apply List.map_congr_left
        intro fact hfact
        have hother := (List.mem_filter.mp (List.mem_filter.mp hfact).1).2
        simp only [Bool.not_eq_true'] at hother
        simp [columnLine, hother]
      rw [hlater] at hown
      have hsplit : (facts.filter fun fact => !isUnrepresented (column :: columns) fact).Perm
          ((facts.filter fun fact => sameLanguage column fact.language) ++
            (facts.filter fun fact => !sameLanguage column fact.language).filter
              fun fact => !isUnrepresented columns fact) := by
        have hparts := List.filter_append_perm (fun fact : UtteranceFact => sameLanguage column fact.language)
          (facts.filter fun fact => !isUnrepresented (column :: columns) fact)
        rw [List.filter_filter, List.filter_filter] at hparts
        have hmatched : (fun fact : UtteranceFact => sameLanguage column fact.language &&
            !isUnrepresented (column :: columns) fact) = fun fact => sameLanguage column fact.language := by
          funext fact
          rw [isUnrepresented_cons]
          cases sameLanguage column fact.language <;> simp
        have hrest : (fun fact : UtteranceFact => !sameLanguage column fact.language &&
            !isUnrepresented (column :: columns) fact) =
            fun fact => !isUnrepresented columns fact && !sameLanguage column fact.language := by
          funext fact
          rw [isUnrepresented_cons]
          cases sameLanguage column fact.language <;> simp
        rw [hmatched, hrest] at hparts
        rw [List.filter_filter]
        exact hparts.symm
      rw [hfirst]
      refine ((hown.append_left _).trans ?_)
      rw [← List.map_append]
      exact (hsplit.map _).symm
    · rw [hothers, List.filter_filter]
      congr 1
      funext fact
      rw [isUnrepresented_cons, Bool.and_comm]

theorem clipboardLanguageLines_show {languageColumns : List Text}
    (hblank : ∀ column ∈ languageColumns, trim column ≠ []) (utterance : ClipboardUtterance) :
    LinesShow languageColumns (clipboardLanguageLines utterance languageColumns) utterance := by
  have hcolumns : (languageColumns.filter fun column => trim column ≠ []) = languageColumns := by
    rw [List.filter_eq_self]
    simpa using hblank
  have hperm := utteranceFacts_perm utterance.exportUtterance
  obtain ⟨hown, hothers⟩ := emitColumns_spec languageColumns (utteranceFacts utterance.exportUtterance)
  refine ⟨_, _, rfl, ?_, ?_⟩
  · rw [hcolumns]
    exact hown.trans ((hperm.filter _).map _)
  · rw [hcolumns, hothers]
    exact (hperm.filter _).map _

/-- An utterance has lines if it has facts. -/
theorem clipboardLanguageLines_eq_nil {languageColumns : List Text}
    (hblank : ∀ column ∈ languageColumns, trim column ≠ []) (utterance : ClipboardUtterance) :
    clipboardLanguageLines utterance languageColumns = [] ↔ factsOf utterance.exportUtterance = [] := by
  obtain ⟨own, others, hlines, hown, hothers⟩ := (clipboardLanguageLines_show hblank utterance).shown
  have hlengths := hown.length_eq
  have hrest := hothers.length_eq
  have hall := List.length_eq_length_filter_add (l := factsOf utterance.exportUtterance)
    (isUnrepresented languageColumns)
  rw [List.length_map] at hlengths hrest
  rw [hlines, ← List.length_eq_zero_iff, ← List.length_eq_zero_iff, List.length_append]
  omega

theorem clipboard_keeps_facts (data : ClipboardTranscript)
    (hblank : ∀ column ∈ data.languageColumns, trim column ≠ []) : ClipboardKeepsFacts data := by
  refine ⟨(data.utterances.filter fun utterance => !(factsOf utterance.exportUtterance).isEmpty).map
    fun utterance => clipboardLanguageLines utterance data.languageColumns, ?_, ?_⟩
  · rw [List.forall₂_map_left_iff, List.forall₂_same]
    exact fun utterance _ => clipboardLanguageLines_show hblank utterance
  · have hparagraphs : ∀ utterances : List ClipboardUtterance,
        utterances.filterMap (clipboardParagraph data.languageColumns) =
        List.zipWith (fun utterance ls => "\n".toList.intercalate (clipboardHead utterance ++ ls))
          (utterances.filter fun utterance => !(factsOf utterance.exportUtterance).isEmpty)
          ((utterances.filter fun utterance => !(factsOf utterance.exportUtterance).isEmpty).map
            fun utterance => clipboardLanguageLines utterance data.languageColumns) := by
      intro utterances
      induction utterances with
      | nil => rfl
      | cons utterance utterances ih =>
        rw [List.filterMap_cons, ih, clipboardParagraph]
        by_cases hfacts : factsOf utterance.exportUtterance = []
        · have hlines := (clipboardLanguageLines_eq_nil hblank utterance).mpr hfacts
          simp [hfacts, hlines]
        · have hlines := (clipboardLanguageLines_eq_nil hblank utterance).not.mpr hfacts
          simp [hfacts, hlines]
    rw [exportClipboardText, hparagraphs]

/-! ## All three formats -/

/-- What is read between the heading and the end of a Markdown document. -/
def markdownShown (languageColumns : List Text) (data : ExportData) : Except ExportError Shown :=
  (exportMarkdown data).map fun out =>
    readMarkdown languageColumns (out.drop (markdownHeading data.title).length)

def txtShown (languageColumns : List Text) (utterances : List ExportUtterance) (data : ExportData) :
    Except ExportError Shown :=
  (exportTxt data).map fun out =>
    readTxt languageColumns (utterances.filter (hasRow languageColumns)).length
      (out.drop (txtHeading data.title).length)

section
variable {languageColumns : List Text} (title : Text) (common summary : Option Text)
  (utterances : List ExportUtterance)

theorem markdown_keeps_facts_iff
    (hdistinct : languageColumns.Pairwise fun a b => sameLanguage a b = false) :
    (∃ shown, markdownShown languageColumns
        ⟨title, .notebookCaptureLanguageColumns languageColumns common utterances, summary⟩ = .ok shown ∧
      KeepsFacts languageColumns utterances markdownCell markdownEntry shown) ↔
    OneFactPerColumn languageColumns utterances := by
  have hshown : markdownShown languageColumns
      ⟨title, .notebookCaptureLanguageColumns languageColumns common utterances, summary⟩ =
      .ok (shownOf languageColumns
        [languageColumns.map markdownCell, List.replicate languageColumns.length "---".toList]
        markdownCell markdownEntry utterances) := by
    rw [markdownShown, exportMarkdown, Except.map, List.append_assoc, List.drop_left,
      markdownTranscript, readMarkdown_columns]
  simp only [hshown, Except.ok.injEq, exists_eq_left']
  exact keepsFacts_shownOf_iff hdistinct markdownCell_eq_nil (by simp) markdownEntry utterances

theorem txt_keeps_facts_iff
    (hdistinct : languageColumns.Pairwise fun a b => sameLanguage a b = false) :
    (∃ shown, txtShown languageColumns utterances
        ⟨title, .notebookCaptureLanguageColumns languageColumns common utterances, summary⟩ = .ok shown ∧
      KeepsFacts languageColumns utterances txtCell txtEntry shown) ↔
    OneFactPerColumn languageColumns utterances := by
  have hshown : txtShown languageColumns utterances
      ⟨title, .notebookCaptureLanguageColumns languageColumns common utterances, summary⟩ =
      .ok (shownOf languageColumns [languageColumns.map txtCell] txtCell txtEntry utterances) := by
    rw [txtShown, exportTxt, Except.map, List.append_assoc, List.drop_left, txtTranscript,
      readTxt_columns]
  simp only [hshown, Except.ok.injEq, exists_eq_left']
  exact keepsFacts_shownOf_iff hdistinct txtCell_eq_nil (by simp) txtEntry utterances

end

/-- **Every fact is shown exactly once**: on the clipboard always, in the documents exactly if no
column has two facts of one utterance. -/
theorem language_columns_keep_facts_iff (languageColumns : List Text)
    (hknown : ∀ column ∈ languageColumns, isUnknownLanguage column = false)
    (hdistinct : languageColumns.Pairwise fun a b => sameLanguage a b = false) :
    (∀ (title : Text) (common summary : Option Text) (utterances : List ExportUtterance),
      ((∃ shown, markdownShown languageColumns
            ⟨title, .notebookCaptureLanguageColumns languageColumns common utterances, summary⟩ = .ok shown ∧
          KeepsFacts languageColumns utterances markdownCell markdownEntry shown) ↔
        OneFactPerColumn languageColumns utterances) ∧
      ((∃ shown, txtShown languageColumns utterances
            ⟨title, .notebookCaptureLanguageColumns languageColumns common utterances, summary⟩ = .ok shown ∧
          KeepsFacts languageColumns utterances txtCell txtEntry shown) ↔
        OneFactPerColumn languageColumns utterances)) ∧
    ∀ data : ClipboardTranscript, data.languageColumns = languageColumns → ClipboardKeepsFacts data := by
  constructor
  · intro title common summary utterances
    exact ⟨markdown_keeps_facts_iff title common summary utterances hdistinct,
      txt_keeps_facts_iff title common summary utterances hdistinct⟩
  · rintro data rfl
    apply clipboard_keeps_facts
    intro column hcolumn hblank
    have hcolumn := hknown column hcolumn
    rw [isUnknownLanguage, hblank] at hcolumn
    simp at hcolumn

/-- A source and a translation of unknown language. -/
def twoUnknown : ExportUtterance where
  sourceLanguage := "und".toList
  sourceText := "a".toList
  sourceStartMs := none
  sourceEndMs := none
  translatedLanguage := none
  translatedText := some "b".toList
  languageVariants := []

def latinColumn : List Text := ["und-Latn".toList]

theorem language_columns_keep_facts_pair :
    (∀ column ∈ ["en".toList, "zh-CN".toList], isUnknownLanguage column = false) ∧
    ["en".toList, "zh-CN".toList].Pairwise (fun a b => sameLanguage a b = false) ∧
    ∀ data : ClipboardTranscript, data.languageColumns = ["en".toList, "zh-CN".toList] →
      ClipboardKeepsFacts data := by
  have hknown : ∀ column ∈ ["en".toList, "zh-CN".toList], isUnknownLanguage column = false := by decide
  have hdistinct : ["en".toList, "zh-CN".toList].Pairwise fun a b => sameLanguage a b = false := by decide
  exact ⟨hknown, hdistinct, (language_columns_keep_facts_iff _ hknown hdistinct).2⟩

/-- The column `und-Latn` passes for a known one, and the translation overwrites the source. -/
theorem second_unknown_overwrites :
    (∀ column ∈ latinColumn, isUnknownLanguage column = false) ∧
    latinColumn.Pairwise (fun a b => sameLanguage a b = false) ∧
    factsOf twoUnknown = [⟨"und".toList, "a".toList, true⟩, ⟨"und".toList, "b".toList, false⟩] ∧
    (markdownShown latinColumn ⟨[], .notebookCaptureLanguageColumns latinColumn none [twoUnknown], none⟩ =
        .ok ⟨[["und-Latn".toList], ["---".toList]], [["b".toList]], []⟩ ∧
      ¬ ∃ shown, markdownShown latinColumn
          ⟨[], .notebookCaptureLanguageColumns latinColumn none [twoUnknown], none⟩ = .ok shown ∧
        KeepsFacts latinColumn [twoUnknown] markdownCell markdownEntry shown) ∧
    (txtShown latinColumn [twoUnknown]
        ⟨[], .notebookCaptureLanguageColumns latinColumn none [twoUnknown], none⟩ =
        .ok ⟨[["und-Latn".toList]], [["b".toList]], []⟩ ∧
      ¬ ∃ shown, txtShown latinColumn [twoUnknown]
          ⟨[], .notebookCaptureLanguageColumns latinColumn none [twoUnknown], none⟩ = .ok shown ∧
        KeepsFacts latinColumn [twoUnknown] txtCell txtEntry shown) := by
  have hdistinct : latinColumn.Pairwise fun a b => sameLanguage a b = false := List.pairwise_singleton _ _
  have htwo : ¬ OneFactPerColumn latinColumn [twoUnknown] := by
    intro h
    exact absurd (h twoUnknown List.mem_cons_self "und-Latn".toList List.mem_cons_self) (by decide)
  refine ⟨by decide, hdistinct, by decide, ⟨by decide, ?_⟩, by decide, ?_⟩
  · rw [markdown_keeps_facts_iff [] none none [twoUnknown] hdistinct]
    exact htwo
  · rw [txt_keeps_facts_iff [] none none [twoUnknown] hdistinct]
    exact htwo

end Zulangue.Export
