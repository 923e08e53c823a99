import Zulangue.Lib.Cells
import Zulangue.Export.Facts

/-!
# Markdown, plain text and the clipboard

`export_markdown`, `export_txt` and `export_clipboard_text` of `vt-export/src/formats.rs`.
-/

namespace Zulangue.Export

open Zulangue.Lib.Text Zulangue.Lib.Cells

/-! ## Cells -/

/-- `str::replace` of single characters. -/
def replaceChars (pattern : Char → Bool) (new : Text) (value : Text) : Text :=
  value.flatMap fun c => if pattern c then new else [c]

def markdownCell (value : Text) : Text :=
  replaceChars (fun c => c = '\r' || c = '\n') "<br>".toList
    (replaceChars (· = '|') "\\|".toList (replaceChars (· = '\\') "\\\\".toList value))

def txtCell (value : Text) : Text :=
  replaceChars (fun c => c = '\r' || c = '\n' || c = '\t') " ".toList value

/-! ## Two fixed languages -/

def fixedLanguageRow (utterance : ExportUtterance) (leftLanguage rightLanguage : Text) :
    Option (Text × Text) :=
  let translatedLanguage := utterance.translatedLanguage.getD []
  let translatedText := utterance.translatedText.getD []
  if sameLanguage utterance.sourceLanguage leftLanguage then
    let right := if sameLanguage translatedLanguage rightLanguage then translatedText else []
    some (utterance.sourceText, right)
  else if sameLanguage utterance.sourceLanguage rightLanguage then
    let left := if sameLanguage translatedLanguage leftLanguage then translatedText else []
    some (left, utterance.sourceText)
  else none

/-- The language that an utterance of a single-language run is shown with. -/
def spokenLanguage (utterance : ExportUtterance) (leftLanguage : Text) : Text :=
  if utterance.sourceLanguage = [] then leftLanguage else utterance.sourceLanguage

/-! ## Language columns -/

def placeFact (languageColumns : List Text) (row : List Text × Bool) (fact : UtteranceFact) :
    List Text × Bool :=
  match languageIndex languageColumns fact.language with
  | some index => (row.1.set index fact.text, true)
  | none => row

def orderedLanguageRow (utterance : ExportUtterance) (languageColumns : List Text) : Option (List Text) :=
  let row := (utteranceFacts utterance).foldl (placeFact languageColumns)
    (List.replicate languageColumns.length [], false)
  if row.2 then some row.1 else none

def isUnrepresented (languageColumns : List Text) (fact : UtteranceFact) : Bool :=
  (languageIndex languageColumns fact.language).isNone

def hasUnrepresentedFact (utterance : ExportUtterance) (languageColumns : List Text) : Bool :=
  (utteranceFacts utterance).any (isUnrepresented languageColumns)

/-- A fact outside the columns, with its language. -/
def markdownEntry (utterance : ExportUtterance) (fact : UtteranceFact) : Text :=
  let label :=
    if fact.isSource then markdownCell (displayLanguage fact.language)
    else markdownCell (displayLanguage fact.language) ++ " (翻译自 ".toList ++
      markdownCell (displayLanguage utterance.sourceLanguage) ++ ")".toList
  "- **".toList ++ label ++ "**: ".toList ++ markdownCell fact.text

def txtEntry (utterance : ExportUtterance) (fact : UtteranceFact) : Text :=
  let label :=
    if fact.isSource then txtCell (displayLanguage fact.language)
    else txtCell (displayLanguage fact.language) ++ " 翻译自 ".toList ++
      txtCell (displayLanguage utterance.sourceLanguage)
  "[".toList ++ label ++ "] ".toList ++ txtCell fact.text

def appendUnrepresented (entry : ExportUtterance → UtteranceFact → Text) (utterance : ExportUtterance)
    (languageColumns : List Text) : Text :=
  unlines (((utteranceFacts utterance).filter (isUnrepresented languageColumns)).map (entry utterance))

def appendUnrepresentedMarkdown : ExportUtterance → List Text → Text := appendUnrepresented markdownEntry

def appendUnrepresentedTxt : ExportUtterance → List Text → Text := appendUnrepresented txtEntry

def otherHeading : Text := "### 其他语言内容".toList

def markdownColumns (languageColumns : List Text) (utterances : List ExportUtterance) : Text :=
  (if languageColumns = [] then []
    else
      unlines [tableRow (languageColumns.map markdownCell),
        tableRow (List.replicate languageColumns.length "---".toList)] ++
      unlines (utterances.filterMap fun utterance =>
        (orderedLanguageRow utterance languageColumns).map fun cells => tableRow (cells.map markdownCell)) ++
      "\n".toList) ++
  (if utterances.any fun utterance => hasUnrepresentedFact utterance languageColumns then
      unlines [otherHeading, []] ++
      (utterances.flatMap fun utterance => appendUnrepresentedMarkdown utterance languageColumns) ++
      "\n".toList
    else [])

def tabRow (cells : List Text) : Text := "\t".toList.intercalate (cells.map txtCell)

def txtColumns (languageColumns : List Text) (utterances : List ExportUtterance) : Text :=
  (if languageColumns = [] then []
    else
      unlines [tabRow languageColumns] ++
      unlines (utterances.filterMap fun utterance =>
        (orderedLanguageRow utterance languageColumns).map tabRow)) ++
  utterances.flatMap fun utterance => appendUnrepresentedTxt utterance languageColumns

/-! ## The documents -/

def markdownHeading (title : Text) : Text := "# ".toList ++ title ++ "\n\n## 转录\n\n".toList

def markdownTranscript : ExportTranscript → Text
  | .asyncTokens tokens =>
    tokens.flatMap fun token =>
      "[".toList ++ formatTimeVtt token.startMs ++ "] ".toList ++ token.text ++ "\n\n".toList
  | .notebookCapture leftLanguage (some rightLanguage) utterances =>
    let outsidePair := utterances.filter fun utterance =>
      (fixedLanguageRow utterance leftLanguage rightLanguage).isNone
    unlines [tableRow [markdownCell leftLanguage, markdownCell rightLanguage],
      tableRow ["---".toList, "---".toList]] ++
    unlines (utterances.filterMap fun utterance =>
      (fixedLanguageRow utterance leftLanguage rightLanguage).map fun cells =>
        tableRow [markdownCell cells.1, markdownCell cells.2]) ++
    "\n".toList ++
    (if outsidePair = [] then []
      else "### 其他语言\n\n".toList ++
        unlines (outsidePair.map fun utterance => "- **".toList ++ markdownCell utterance.sourceLanguage ++
          "**: ".toList ++ markdownCell utterance.sourceText) ++
        "\n".toList)
  | .notebookCapture leftLanguage none utterances =>
    utterances.flatMap fun utterance =>
      (utterance.sourceStartMs.elim [] fun ms => "[".toList ++ formatTimeVtt ms ++ "] ".toList) ++
      "**".toList ++ markdownCell (spokenLanguage utterance leftLanguage) ++ "**: ".toList ++
      markdownCell utterance.sourceText ++ "\n\n".toList
  | .notebookCaptureLanguageColumns languageColumns _ utterances =>
    markdownColumns languageColumns utterances

def markdownSummary (summary : Option Text) : Text :=
  summary.elim [] fun summary => "## 总结\n\n".toList ++ summary ++ "\n".toList

def exportMarkdown (data : ExportData) : Except ExportError Text :=
  .ok (markdownHeading data.title ++ markdownTranscript data.transcript ++ markdownSummary data.summary)

def txtHeading (title : Text) : Text := title ++ "\n\n".toList

def txtTranscript : ExportTranscript → Text
  | .asyncTokens tokens => unlines (tokens.map ExportToken.text)
  | .notebookCapture leftLanguage (some rightLanguage) utterances =>
    leftLanguage ++ "\t".toList ++ rightLanguage ++ "\n".toList ++
    unlines (utterances.map fun utterance =>
      match fixedLanguageRow utterance leftLanguage rightLanguage with
      | some (left, right) => txtCell left ++ "\t".toList ++ txtCell right
      | none => "[".toList ++ utterance.sourceLanguage ++ "] ".toList ++ txtCell utterance.sourceText)
  | .notebookCapture leftLanguage none utterances =>
    unlines (utterances.map fun utterance => "[".toList ++ spokenLanguage utterance leftLanguage ++
      "] ".toList ++ txtCell utterance.sourceText)
  | .notebookCaptureLanguageColumns languageColumns _ utterances => txtColumns languageColumns utterances

def txtSummary (summary : Option Text) : Text :=
  summary.elim [] fun summary => "\n---\n\n".toList ++ summary ++ "\n".toList

def exportTxt (data : ExportData) : Except ExportError Text :=
  .ok (txtHeading data.title ++ txtTranscript data.transcript ++ txtSummary data.summary)

/-! ## The clipboard -/

structure ClipboardUtterance where
  startMs : Option Nat
  speakerName : Option Text
  sourceLanguage : Text
  sourceText : Text
  translatedLanguage : Option Text
  translatedText : Option Text
  languageVariants : List ExportLanguageVariant
  deriving DecidableEq, Repr

structure ClipboardTranscript where
  title : Option Text
  languageColumns : List Text
  utterances : List ClipboardUtterance
  deriving DecidableEq, Repr

def ClipboardUtterance.exportUtterance (utterance : ClipboardUtterance) : ExportUtterance where
  sourceLanguage := utterance.sourceLanguage
  sourceText := utterance.sourceText
  sourceStartMs := utterance.startMs
  sourceEndMs := none
  translatedLanguage := utterance.translatedLanguage
  translatedText := utterance.translatedText
  languageVariants := utterance.languageVariants

def clipboardLine (language text : Text) : Text :=
  txtCell (displayLanguage language) ++ ": ".toList ++ txtCell text

/-- The facts of one column, and the facts that are still to be emitted. -/
def emitColumn (column : Text) : List UtteranceFact → List Text × List UtteranceFact
  | [] => ([], [])
  | fact :: facts =>
    let rest := emitColumn column facts
    if sameLanguage fact.language column then (clipboardLine column fact.text :: rest.1, rest.2)
    else (rest.1, fact :: rest.2)

def emitColumns : List Text → List UtteranceFact → List Text × List UtteranceFact
  | [], facts => ([], facts)
  | column :: columns, facts =>
    let emitted := emitColumn column facts
    let rest := emitColumns columns emitted.2
    (emitted.1 ++ rest.1, rest.2)

def clipboardLanguageLines (utterance : ClipboardUtterance) (languageColumns : List Text) : List Text :=
  let emitted := emitColumns (languageColumns.filter fun column => trim column ≠ [])
    (utteranceFacts utterance.exportUtterance)
  emitted.1 ++ emitted.2.map fun fact => clipboardLine fact.language fact.text

/-- `trim`, then nothing if that is empty. -/
def nonEmpty (value : Option Text) : Option Text := (value.map trim).filter fun value => value ≠ []

/-- The line with the time and the speaker. -/
def clipboardHead (utterance : ClipboardUtterance) : List Text :=
  let timestamp := utterance.startMs.map fun ms => "[".toList ++ formatTimeVtt ms ++ "]".toList
  let speaker := (nonEmpty utterance.speakerName).map txtCell
  match timestamp, speaker with
  | some timestamp, some speaker => [timestamp ++ " ".toList ++ speaker]
  | some timestamp, none => [timestamp]
  | none, some speaker => [speaker]
  | none, none => []

def clipboardParagraph (languageColumns : List Text) (utterance : ClipboardUtterance) : Option Text :=
  let languageLines := clipboardLanguageLines utterance languageColumns
  if languageLines = [] then none
  else some ("\n".toList.intercalate (clipboardHead utterance ++ languageLines))

def clipboardTitle (title : Option Text) : List Text := ((nonEmpty title).map txtCell).toList

def exportClipboardText (data : ClipboardTranscript) : Text :=
  "\n\n".toList.intercalate
    (clipboardTitle data.title ++ data.utterances.filterMap (clipboardParagraph data.languageColumns))

end Zulangue.Export
