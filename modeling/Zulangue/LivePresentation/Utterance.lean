import Zulangue.Lib.Text

/-!
# The utterances the capture window shows

`NotebookCaptureUtteranceDTO` with its lanes, and how a language tag is reduced to its key. Lowering a
string's case is the standard library's; here it is any function.
-/

namespace Zulangue.LivePresentation

open Zulangue.Lib.Text

structure NotebookCaptureLanguageVariantDTO where
  language : String
  role : String
  text : Option String
  state : String
  completion : Option String
  projectionRevision : Nat
  editRevision : Nat
  deriving DecidableEq, Repr

/-- `revision` is the aggregate one of the provider machine. `provisionalSourceLanguage` is a hint of the
live tail while `sourceLanguage` is still `und`. -/
structure NotebookCaptureUtteranceDTO where
  id : String
  sessionId : String
  sequence : Nat
  sessionSpeakerId : Option String
  revision : Nat
  sourceLanguage : String
  provisionalSourceLanguage : Option String
  sourceText : String
  sourceStartMs : Option Nat
  sourceEndMs : Option Nat
  translatedLanguage : Option String
  translatedText : Option String
  completion : String
  alignment : String
  languageVariants : List NotebookCaptureLanguageVariantDTO
  sourceProjectionRevision : Nat
  sourceEditRevision : Nat
  deriving DecidableEq, Repr

/-- The source variant decides; without any variant the aggregate fields do. -/
def NotebookCaptureUtteranceDTO.hasSourceLane (utterance : NotebookCaptureUtteranceDTO) : Bool :=
  let sourceVariants := utterance.languageVariants.filter (·.role = "source")
  if sourceVariants = [] then decide (utterance.languageVariants = [])
  else sourceVariants.any fun variant => variant.state = "ready" ∧ variant.text.isSome ∧ variant.completion.isSome

/-- `trimmingCharacters(in: .whitespacesAndNewlines)`. -/
def trimmed (s : String) : String := String.ofList (trim s.toList)

/-- `split(separator: "-").first`, where empty parts are left out. -/
def firstSubtag (s : String) : String := String.ofList (((s.toList.splitOn '-').find? (· ≠ [])).getD [])

section
variable (lowercased : String → String)

def languageKey (language : String) : String := firstSubtag (lowercased (trimmed language))

def normalizedLanguage (language : Option String) : Option String :=
  language.bind fun language =>
    let normalized := languageKey lowercased language
    if normalized = "" then none else some normalized

/-- The normalized languages, each where it comes first. -/
def orderedLanguages (languages : List String) : List String :=
  (languages.filterMap fun language => normalizedLanguage lowercased (some language)).foldl
    (fun seen language => if language ∈ seen then seen else seen ++ [language]) []

end

end Zulangue.LivePresentation
