import Zulangue.Lib.Text
import Zulangue.Lib.Word

/-!
# What a realtime capture stores

The row types of `vt-store/src/notebook_capture_store.rs` and the language codes they
share. Time stamps of rows (`created_at`, `updated_at`) are left out: nothing is decided
by them.
-/

namespace Zulangue.Capture

open Zulangue.Lib.Text

inductive UtteranceCompletion where
  | partial_
  | complete
  deriving DecidableEq, Repr

inductive UtteranceVariantRole where
  | source
  | translation
  deriving DecidableEq, Repr

inductive UtteranceVariantState where
  | waiting
  | ready
  | failed
  | unavailable
  deriving DecidableEq, Repr

inductive UtteranceAlignment where
  | paired
  | sourceOnly
  | translationPending
  | outsideLanguagePair
  deriving DecidableEq, Repr

structure RealtimeUtteranceVariant where
  language : String
  role : UtteranceVariantRole
  text : Option String
  state : UtteranceVariantState
  completion : Option UtteranceCompletion
  revision : Nat
  projectionRevision : Nat
  editRevision : Nat
  deriving DecidableEq, Repr

structure RealtimeUtterance where
  id : String
  sessionId : String
  sequence : Nat
  sessionSpeakerId : Option String
  sourceLanguage : String
  sourceText : String
  sourceStartMs : Option Nat
  sourceEndMs : Option Nat
  translatedLanguage : Option String
  translatedText : Option String
  revision : Nat
  completion : UtteranceCompletion
  alignment : UtteranceAlignment
  sourceProjectionRevision : Nat
  sourceEditRevision : Nat
  variants : List RealtimeUtteranceVariant
  deriving DecidableEq, Repr

structure RealtimeTranslationInboxKey where
  sessionId : String
  laneIndex : Nat
  groupEpoch : Nat
  providerSequence : Nat
  targetLanguage : String
  deriving DecidableEq, Repr

structure RealtimeTranslationInboxItem where
  key : RealtimeTranslationInboxKey
  sourceLanguage : String
  sourceText : String
  sourceStartMs : Option Nat
  sourceEndMs : Option Nat
  translatedText : Option String
  completion : Option UtteranceCompletion
  withdrawn : Bool
  revision : Nat
  boundUtteranceId : Option String
  boundSequence : Option Nat
  deriving DecidableEq, Repr

/-- `str::to_ascii_lowercase`. -/
def toAsciiLowercase (cs : List Char) : List Char := cs.map Char.toLower

/-- `canonical_language` of the store. -/
def canonicalLanguage (value : String) : String :=
  String.ofList (toAsciiLowercase (trim ((trim value.toList).takeWhile (· ≠ '-'))))

/-- `normalize_language` of the runtime: splits before it trims. -/
def normalizeLanguage (value : String) : String :=
  String.ofList (toAsciiLowercase (trim (value.toList.takeWhile (· ≠ '-'))))

/-- Both are the primary subtag, trimmed and in lower case. -/
theorem normalizeLanguage_eq (value : String) : normalizeLanguage value = canonicalLanguage value := by
  rw [normalizeLanguage, canonicalLanguage, trim_takeWhile_trim]
  intro c hc
  rw [decide_eq_true_eq]
  rintro rfl
  cases hc

/-- A canonical language is its own. -/
@[simp] theorem canonicalLanguage_canonicalLanguage (value : String) :
    canonicalLanguage (canonicalLanguage value) = canonicalLanguage value := by
  have hp : ∀ c : Char, decide (c.toLower ≠ '-') = decide (c ≠ '-') := by
    intro c
    simp only [ne_eq, toLower_eq_hyphen]
  let y := trim ((trim value.toList).takeWhile (· ≠ '-'))
  have hall : ∀ c ∈ y, decide (c ≠ '-') = true := by
    intro c hc
    have hsub : List.Sublist y ((trim value.toList).takeWhile (· ≠ '-')) :=
      (prefix_trimEnd _).sublist.trans (List.dropWhile_sublist _)
    simpa using List.mem_takeWhile_imp (hsub.subset hc)
  have htrim : trim (y.map Char.toLower) = y.map Char.toLower := by
    rw [trim_map isWhitespace_toLower, trim_trim]
  have htake : (y.map Char.toLower).takeWhile (· ≠ '-') = y.map Char.toLower := by
    rw [List.takeWhile_eq_self_iff]
    intro c hc
    obtain ⟨d, hd, rfl⟩ := List.mem_map.mp hc
    rw [hp]
    exact hall d hd
  have hlower : (y.map Char.toLower).map Char.toLower = y.map Char.toLower := by
    rw [List.map_map]
    apply List.map_congr_left
    intro c _
    exact toLower_toLower c
  have hcanonical : canonicalLanguage value = String.ofList (y.map Char.toLower) := rfl
  rw [hcanonical, canonicalLanguage, String.toList_ofList, htrim, htake, htrim, toAsciiLowercase, hlower]

end Zulangue.Capture
