import Zulangue.Lib.Latest
import Zulangue.Lib.Text
import Zulangue.Export.Subtitles

/-!
# The facts of an utterance

`utterance_facts` of `vt-export/src/formats.rs`, with the comparison of language tags. A fact
is a text that is not blank: the source, the last translation of every other language, and all
texts of unknown language.
-/

namespace Zulangue.Export

open Zulangue.Lib.Text Zulangue.Lib.Latest

structure UtteranceFact where
  language : Text
  text : Text
  isSource : Bool
  deriving DecidableEq, Repr

/-! ## Languages -/

/-- `str::eq_ignore_ascii_case`. -/
def eqIgnoreAsciiCase (a b : Text) : Bool := a.map Char.toLower = b.map Char.toLower

/-- What stands before the first `-` or `_`. -/
def baseLanguage (value : Text) : Text := (trim value).takeWhile fun c => c ≠ '-' && c ≠ '_'

def sameLanguage (a b : Text) : Bool := eqIgnoreAsciiCase (baseLanguage a) (baseLanguage b)

def isUnknownLanguage (language : Text) : Bool :=
  trim language = [] || eqIgnoreAsciiCase language "und".toList

def languageIndex (languageColumns : List Text) (language : Text) : Option Nat :=
  languageColumns.findIdx? fun column => sameLanguage column language

def displayLanguage (language : Text) : Text :=
  if trim language = [] then "und".toList else language

/-! ## Facts -/

/-- Two texts of one language that is known. -/
def sameKnown (a b : UtteranceFact) : Bool :=
  !isUnknownLanguage a.language && !isUnknownLanguage b.language && sameLanguage a.language b.language

/-- `new` replaces the first fact of its language, unless that is the source. -/
def replaceFact (new : UtteranceFact) : List UtteranceFact → List UtteranceFact
  | [] => [new]
  | existing :: rest =>
    if sameKnown existing new then (if existing.isSource then existing else new) :: rest
    else existing :: replaceFact new rest

def pushOrReplaceFact (facts : List UtteranceFact) (language text : Text) (isSource : Bool) :
    List UtteranceFact :=
  let text := trim text
  if text = [] then facts else replaceFact ⟨language, text, isSource⟩ facts

def utteranceFacts (utterance : ExportUtterance) : List UtteranceFact :=
  let facts := pushOrReplaceFact [] utterance.sourceLanguage utterance.sourceText true
  let facts := match utterance.translatedText with
    | some text =>
      pushOrReplaceFact facts (utterance.translatedLanguage.getD "und".toList) text false
    | none => facts
  utterance.languageVariants.foldl
    (fun facts variant => pushOrReplaceFact facts variant.language variant.text false) facts

/-! ## What the facts are -/

/-- A text that is not blank, without the white space around it. -/
def given (language text : Text) (isSource : Bool) : Option UtteranceFact :=
  if trim text = [] then none else some ⟨language, trim text, isSource⟩

def sourceFact (utterance : ExportUtterance) : Option UtteranceFact :=
  given utterance.sourceLanguage utterance.sourceText true

/-- The translations as they were given, the one beside the source first. -/
def translations (utterance : ExportUtterance) : List ExportLanguageVariant :=
  (utterance.translatedText.map fun text =>
    ⟨utterance.translatedLanguage.getD "und".toList, text⟩).toList ++ utterance.languageVariants

def translationFacts (utterance : ExportUtterance) : List UtteranceFact :=
  (translations utterance).filterMap fun variant => given variant.language variant.text false

/-- The source, for every other language the last translation, and all texts of unknown
language. -/
def factsOf (utterance : ExportUtterance) : List UtteranceFact :=
  (sourceFact utterance).toList ++
    latest sameKnown ((translationFacts utterance).filter fun fact =>
      !(sourceFact utterance).any fun source => sameKnown source fact)

theorem sameLanguage_iff {a b : Text} :
    sameLanguage a b = true ↔ (baseLanguage a).map Char.toLower = (baseLanguage b).map Char.toLower := by
  simp [sameLanguage, eqIgnoreAsciiCase]

theorem sameLanguage_comm (a b : Text) : sameLanguage a b = sameLanguage b a := by
  rw [Bool.eq_iff_iff, sameLanguage_iff, sameLanguage_iff, eq_comm]

theorem sameLanguage_trans {a b c : Text} (hab : sameLanguage a b = true) (hbc : sameLanguage b c = true) :
    sameLanguage a c = true := by
  rw [sameLanguage_iff] at *
  exact hab.trans hbc

/-- The tag for an unknown language is its own base. -/
theorem baseLanguage_und {language : Text} (h : eqIgnoreAsciiCase language "und".toList = true) :
    baseLanguage language = language := by
  rw [eqIgnoreAsciiCase, decide_eq_true_eq] at h
  have hlower : ∀ c ∈ language, c.toLower ∈ "und".toList.map Char.toLower := by
    intro c hc
    rw [← h]
    exact List.mem_map_of_mem hc
  rw [baseLanguage, trim_eq_self, List.takeWhile_eq_self_iff]
  · intro c hc
    have hmem := hlower c hc
    have hne : c ≠ '-' ∧ c ≠ '_' := by
      constructor <;> rintro rfl <;> revert hmem <;> decide
    simp [hne]
  · intro c hc
    have hletter : c.toLower = 'u' ∨ c.toLower = 'n' ∨ c.toLower = 'd' := by simpa using hlower c hc
    rw [← isWhitespace_toLower]
    rcases hletter with h | h | h <;> rw [h] <;> decide

theorem sameKnown_iff {a b : UtteranceFact} :
    sameKnown a b = true ↔ isUnknownLanguage a.language = false ∧ isUnknownLanguage b.language = false ∧
      sameLanguage a.language b.language = true := by
  simp [sameKnown, and_assoc]

theorem sameKnown_kinds : Kinds sameKnown where
  symm := by
    intro a b h
    rw [sameKnown_iff] at *
    rw [sameLanguage_comm]
    exact ⟨h.2.1, h.1, h.2.2⟩
  trans := by
    intro a b c hab hbc
    rw [sameKnown_iff] at *
    exact ⟨hab.1, hbc.2.1, sameLanguage_trans hab.2.2 hbc.2.2⟩

theorem pushOrReplaceFact_eq (facts : List UtteranceFact) (language text : Text) (isSource : Bool) :
    pushOrReplaceFact facts language text isSource =
      ((given language text isSource).elim facts fun new => replaceFact new facts) := by
  rw [pushOrReplaceFact, given]
  split_ifs <;> rfl

/-- Without a source in the list the new fact is simply put in. -/
theorem replaceFact_eq_put (new : UtteranceFact) {facts : List UtteranceFact}
    (h : ∀ fact ∈ facts, fact.isSource = false) : replaceFact new facts = put sameKnown new facts := by
  induction facts with
  | nil => rfl
  | cons existing rest ih =>
    obtain ⟨hexisting, hrest⟩ := List.forall_mem_cons.mp h
    rw [replaceFact, put, hexisting, ih hrest]
    rfl

/-- The source keeps its place and its text. -/
theorem replaceFact_source {source : UtteranceFact} (h : source.isSource = true) (new : UtteranceFact)
    (facts : List UtteranceFact) :
    replaceFact new (source :: facts) =
      source :: if sameKnown source new then facts else replaceFact new facts := by
  cases hsame : sameKnown source new <;> simp [replaceFact, h, hsame]

theorem mem_put {new fact : UtteranceFact} {facts : List UtteranceFact}
    (h : fact ∈ put sameKnown new facts) : fact = new ∨ fact ∈ facts := by
  induction facts with
  | nil => exact .inl (List.mem_singleton.mp h)
  | cons existing rest ih =>
    rw [put] at h
    split at h
    · rcases List.mem_cons.mp h with h | h
      · exact .inl h
      · exact .inr (List.mem_cons_of_mem existing h)
    · rcases List.mem_cons.mp h with h | h
      · exact .inr (h ▸ List.mem_cons_self)
      · exact (ih h).imp id (List.mem_cons_of_mem existing)

theorem foldl_replaceFact {news : List UtteranceFact} (hnews : ∀ new ∈ news, new.isSource = false)
    {facts : List UtteranceFact} (h : ∀ fact ∈ facts, fact.isSource = false) :
    news.foldl (fun facts new => replaceFact new facts) facts =
      news.foldl (fun facts new => put sameKnown new facts) facts := by
  induction news generalizing facts with
  | nil => rfl
  | cons new news ih =>
    obtain ⟨hnew, hnews⟩ := List.forall_mem_cons.mp hnews
    rw [List.foldl_cons, List.foldl_cons, replaceFact_eq_put new h]
    apply ih hnews
    intro fact hfact
    rcases mem_put hfact with rfl | hfact
    · exact hnew
    · exact h fact hfact

theorem foldl_replaceFact_source {source : UtteranceFact} (h : source.isSource = true)
    (news facts : List UtteranceFact) :
    news.foldl (fun facts new => replaceFact new facts) (source :: facts) =
      source :: (news.filter fun new => !sameKnown source new).foldl
        (fun facts new => replaceFact new facts) facts := by
  induction news generalizing facts with
  | nil => rfl
  | cons new news ih =>
    rw [List.foldl_cons, replaceFact_source h, ih]
    cases hsame : sameKnown source new <;> simp [hsame]

theorem foldl_pushOrReplaceFact (variants : List ExportLanguageVariant) (facts : List UtteranceFact) :
    variants.foldl (fun facts variant => pushOrReplaceFact facts variant.language variant.text false) facts =
      (variants.filterMap fun variant => given variant.language variant.text false).foldl
        (fun facts new => replaceFact new facts) facts := by
  induction variants generalizing facts with
  | nil => rfl
  | cons variant variants ih =>
    rw [List.foldl_cons, ih, pushOrReplaceFact_eq, List.filterMap_cons]
    cases given variant.language variant.text false <;> rfl

/-- The source is put in first, then the translations one by one. -/
theorem utteranceFacts_eq (utterance : ExportUtterance) :
    utteranceFacts utterance = (translationFacts utterance).foldl (fun facts new => replaceFact new facts)
      (sourceFact utterance).toList := by
  have hsource : pushOrReplaceFact [] utterance.sourceLanguage utterance.sourceText true =
      (sourceFact utterance).toList := by
    rw [pushOrReplaceFact_eq, sourceFact]
    cases given utterance.sourceLanguage utterance.sourceText true <;> rfl
  rw [utteranceFacts, hsource, translationFacts, ← foldl_pushOrReplaceFact, translations, List.foldl_append]
  cases utterance.translatedText <;> rfl

theorem given_spec {language text : Text} {isSource : Bool} {fact : UtteranceFact}
    (h : given language text isSource = some fact) : fact.text ≠ [] ∧ fact.isSource = isSource := by
  rw [given] at h
  split at h
  · cases h
  · next htext =>
    obtain rfl := Option.some.inj h
    exact ⟨htext, rfl⟩

theorem isSource_translationFacts {utterance : ExportUtterance} :
    ∀ fact ∈ translationFacts utterance, fact.isSource = false := by
  intro fact hfact
  obtain ⟨variant, -, hgiven⟩ := List.mem_filterMap.mp hfact
  exact (given_spec hgiven).2

/-- The exporter merges the texts of an utterance to its facts. -/
theorem utteranceFacts_perm (utterance : ExportUtterance) :
    (utteranceFacts utterance).Perm (factsOf utterance) := by
  have hput : ∀ news : List UtteranceFact, (∀ new ∈ news, new.isSource = false) →
      (news.foldl (fun facts new => replaceFact new facts) []).Perm (latest sameKnown news) := by
    intro news hnews
    rw [foldl_replaceFact hnews (by simp)]
    have hperm := @foldl_put_perm _ sameKnown sameKnown_kinds news [] List.Pairwise.nil
    simpa using hperm
  rw [utteranceFacts_eq, factsOf]
  cases hsource : sourceFact utterance with
  | none => simpa using hput _ isSource_translationFacts
  | some source =>
    have hflag : source.isSource = true := (given_spec hsource).2
    rw [Option.toList_some, foldl_replaceFact_source hflag, List.singleton_append]
    apply List.Perm.cons
    apply hput
    intro new hnew
    exact isSource_translationFacts new (List.mem_filter.mp hnew).1

/-- No fact is blank. -/
theorem text_factsOf {utterance : ExportUtterance} {fact : UtteranceFact} (h : fact ∈ factsOf utterance) :
    fact.text ≠ [] := by
  rcases List.mem_append.mp h with h | h
  · exact (given_spec (Option.mem_toList.mp h)).1
  · have hmem := (List.mem_filter.mp (latest_subset _ h)).1
    obtain ⟨variant, -, hgiven⟩ := List.mem_filterMap.mp hmem
    exact (given_spec hgiven).1

/-- A known language has one fact. -/
theorem apart_factsOf (utterance : ExportUtterance) : Apart sameKnown (factsOf utterance) := by
  apply List.pairwise_append.mpr
  refine ⟨?_, apart_latest _, ?_⟩
  · cases sourceFact utterance <;> simp
  · intro source hsource fact hfact
    have hmem := (List.mem_filter.mp (latest_subset _ hfact)).2
    rw [Option.mem_toList.mp hsource] at hmem
    simpa using hmem

end Zulangue.Export
