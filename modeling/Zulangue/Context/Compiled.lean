import Zulangue.Context.Budget

/-!
# What a compiled Context holds

The Context is within its budget, its entries and its text are what fitted in order, and its
receipt accounts for all that was parsed.
-/

namespace Zulangue.Context

open Zulangue.Lib.Greedy

/-! ## The candidates of a source -/

namespace ParsedSource

def origin (source : ParsedSource) : CandidateOrigin := source.receipt.origin

def items (source : ParsedSource) : Nat :=
  source.translations.length + source.terms.length + source.general.length + source.texts.length

def scalars (source : ParsedSource) : Nat :=
  (source.translations.map translationList.scalars).sum + (source.terms.map termList.scalars).sum +
    (source.general.map generalList.scalars).sum + (source.texts.map String.length).sum

/-- Nothing is included yet, and no text is empty. -/
structure Fresh (source : ParsedSource) : Prop where
  items : source.receipt.includedItems = 0
  scalars : source.receipt.includedScalars = 0
  texts : ∀ text ∈ source.texts, text ≠ ""

end ParsedSource

section
variable {α : Type} {values : ParsedSource → List α} {parsed : List ParsedSource}

theorem values_candidatesOf : (candidatesOf values parsed).map Candidate.value = parsed.flatMap values := by
  simp [candidatesOf, List.map_flatMap, Function.comp_def]

theorem origin_candidatesOf {candidate : Candidate α} (h : candidate ∈ candidatesOf values parsed) :
    candidate.origin ∈ parsed.map ParsedSource.origin := by
  obtain ⟨source, hsource, hcandidate⟩ := List.mem_flatMap.mp h
  obtain ⟨value, -, rfl⟩ := List.mem_map.mp hcandidate
  exact List.mem_map_of_mem hsource

theorem offered_candidatesOf_cons (origin : CandidateOrigin) (count : α → Nat) (source : ParsedSource) :
    offered origin count (candidatesOf values (source :: parsed)) =
      (if source.origin = origin then ((values source).map count).sum else 0) +
        offered origin count (candidatesOf values parsed) := by
  have hsource : (((values source).map fun value => (⟨source.receipt.origin, value⟩ : Candidate α)).map
      fun candidate => share origin candidate.origin (count candidate.value)).sum =
      if source.origin = origin then ((values source).map count).sum else 0 := by
    rw [List.map_map]
    split
    · next hhere =>
      have hcount : ((fun candidate : Candidate α => share origin candidate.origin (count candidate.value)) ∘
          fun value => (⟨source.receipt.origin, value⟩ : Candidate α)) = count := by
        funext value
        exact if_pos hhere
      rw [hcount]
    · next hother =>
      have hcount : ((fun candidate : Candidate α => share origin candidate.origin (count candidate.value)) ∘
          fun value => (⟨source.receipt.origin, value⟩ : Candidate α)) = fun _ => 0 := by
        funext value
        exact if_neg hother
      simp [hcount]
  simp only [offered, candidatesOf, List.flatMap_cons, List.map_append, List.sum_append] at hsource ⊢
  rw [hsource]

/-- The candidates at the origin of a source are its own. -/
theorem offered_candidatesOf (hdistinct : (parsed.map ParsedSource.origin).Nodup) {source : ParsedSource}
    (hsource : source ∈ parsed) (count : α → Nat) :
    offered source.origin count (candidatesOf values parsed) = ((values source).map count).sum := by
  have hnone : ∀ {others : List ParsedSource}, source.origin ∉ others.map ParsedSource.origin →
      offered source.origin count (candidatesOf values others) = 0 := by
    intro others hothers
    induction others with
    | nil => rfl
    | cons other others ih =>
      rw [List.map_cons, List.mem_cons, not_or] at hothers
      rw [offered_candidatesOf_cons, if_neg (Ne.symm hothers.1), ih hothers.2]
  induction parsed with
  | nil => cases hsource
  | cons other others ih =>
    rw [List.map_cons, List.nodup_cons] at hdistinct
    rw [offered_candidatesOf_cons]
    rcases List.mem_cons.mp hsource with rfl | hsource
    · rw [if_pos rfl, hnone hdistinct.1, Nat.add_zero]
    · have hne : other.origin ≠ source.origin :=
        fun heq => hdistinct.1 (heq ▸ List.mem_map_of_mem hsource)
      rw [if_neg hne, ih hdistinct.2 hsource, Nat.zero_add]

end

/-- With distinct receipts, the sum over the receipts of a source is its receipt's number. -/
theorem receiptSum_eq {sources : List ContextReceiptSource}
    (hdistinct : (sources.map ContextReceiptSource.origin).Nodup) {receipt : ContextReceiptSource}
    (hreceipt : receipt ∈ sources) (f : ContextReceiptSource → Nat) :
    receiptSum f receipt.origin sources = f receipt := by
  have hnone : ∀ {others : List ContextReceiptSource}, receipt.origin ∉ others.map ContextReceiptSource.origin →
      receiptSum f receipt.origin others = 0 := by
    intro others hothers
    induction others with
    | nil => rfl
    | cons other others ih =>
      rw [List.map_cons, List.mem_cons, not_or] at hothers
      have hrest := ih hothers.2
      simp only [receiptSum, List.map_cons, List.sum_cons, if_neg (Ne.symm hothers.1)] at hrest ⊢
      omega
  induction sources with
  | nil => cases hreceipt
  | cons other others ih =>
    rw [List.map_cons, List.nodup_cons] at hdistinct
    rcases List.mem_cons.mp hreceipt with rfl | hreceipt
    · have hothers := hnone hdistinct.1
      simp only [receiptSum, List.map_cons, List.sum_cons, if_true] at hothers ⊢
      omega
    · have hne : other.origin ≠ receipt.origin :=
        fun heq => hdistinct.1 (heq ▸ List.mem_map_of_mem hreceipt)
      have hrest := ih hdistinct.2 hreceipt
      simp only [receiptSum, List.map_cons, List.sum_cons, if_neg hne] at hrest ⊢
      omega

/-! ## The four passes -/

/-- What is left out of one source, by its numbers. -/
structure AccountsFor (receipt : ContextReceiptSource) (omissions : List ContextOmission)
    (source : ParsedSource) : Prop where
  origin : receipt.origin = source.origin
  items : receipt.includedItems + omissionSum wholeItems source.origin omissions = source.items
  scalars : receipt.includedScalars + omissionSum ContextOmission.omittedScalars source.origin omissions =
    source.scalars
  truncated : omissionSum truncatedItems source.origin omissions ≤ receipt.includedItems

/-- The Context of the sources `parsed` within `limit`. -/
structure Compiled (limit : Nat) (parsed : List ParsedSource) (c : ContextCompilation) : Prop where
  json : c.contextJson = String.ofList c.context.toJson
  budget : c.contextJson.length ≤ limit
  translations : Picks
    (fun taken => serializedScalarCount { emptyContext with translationTerms := taken } ≤ limit)
    (parsed.flatMap ParsedSource.translations) c.context.translationTerms
  terms : Picks
    (fun taken => serializedScalarCount { c.context with terms := taken, general := [], text := "" } ≤ limit)
    (parsed.flatMap ParsedSource.terms) c.context.terms
  general : Picks
    (fun taken => serializedScalarCount { c.context with general := taken, text := "" } ≤ limit)
    (parsed.flatMap ParsedSource.general) c.context.general
  text : ∃ pieces, c.context.text = joined pieces ∧
    PicksCut (fun taken => serializedScalarCount { c.context with text := joined taken } ≤ limit)
      ((parsed.flatMap ParsedSource.texts).map String.toList) pieces
  receipts : c.receipt.sources.map ContextReceiptSource.origin = parsed.map ParsedSource.origin
  accounts : ∀ source ∈ parsed, ∃ receipt ∈ c.receipt.sources,
    AccountsFor receipt c.receipt.omissions source

/-- One pass behind the other, each on the Context that the one before left. -/
structure FourPasses (limit : Nat) (parsed : List ParsedSource) (start last : Compiling)
    (translations : List SonioxTranslationTerm) (terms : List String) (general : List SonioxGeneralContext)
    (pieces : List (List Char)) : Prop where
  picksTranslations : Picks
    (fun taken => serializedScalarCount { emptyContext with translationTerms := taken } ≤ limit)
    (parsed.flatMap ParsedSource.translations) translations
  picksTerms : Picks (fun taken => serializedScalarCount ⟨translations, taken, [], ""⟩ ≤ limit)
    (parsed.flatMap ParsedSource.terms) terms
  picksGeneral : Picks (fun taken => serializedScalarCount ⟨translations, terms, taken, ""⟩ ≤ limit)
    (parsed.flatMap ParsedSource.general) general
  picksTexts : PicksCut (fun taken => serializedScalarCount ⟨translations, terms, general, joined taken⟩ ≤ limit)
    ((parsed.flatMap ParsedSource.texts).map String.toList) pieces
  context : last.context = ⟨translations, terms, general, joined pieces⟩
  sources : last.sources.map ContextReceiptSource.origin = start.sources.map ContextReceiptSource.origin
  accounts : ∀ origin, Accounted start origin 0 0 → Accounted last origin
    (offered origin (fun _ => 1) (candidatesOf ParsedSource.translations parsed) +
      offered origin (fun _ => 1) (candidatesOf ParsedSource.terms parsed) +
      offered origin (fun _ => 1) (candidatesOf ParsedSource.general parsed) +
      offered origin (fun _ => 1) (candidatesOf ParsedSource.texts parsed))
    (offered origin translationList.scalars (candidatesOf ParsedSource.translations parsed) +
      offered origin termList.scalars (candidatesOf ParsedSource.terms parsed) +
      offered origin generalList.scalars (candidatesOf ParsedSource.general parsed) +
      offered origin String.length (candidatesOf ParsedSource.texts parsed))

theorem compileSources_fourPasses {limit : Nat} {parsed : List ParsedSource}
    (hfresh : ∀ source ∈ parsed, source.Fresh) :
    ∃ translations terms general pieces, FourPasses limit parsed
      { context := emptyContext, sources := parsed.map ParsedSource.receipt, omissions := [] }
      (compileSources limit parsed) translations terms general pieces := by
  let start : Compiling :=
    { context := emptyContext, sources := parsed.map ParsedSource.receipt, omissions := [] }
  have hknown : ∀ {α : Type} {values : ParsedSource → List α} {compiling : Compiling},
      compiling.sources.map ContextReceiptSource.origin = start.sources.map ContextReceiptSource.origin →
      ∀ candidate ∈ candidatesOf values parsed,
        candidate.origin ∈ compiling.sources.map ContextReceiptSource.origin := by
    intro α values compiling hsources candidate hcandidate
    rw [hsources, List.map_map]
    exact origin_candidatesOf hcandidate
  have h₁ := @compileList_passed _ _ translationList limit start (candidatesOf ParsedSource.translations parsed)
    rfl (hknown rfl)
  let first := compileList translationList limit (candidatesOf ParsedSource.translations parsed) start
  have hfirst : first.context = ⟨first.context.translationTerms, [], [], ""⟩ := h₁.context
  have h₂ := @compileList_passed _ _ termList limit first (candidatesOf ParsedSource.terms parsed)
    (by rw [hfirst]; rfl) (hknown h₁.sources)
  let second := compileList termList limit (candidatesOf ParsedSource.terms parsed) first
  have hsecond : second.context = ⟨first.context.translationTerms, second.context.terms, [], ""⟩ :=
    h₂.context.trans (by rw [hfirst]; rfl)
  have hsources₂ := h₂.sources.trans h₁.sources
  have h₃ := @compileList_passed _ _ generalList limit second (candidatesOf ParsedSource.general parsed)
    (by rw [hsecond]; rfl) (hknown hsources₂)
  let third := compileList generalList limit (candidatesOf ParsedSource.general parsed) second
  have hthird : third.context =
      ⟨first.context.translationTerms, second.context.terms, third.context.general, ""⟩ :=
    h₃.context.trans (by rw [hsecond]; rfl)
  have hsources₃ := h₃.sources.trans hsources₂
  have hvalues : ∀ candidate ∈ candidatesOf ParsedSource.texts parsed, candidate.value ≠ "" := by
    intro candidate hcandidate
    obtain ⟨source, hsource, hcandidate⟩ := List.mem_flatMap.mp hcandidate
    obtain ⟨text, htext, rfl⟩ := List.mem_map.mp hcandidate
    exact (hfresh source hsource).texts text htext
  obtain ⟨pieces, h₄⟩ := @compileTexts_passed limit third (candidatesOf ParsedSource.texts parsed)
    (by rw [hthird]) (hknown hsources₃) hvalues
  refine ⟨first.context.translationTerms, second.context.terms, third.context.general, pieces, ?_⟩
  constructor
  · exact values_candidatesOf ▸ h₁.picks
  · have hpicks := h₂.picks
    rw [values_candidatesOf, hfirst] at hpicks
    exact hpicks
  · have hpicks := h₃.picks
    rw [values_candidatesOf, hsecond] at hpicks
    exact hpicks
  · have hpicks := h₄.picks
    rw [hthird, ← Function.comp_def, ← List.map_map, values_candidatesOf] at hpicks
    exact hpicks
  · have hlast := h₄.context
    rw [hthird] at hlast
    exact hlast
  · exact h₄.sources.trans hsources₃
  · intro origin hstart
    have hlast := h₄.accounts origin _ _ (h₃.accounts origin _ _ (h₂.accounts origin _ _
      (h₁.accounts origin 0 0 hstart)))
    simp only [Nat.zero_add] at hlast
    exact hlast

/-- Before the passes, nothing is accounted for. -/
theorem accounted_fresh {parsed : List ParsedSource} (hfresh : ∀ source ∈ parsed, source.Fresh)
    (origin : CandidateOrigin) :
    Accounted { context := emptyContext, sources := parsed.map ParsedSource.receipt, omissions := [] }
      origin 0 0 := by
  have hzero : ∀ f : ContextReceiptSource → Nat, (∀ source ∈ parsed, f source.receipt = 0) →
      receiptSum f origin (parsed.map ParsedSource.receipt) = 0 := by
    intro f hf
    rw [receiptSum, List.sum_eq_zero_iff_forall_eq_nat]
    intro n hn
    obtain ⟨receipt, hreceipt, rfl⟩ := List.mem_map.mp hn
    obtain ⟨source, hsource, rfl⟩ := List.mem_map.mp hreceipt
    simp [hf source hsource]
  have hitems := hzero ContextReceiptSource.includedItems fun source hsource => (hfresh source hsource).items
  have hscalars := hzero ContextReceiptSource.includedScalars fun source hsource => (hfresh source hsource).scalars
  constructor <;> simp only [omissionSum, hitems, hscalars, List.map_nil, List.sum_nil, Nat.le_refl,
    Nat.add_zero]

section
variable {Key : Type} (P : Primitives Key)

theorem compileSources_compiled {limit : Nat} (hlimit : 2 ≤ limit) (notebookId : String)
    {parsed : List ParsedSource} (hdistinct : (parsed.map ParsedSource.origin).Nodup)
    (hfresh : ∀ source ∈ parsed, source.Fresh) :
    Compiled limit parsed (compilationOf P notebookId (compileSources limit parsed)) := by
  obtain ⟨translations, terms, general, pieces, hpasses⟩ := compileSources_fourPasses hfresh
  have hempty : serializedScalarCount emptyContext ≤ limit := by
    rw [serializedScalarCount_empty]
    exact hlimit
  have hfits : serializedScalarCount ⟨translations, terms, general, joined pieces⟩ ≤ limit :=
    hpasses.picksTexts.fits_taken (hpasses.picksGeneral.fits_taken (hpasses.picksTerms.fits_taken
      (hpasses.picksTranslations.fits_taken hempty)))
  have hcontext : (compilationOf P notebookId (compileSources limit parsed)).context =
    ⟨translations, terms, general, joined pieces⟩ := hpasses.context
  have hsources : (compileSources limit parsed).sources.map ContextReceiptSource.origin =
      parsed.map ParsedSource.origin := hpasses.sources.trans (List.map_map ..)
  constructor
  · rfl
  · change (String.ofList (compilationOf P notebookId (compileSources limit parsed)).context.toJson).length ≤ limit
    rw [hcontext, String.length_ofList]
    exact hfits
  · rw [hcontext]
    exact hpasses.picksTranslations
  · rw [hcontext]
    exact hpasses.picksTerms
  · rw [hcontext]
    exact hpasses.picksGeneral
  · rw [hcontext]
    exact ⟨pieces, rfl, hpasses.picksTexts⟩
  · exact hsources
  · intro source hsource
    obtain ⟨receipt, hreceipt, horigin⟩ :=
      List.mem_map.mp (hsources ▸ List.mem_map_of_mem hsource : source.origin ∈ _)
    have haccounts := hpasses.accounts source.origin (accounted_fresh hfresh source.origin)
    have hreceipts : ∀ f : ContextReceiptSource → Nat,
        receiptSum f source.origin (compileSources limit parsed).sources = f receipt := by
      intro f
      rw [← horigin]
      exact receiptSum_eq (hsources ▸ hdistinct) hreceipt f
    obtain ⟨hitems, hscalars, htruncated⟩ := haccounts
    simp only [offered_candidatesOf hdistinct hsource, hreceipts] at hitems hscalars htruncated
    refine ⟨receipt, hreceipt, horigin, ?_, hscalars, htruncated⟩
    simp only [List.map_const', List.sum_replicate_nat, Nat.mul_one] at hitems
    exact hitems

end

end Zulangue.Context
