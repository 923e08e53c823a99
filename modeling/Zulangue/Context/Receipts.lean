import Zulangue.Context.Compile

/-!
# Sizes of a Context and the sums of its receipt
-/

namespace Zulangue.Context

open Zulangue.Lib.Cells

/-! ## Sizes -/

theorem serializedScalarCount_empty : serializedScalarCount emptyContext = 2 := by decide

theorem length_jsonFields_concat (fields : List (List Char)) (last : List Char) :
    (jsonFields (fields ++ [last])).length = (fields.map List.length).sum + last.length + fields.length + 2 := by
  simp only [jsonFields, List.length_cons, List.length_append, length_intercalate, List.map_append,
    List.sum_append, List.map_cons, List.map_nil, List.sum_cons, List.sum_nil, List.length_nil]
  omega

/-- With a text, the count grows with the text alone. -/
theorem serializedScalarCount_text (context : SonioxContext) {text : String} (h : text ≠ "") :
    serializedScalarCount { context with text } =
      serializedScalarCount { context with text := "a" } + (text.toList.flatMap Share.jsonEscape).length - 1 := by
  have hcount : ∀ text : String, text ≠ "" → serializedScalarCount { context with text } =
      ((context.listFields.map List.length).sum + context.listFields.length + 11) +
        (text.toList.flatMap Share.jsonEscape).length := by
    intro text h
    have hname : (jsonText "text").length = 6 := by decide
    rw [serializedScalarCount, SonioxContext.toJson, if_neg h, length_jsonFields_concat]
    simp only [jsonEntry, jsonText, List.length_append, List.length_cons, List.length_nil] at hname ⊢
    change (context.listFields.map List.length).sum + _ + context.listFields.length + 2 = _
    omega
  have hone : ("a".toList.flatMap Share.jsonEscape).length = 1 := by decide
  rw [hcount text h, hcount "a" (by decide), hone]
  omega

/-- A longer text takes no less. -/
theorem serializedScalarCount_mono (context : SonioxContext) {front more : List Char} (h : front ≠ []) :
    serializedScalarCount { context with text := String.ofList front } ≤
      serializedScalarCount { context with text := String.ofList (front ++ more) } := by
  have hfront : String.ofList front ≠ "" := by simpa using h
  have hmore : String.ofList (front ++ more) ≠ "" := by simp [h]
  rw [serializedScalarCount_text context hfront, serializedScalarCount_text context hmore]
  simp only [String.toList_ofList, List.flatMap_append, List.length_append]
  omega

/-! ## The receipt adds up -/

/-- The sum of `f` over the receipts of one source. -/
def receiptSum (f : ContextReceiptSource → Nat) (origin : CandidateOrigin)
    (sources : List ContextReceiptSource) : Nat :=
  (sources.map fun source => if source.origin = origin then f source else 0).sum

def omissionSum (f : ContextOmission → Nat) (origin : CandidateOrigin) (omissions : List ContextOmission) : Nat :=
  (omissions.map fun omission => if omission.origin = origin then f omission else 0).sum

/-- The items that were left out whole. -/
def wholeItems (omission : ContextOmission) : Nat :=
  if omission.reason = .truncated then 0 else omission.omittedItems

def truncatedItems (omission : ContextOmission) : Nat :=
  if omission.reason = .truncated then omission.omittedItems else 0

/-- What counts for a candidate of `other` at `origin`. -/
def share (origin other : CandidateOrigin) (n : Nat) : Nat := if other = origin then n else 0

theorem receiptSum_recordIncluded {f : ContextReceiptSource → Nat} {gain items scalars : Nat}
    (hgain : ∀ source : ContextReceiptSource, f { source with
      includedItems := source.includedItems + items, includedScalars := source.includedScalars + scalars } =
      f source + gain)
    (origin : CandidateOrigin) {other : CandidateOrigin} {sources : List ContextReceiptSource}
    (h : other ∈ sources.map ContextReceiptSource.origin) :
    receiptSum f origin (recordIncluded other items scalars sources) =
      receiptSum f origin sources + share origin other gain := by
  induction sources with
  | nil => cases h
  | cons source sources ih =>
    rw [recordIncluded]
    split
    · next hhere =>
      have horigin : ContextReceiptSource.origin { source with
          includedItems := source.includedItems + items
          includedScalars := source.includedScalars + scalars } = other := hhere
      simp only [receiptSum, share, List.map_cons, List.sum_cons, horigin, hhere, hgain]
      split_ifs <;> omega
    · next hother =>
      have hrest := ih (by simpa [hother, Ne.symm hother] using h)
      simp only [receiptSum, List.map_cons, List.sum_cons] at hrest ⊢
      omega

theorem map_origin_recordIncluded (other : CandidateOrigin) (items scalars : Nat)
    (sources : List ContextReceiptSource) :
    (recordIncluded other items scalars sources).map ContextReceiptSource.origin =
      sources.map ContextReceiptSource.origin := by
  induction sources with
  | nil => rfl
  | cons source sources ih =>
    rw [recordIncluded]
    split
    · rfl
    · rw [List.map_cons, ih, List.map_cons]

theorem omissionSum_recordOmission {f : ContextOmission → Nat} {kind : ContextContentKind}
    {reason : ContextOmissionReason} {gain items scalars : Nat} {origin other : CandidateOrigin}
    (hnew : f ⟨other.packId, other.sourceId, kind, reason, items, scalars⟩ = gain)
    (hgain : ∀ omission : ContextOmission, omission.reason = reason → f { omission with
      omittedItems := omission.omittedItems + items, omittedScalars := omission.omittedScalars + scalars } =
      f omission + gain)
    (omissions : List ContextOmission) :
    omissionSum f origin (recordOmission other kind reason items scalars omissions) =
      omissionSum f origin omissions + share origin other gain := by
  induction omissions with
  | nil =>
    have horigin : ContextOmission.origin ⟨other.packId, other.sourceId, kind, reason, items, scalars⟩ = other := rfl
    simp only [omissionSum, recordOmission, List.map_cons, List.map_nil, List.sum_cons, List.sum_nil, horigin,
      hnew, share]
    omega
  | cons omission omissions ih =>
    rw [recordOmission]
    split
    · next hhere =>
      have horigin : ContextOmission.origin { omission with
          omittedItems := omission.omittedItems + items
          omittedScalars := omission.omittedScalars + scalars } = other := hhere.1
      simp only [omissionSum, share, List.map_cons, List.sum_cons, horigin, hhere.1, hgain omission hhere.2.2]
      split_ifs <;> omega
    · simp only [omissionSum, List.map_cons, List.sum_cons] at ih ⊢
      omega

/-- For one source, `items` candidates with `scalars` scalars are accounted for, each whole one
once. What was cut is included as well. -/
structure Accounted (compiling : Compiling) (origin : CandidateOrigin) (items scalars : Nat) : Prop where
  items : receiptSum ContextReceiptSource.includedItems origin compiling.sources +
    omissionSum wholeItems origin compiling.omissions = items
  scalars : receiptSum ContextReceiptSource.includedScalars origin compiling.sources +
    omissionSum ContextOmission.omittedScalars origin compiling.omissions = scalars
  truncated : omissionSum truncatedItems origin compiling.omissions ≤
    receiptSum ContextReceiptSource.includedItems origin compiling.sources

section
variable {compiling : Compiling} {origin other : CandidateOrigin} {items scalars : Nat}

theorem receiptSum_included {context : SonioxContext} (n : Nat)
    (hother : other ∈ compiling.sources.map ContextReceiptSource.origin) :
    receiptSum ContextReceiptSource.includedItems origin
        (Compiling.included { compiling with context } other n).sources =
      receiptSum ContextReceiptSource.includedItems origin compiling.sources + share origin other 1 ∧
    receiptSum ContextReceiptSource.includedScalars origin
        (Compiling.included { compiling with context } other n).sources =
      receiptSum ContextReceiptSource.includedScalars origin compiling.sources + share origin other n :=
  ⟨receiptSum_recordIncluded (fun _ => rfl) origin hother, receiptSum_recordIncluded (fun _ => rfl) origin hother⟩

theorem Accounted.included (h : Accounted compiling origin items scalars) (context : SonioxContext) (n : Nat)
    (hother : other ∈ compiling.sources.map ContextReceiptSource.origin) :
    Accounted (Compiling.included { compiling with context } other n) origin
      (items + share origin other 1) (scalars + share origin other n) := by
  obtain ⟨hitems, hscalars⟩ := @receiptSum_included compiling origin other context n hother
  obtain ⟨hi, hs, ht⟩ := h
  constructor
  all_goals
    simp only [Compiling.included] at hitems hscalars ⊢
    omega

theorem Accounted.omitted (h : Accounted compiling origin items scalars) (context : SonioxContext)
    (kind : ContextContentKind) {reason : ContextOmissionReason} (hreason : reason ≠ .truncated) (n : Nat) :
    Accounted (Compiling.omitted { compiling with context } other kind reason n) origin
      (items + share origin other 1) (scalars + share origin other n) := by
  have hwhole : omissionSum wholeItems origin (recordOmission other kind reason 1 n compiling.omissions) =
      omissionSum wholeItems origin compiling.omissions + share origin other 1 :=
    omissionSum_recordOmission (by simp [wholeItems, hreason])
      (fun omission ho => by simp [wholeItems, ho, hreason]) _
  have hscalars : omissionSum ContextOmission.omittedScalars origin
      (recordOmission other kind reason 1 n compiling.omissions) =
      omissionSum ContextOmission.omittedScalars origin compiling.omissions + share origin other n :=
    omissionSum_recordOmission rfl (fun _ _ => rfl) _
  have htruncated : omissionSum truncatedItems origin (recordOmission other kind reason 1 n compiling.omissions) =
      omissionSum truncatedItems origin compiling.omissions + share origin other 0 :=
    omissionSum_recordOmission (by simp [truncatedItems, hreason])
      (fun omission ho => by simp [truncatedItems, ho, hreason]) _
  have hzero : share origin other 0 = 0 := by simp [share]
  obtain ⟨hi, hs, ht⟩ := h
  constructor
  all_goals
    simp only [Compiling.omitted]
    omega

/-- A text of `n + m` scalars that was cut to `n`. -/
theorem Accounted.cut (h : Accounted compiling origin items scalars) (context : SonioxContext)
    (kind : ContextContentKind) (n m : Nat)
    (hother : other ∈ compiling.sources.map ContextReceiptSource.origin) :
    Accounted ((Compiling.included { compiling with context } other n).omitted other kind .truncated m) origin
      (items + share origin other 1) (scalars + share origin other (n + m)) := by
  obtain ⟨hitems, hscalarsIn⟩ := @receiptSum_included compiling origin other context n hother
  have hwhole : omissionSum wholeItems origin (recordOmission other kind .truncated 1 m compiling.omissions) =
      omissionSum wholeItems origin compiling.omissions + share origin other 0 :=
    omissionSum_recordOmission (by simp [wholeItems]) (fun omission ho => by simp [wholeItems, ho]) _
  have hscalars : omissionSum ContextOmission.omittedScalars origin
      (recordOmission other kind .truncated 1 m compiling.omissions) =
      omissionSum ContextOmission.omittedScalars origin compiling.omissions + share origin other m :=
    omissionSum_recordOmission rfl (fun _ _ => rfl) _
  have htruncated : omissionSum truncatedItems origin
      (recordOmission other kind .truncated 1 m compiling.omissions) =
      omissionSum truncatedItems origin compiling.omissions + share origin other 1 :=
    omissionSum_recordOmission (by simp [truncatedItems]) (fun omission ho => by simp [truncatedItems, ho]) _
  have hzero : share origin other 0 = 0 := by simp [share]
  have hsum : share origin other (n + m) = share origin other n + share origin other m := by
    simp only [share]
    split_ifs <;> rfl
  obtain ⟨hi, hs, ht⟩ := h
  constructor
  all_goals
    simp only [Compiling.omitted, Compiling.included] at hitems hscalarsIn ⊢
    omega

end

end Zulangue.Context
