import Zulangue.VtMirror.Removal
import Zulangue.Transcript.Projection

/-!
# Transcript documents and their state

A transcript document has the three root containers of the schema; where the mirror's state
agrees with it, setting new items comes down to the keyed scan of the utterances.
-/

namespace Zulangue.Transcript

open Zulangue.Lib Zulangue.VtMirror

theorem transcriptSchema_eq : transcriptSchema =
    .root [(transcriptUtterances, utterancesSchema), (documentMeta, .map [] {}),
      (sessionPurgeReceipts, .map [] {})] {} := rfl

theorem idSelector_respects : idSelector.Respects := by
  intro v w id heq hv
  obtain ⟨hid, hne⟩ := Option.filter_eq_some_iff.mp hv
  obtain ⟨x, hx, hstr⟩ := Option.bind_eq_some_iff.mp hid
  have hx' : x = .str id := by
    cases x with
    | str s => exact congrArg Value.str (Option.some.inj hstr)
    | _ => cases hstr
  subst hx'
  obtain ⟨y, hy, hdeep⟩ := Value.deepEqual_get heq hx
  have hsel : idSelector w = some id := by
    simp [idSelector, hy, Value.deepEqual_str hdeep, Value.asStr]
  exact Option.filter_eq_some_iff.mpr ⟨hsel, hne⟩

/-- The values of the two other roots. -/
structure OtherRoots where
  metaEntries : List (String × Value)
  receiptEntries : List (String × Value)
  meta_wf : (Value.obj metaEntries).WF
  receipts_wf : (Value.obj receiptEntries).WF

namespace OtherRoots

/-- The entries of a state with these items. -/
def stateEntries (others : OtherRoots) (items : List Value) : List (String × Value) :=
  [(transcriptUtterances, .arr items), (documentMeta, .obj others.metaEntries),
    (sessionPurgeReceipts, .obj others.receiptEntries)]

def state (others : OtherRoots) (items : List Value) : Value := .obj (others.stateEntries items)

theorem sorted_stateEntries (others : OtherRoots) (items : List Value) :
    KeyMap.Sorted (others.stateEntries items) := by
  have h : KeyMap.Sorted [(transcriptUtterances, ()), (documentMeta, ()),
      (sessionPurgeReceipts, ())] := by
    unfold KeyMap.Sorted
    decide
  simpa [KeyMap.Sorted, stateEntries] using h

theorem insert_stateEntries (others : OtherRoots) (items newItems : List Value) :
    KeyMap.insert transcriptUtterances (.arr newItems) (others.stateEntries items) =
      others.stateEntries newItems := rfl

theorem setIndex_state (others : OtherRoots) (items newItems : List Value) :
    (others.state items).setIndex transcriptUtterances (.arr newItems) =
      some (others.state newItems) := rfl

theorem ensureItems_state (others : OtherRoots) (items : List Value) :
    ensureItems (others.state items) = items := rfl

/-- The differences of two states with other items are those of the keyed scan. -/
theorem diffContainer_state (others : OtherRoots) {view : View}
    {inferOptions : Option InferContainerOptions} {items newItems : List Value}
    (hwf : ∀ item ∈ items, item.WF) :
    diffContainer view (others.state items) (others.state newItems) none (some transcriptSchema)
        inferOptions =
      keyedScan view
        (fun oldItem newItem child schema =>
          diffContainer view oldItem newItem (some child) schema inferOptions)
        utterancesId (some utteranceSchema) idSelector (items.filterMap (selectId idSelector)) 0
        items 0 newItems := by
  have hentries : ∀ entry ∈ others.stateEntries items, entry.2.WF := by
    simp [stateEntries, others.meta_wf, others.receipts_wf, Value.wf_arr_iff.mpr hwf]
  have hfalsy : ∀ entry ∈ others.stateEntries items, entry.1 ≠ transcriptUtterances →
      isFalsy (some entry.2) = false := by
    simp [stateEntries, isFalsy]
  rw [diffContainer_eq]
  have hroot : diffContainerWith view inferOptions
      (fun oldItem newItem child schema =>
        diffContainer view oldItem newItem (some child) schema inferOptions)
      (others.state items) (others.state newItems) none (some transcriptSchema) =
    diffMap view inferOptions
      (fun oldItem newItem child schema =>
        diffContainer view oldItem newItem (some child) schema inferOptions)
      (others.state items) (others.state newItems) none (some transcriptSchema) := rfl
  rw [hroot, state, state, ← others.insert_stateEntries items newItems,
    diffMap_insert (others.sorted_stateEntries items) hentries hfalsy]
  have hget : objectGet (.obj (others.stateEntries items)) transcriptUtterances =
      some (.arr items) := rfl
  have hchild : ((some transcriptSchema).bind Schema.fields?).bind
      (KeyMap.get transcriptUtterances) = some utterancesSchema := rfl
  cases heq : Value.deepEqualItems items newItems with
  | true =>
    have hdeep : (Value.arr items).deepEqual (.arr newItems) = true := heq
    rw [keyedScan_same heq]
    simp [diffMapEntry, hget, hdeep, isFalsy]
  | false =>
    have hdeep : (Value.arr items).deepEqual (.arr newItems) = false := heq
    have hentry : diffMapEntry view inferOptions
        (fun oldItem newItem child schema =>
          diffContainer view oldItem newItem (some child) schema inferOptions)
        (.obj (others.stateEntries items)) none ((some transcriptSchema).bind Schema.fields?)
        transcriptUtterances (.arr newItems) =
      diffContainer view (.arr items) (.arr newItems) (some utterancesId) (some utterancesSchema)
        inferOptions := by
      simp only [diffMapEntry, hget, hchild, isFalsy, hdeep]
      rfl
    rw [hentry, diffContainer_eq]
    rfl

end OtherRoots

namespace TranscriptProjection

variable {L : Loro}

/-- The roots of the schema are there, each of its type, and the state is what they hold. -/
structure IsTranscript (projection : TranscriptProjection L) : Prop where
  utterances : ∃ items, projection.mirror.view.container utterancesId = some (.list utterancesId items)
  docMeta : ∃ id entries, projection.mirror.view.container (.root documentMeta .map) =
    some (.map id entries)
  receipts : ∃ id entries, projection.mirror.view.container (.root sessionPurgeReceipts .map) =
    some (.map id entries)
  agrees : projection.mirror.Agrees transcriptConfig

theorem documentItems_wf (projection : TranscriptProjection L) :
    ∀ item ∈ projection.documentItems, item.WF := by
  intro item hitem
  obtain ⟨t, _, rfl⟩ := List.mem_map.mp hitem
  exact Tree.toJson_wf t

theorem IsTranscript.state_eq {projection : TranscriptProjection L} (h : projection.IsTranscript) :
    ∃ others : OtherRoots, projection.mirror.state = others.state projection.documentItems := by
  obtain ⟨items, hitems⟩ := h.utterances
  obtain ⟨_, metaEntries, hmeta⟩ := h.docMeta
  obtain ⟨_, receiptEntries, hreceipts⟩ := h.receipts
  have hroots : projection.mirror.state = .obj
      [(transcriptUtterances,
          projection.mirror.view.rootValue transcriptUtterances utterancesSchema),
        (documentMeta, projection.mirror.view.rootValue documentMeta (.map [] {})),
        (sessionPurgeReceipts,
          projection.mirror.view.rootValue sessionPurgeReceipts (.map [] {}))] := h.agrees
  have hu : projection.mirror.view.rootValue transcriptUtterances utterancesSchema =
      .arr projection.documentItems := by
    have hroot : (utterancesSchema.containerType.bind (rootContainerId transcriptUtterances)).bind
        projection.mirror.view.container = some (.list utterancesId items) := hitems
    simp [View.rootValue, hroot, Tree.toJson, Tree.toJsonItems_eq_map, documentItems,
      Mirror.listItems, hitems]
  have hm : projection.mirror.view.rootValue documentMeta (.map [] {}) =
      .obj (KeyMap.ofList (Tree.toJsonEntries metaEntries)) := by
    have hroot : ((Schema.map [] {}).containerType.bind (rootContainerId documentMeta)).bind
        projection.mirror.view.container = _ := hmeta
    simp [View.rootValue, hroot, Tree.toJson]
  have hr : projection.mirror.view.rootValue sessionPurgeReceipts (.map [] {}) =
      .obj (KeyMap.ofList (Tree.toJsonEntries receiptEntries)) := by
    have hroot : ((Schema.map [] {}).containerType.bind (rootContainerId sessionPurgeReceipts)).bind
        projection.mirror.view.container = _ := hreceipts
    simp [View.rootValue, hroot, Tree.toJson]
  rw [hu, hm, hr] at hroots
  exact ⟨⟨_, _, wf_ofList (Tree.toJsonEntries_wf metaEntries),
    wf_ofList (Tree.toJsonEntries_wf receiptEntries)⟩, hroots⟩

end TranscriptProjection

end Zulangue.Transcript
