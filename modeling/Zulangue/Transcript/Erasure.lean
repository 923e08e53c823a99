import Zulangue.VtMirror.Reference
import Zulangue.Transcript.Agreement

/-!
# Erasure reaches the document

Purging a session and removing its slice hand the kept items to the mirror. The keyed scan
never deletes behind the last kept block, so what is erased at the end of the document stays
in it while the state forgets it.
-/

namespace Zulangue.Transcript

open Zulangue.Lib Zulangue.VtMirror

/-- Every block has an id, and no two have the same. -/
structure DistinctIds (items : List Value) : Prop where
  nonempty : ∀ item ∈ items, ∃ id, blockId item = some id ∧ id ≠ ""
  distinct : items.Pairwise fun v w => blockId v ≠ blockId w

theorem selectId_of_blockId {item : Value} {id : String} (h : blockId item = some id)
    (hne : id ≠ "") : selectId idSelector item = some id := by
  refine Option.filter_eq_some_iff.mpr ⟨h, ?_⟩
  simpa [String.isEmpty_iff] using hne

namespace DistinctIds

theorem selectId {items : List Value} (h : DistinctIds items) {item : Value} (hmem : item ∈ items) :
    ∃ id, blockId item = some id ∧ VtMirror.selectId idSelector item = some id := by
  obtain ⟨id, hid, hne⟩ := h.nonempty item hmem
  exact ⟨id, hid, selectId_of_blockId hid hne⟩

theorem pairwise_selectId {items : List Value} (h : DistinctIds items) :
    items.Pairwise fun v w =>
      VtMirror.selectId idSelector v ≠ VtMirror.selectId idSelector w := by
  refine h.distinct.imp_of_mem fun hv hw hne => ?_
  obtain ⟨_, hid, hsel⟩ := h.selectId hv
  obtain ⟨_, hid', hsel'⟩ := h.selectId hw
  rw [hsel, hsel', ← hid, ← hid']
  exact hne

/-- Leaving out a stretch of the list is leaving out its ids. -/
theorem filter_ids {before erased after : List Value}
    (h : DistinctIds (before ++ erased ++ after)) :
    (before ++ erased ++ after).filter (fun item => blockId item ∉ erased.map blockId) =
      before ++ after := by
  obtain ⟨hfront, _, hafter⟩ := List.pairwise_append.mp h.distinct
  obtain ⟨_, _, hbefore⟩ := List.pairwise_append.mp hfront
  have hb : before.filter (fun item => blockId item ∉ erased.map blockId) = before := by
    refine List.filter_eq_self.mpr fun item hitem => ?_
    simp only [List.mem_map, not_exists, not_and, decide_eq_true_eq]
    exact fun e he heq => hbefore item hitem e he heq.symm
  have he : erased.filter (fun item => blockId item ∉ erased.map blockId) = [] := by
    refine List.filter_eq_nil_iff.mpr fun item hitem => ?_
    simp only [decide_eq_true_eq, not_not]
    exact List.mem_map_of_mem hitem
  have ha : after.filter (fun item => blockId item ∉ erased.map blockId) = after := by
    refine List.filter_eq_self.mpr fun item hitem => ?_
    simp only [List.mem_map, not_exists, not_and, decide_eq_true_eq]
    exact fun e he heq => hafter e (List.mem_append_right _ he) item hitem heq
  rw [List.filter_append, List.filter_append, hb, he, ha, List.append_nil]

/-- The last block is outside the stretch exactly when something follows the stretch. -/
theorem last_notMem_iff {before erased after : List Value}
    (h : DistinctIds (before ++ erased ++ after)) (hne : erased ≠ []) :
    (∀ last ∈ (before ++ erased ++ after).getLast?, blockId last ∉ erased.map blockId) ↔
      after ≠ [] := by
  constructor
  · rintro hlast rfl
    obtain ⟨last, hget⟩ := List.getLast?_isSome.mpr hne |> Option.isSome_iff_exists.mp
    have hwhole : (before ++ erased ++ []).getLast? = some last := by
      simp [List.getLast?_append, hget]
    exact hlast last hwhole (List.mem_map_of_mem (List.mem_of_getLast? hget))
  · intro hafter last hlast
    obtain ⟨last', hget⟩ := List.getLast?_isSome.mpr hafter |> Option.isSome_iff_exists.mp
    have hwhole : (before ++ erased ++ after).getLast? = some last' := by
      simp [List.getLast?_append, hget]
    obtain rfl : last' = last := Option.some.inj (hwhole.symm.trans hlast)
    intro hmem
    obtain ⟨item, hitem, heq⟩ := List.mem_map.mp hmem
    exact (List.pairwise_append.mp h.distinct).2.2 item (List.mem_append_right _ hitem) last'
      (List.mem_of_getLast? hget) heq

end DistinctIds

namespace TranscriptProjection

variable {L : Loro} {projection : TranscriptProjection L}

theorem IsTranscript.items_eq (h : projection.IsTranscript) :
    projection.items = projection.documentItems := by
  obtain ⟨others, hstate⟩ := h.state_eq
  rw [items, hstate]
  rfl

/-- A list with items is attached. -/
theorem IsTranscript.at_utterances (h : projection.IsTranscript)
    (hne : projection.documentItems ≠ []) :
    ∃ trees, projection.mirror.At utterancesId (.list utterancesId trees) ∧
      projection.documentItems = trees.map Tree.toJson := by
  obtain ⟨trees, htrees⟩ := h.utterances
  have hitems : projection.documentItems = trees.map Tree.toJson := by
    simp [documentItems, Mirror.listItems, htrees]
  refine ⟨trees, ?_, hitems⟩
  unfold View.container at htrees
  rcases Option.or_eq_some_iff.mp htrees with hfind | ⟨_, hempty⟩
  · exact hfind
  · have hnil : trees = [] := by
      have hempty : some (IdTree.list utterancesId []) = some (.list utterancesId trees) := hempty
      cases hempty
      rfl
    exact absurd (by rw [hitems, hnil]; rfl) hne

/-- Setting the kept items leaves those of `dropErased` in the document. -/
theorem commit_filter (hp : projection.IsTranscript) (hids : DistinctIds projection.documentItems)
    (hne : projection.documentItems ≠ []) (keep : Value → Bool)
    {after : TranscriptProjection L}
    (h : projection.commit (projection.items.filter keep) = some (.ok (), after)) :
    after.documentItems = dropErased keep projection.documentItems := by
  obtain ⟨others, hstate⟩ := hp.state_eq
  obtain ⟨trees, hat, hitems⟩ := hp.at_utterances hne
  have hscan : diffContainer projection.mirror.view projection.mirror.state
      (others.state (projection.documentItems.filter keep)) none transcriptConfig.schema
      (some transcriptConfig.inferOptions) =
        .ok (removals utterancesId keep 0 0 projection.documentItems) := by
    rw [hstate]
    refine (others.diffContainer_state projection.documentItems_wf).trans
      (keyedScan_filter idSelector_respects 0 0 (fun item hmem => ?_) hids.pairwise_selectId
        projection.documentItems_wf)
    obtain ⟨id, _, hsel⟩ := hids.selectId hmem
    exact ⟨id, List.mem_filterMap.mpr ⟨item, hmem, hsel⟩, hsel⟩
  have hstart : ((0 : Nat) : Int) + 0 = ([] : List Tree).length := rfl
  obtain ⟨doc, hfold, hfind⟩ := Mirror.apply_removals transcriptConfig keep hat hstart
  rw [← hitems] at hfold
  have happly := (projection.mirror.applyChangesToLoro_list transcriptConfig rfl
    removals_container).trans hfold
  rw [commit, hp.items_eq, hstate, others.setIndex_state, Option.map_some] at h
  cases hset : projection.mirror.setState transcriptConfig
      (others.state (projection.documentItems.filter keep)) with
  | error e => simp [hset] at h
  | ok mirror =>
    have hset' := Mirror.setState_ok (Mirror.valid_of_setState hset) hscan happly
    rw [hset] at hset' h
    obtain rfl := Except.ok.inj hset'
    obtain ⟨_, rfl⟩ := Prod.mk.inj (Option.some.inj h)
    have hdoc : (L.view doc).container utterancesId = some (.list utterancesId
        (dropErased (fun t : Tree => keep t.toJson) trees)) := View.container_of_findItems hfind
    rw [hitems, dropErased_map]
    simp [documentItems, Mirror.listItems, Mirror.view, hdoc]

/-- The answer of a verb that commits comes with a commit that was taken. -/
theorem commit_of_commitWith {α : Type} {newItems : List Value} {answer result : α}
    {after : TranscriptProjection L}
    (h : projection.commitWith newItems answer = some (.ok result, after)) :
    projection.commit newItems = some (.ok (), after) := by
  obtain ⟨⟨outcome, after'⟩, hcommit, heq⟩ := Option.map_eq_some_iff.mp h
  obtain ⟨houtcome, rfl⟩ := Prod.mk.inj heq
  cases outcome with
  | error e => cases houtcome
  | ok u => exact hcommit

end TranscriptProjection

/-! ## The range of a session -/

theorem captureIndices_sublist (items : List Value) (sessionId : String) :
    (captureIndices items sessionId).Sublist (List.range items.length) := by
  have hmap : items.zipIdx.map (·.2) = List.range items.length := by
    simp [List.range_eq_range']
  rw [← hmap]
  exact List.filter_sublist.map _

theorem sessionSliceRange_bounds {items : List Value} {sessionId : String} {start stop : Nat}
    (h : sessionSliceRange items sessionId = .ok (some (start, stop))) :
    start < stop ∧ stop ≤ items.length := by
  have hsub := captureIndices_sublist items sessionId
  have hsorted : (captureIndices items sessionId).Pairwise (· < ·) :=
    List.pairwise_lt_range.sublist hsub
  unfold sessionSliceRange at h
  cases hindices : captureIndices items sessionId with
  | nil => simp [hindices] at h
  | cons first rest =>
    rw [hindices] at hsub hsorted
    obtain ⟨last, hgetLast, hle, hlt⟩ : ∃ last, (first :: rest).getLast? = some last ∧
        first ≤ last ∧ last < items.length := by
      refine ⟨(first :: rest).getLast (List.cons_ne_nil _ _), List.getLast?_eq_some_getLast _, ?_,
        List.mem_range.mp (hsub.subset (List.getLast_mem _))⟩
      rcases List.mem_cons.mp (List.getLast_mem (List.cons_ne_nil first rest)) with heq | hin
      · exact Nat.le_of_eq heq.symm
      · exact Nat.le_of_lt ((List.pairwise_cons.mp hsorted).1 _ hin)
    simp only [hindices, List.head?_cons, hgetLast] at h
    split at h
    · cases h
    · obtain ⟨rfl, rfl⟩ := Prod.mk.inj (Option.some.inj (Except.ok.inj h))
      have htrailing := ((items.drop (last + 1)).takeWhile_sublist fun item =>
        decide (blockOwner item = userOwner)).length_le
      rw [List.length_drop] at htrailing
      omega

theorem split_range (items : List Value) {start stop : Nat} (h : start < stop) :
    items = items.take start ++ (items.drop start).take (stop - start) ++ items.drop stop := by
  have hdrop : items.drop stop = (items.drop start).drop (stop - start) := by
    rw [List.drop_drop]
    congr 1
    omega
  rw [hdrop, List.append_assoc, List.take_append_drop, List.take_append_drop]

/-! ## What stays in the document -/

/-- The document holds no block of the session, and the other blocks as before. -/
def Erased {L : Loro} (before after : TranscriptProjection L) (sessionId : String) : Prop :=
  (∀ item ∈ after.documentItems, isCaptureOf sessionId item = false) ∧
    after.documentItems = before.documentItems.filter fun item => !isCaptureOf sessionId item

/-- The document holds the blocks outside the range, as before. -/
def SliceRemoved {L : Loro} (before after : TranscriptProjection L) :
    Option (Nat × Nat) → Prop
  | none => after.documentItems = before.documentItems
  | some (start, stop) => after.documentItems =
      before.documentItems.take start ++ before.documentItems.drop stop

namespace TranscriptProjection

variable {L : Loro} {projection after : TranscriptProjection L} {sessionId : String} {n : Nat}

/-- A purge leaves the blocks of `dropErased`. -/
theorem purge_documentItems (hp : projection.IsTranscript)
    (hids : DistinctIds projection.documentItems)
    (h : projection.purgeSessionBlocks sessionId = some (.ok n, after)) :
    after.documentItems =
      dropErased (fun item => !isCaptureOf sessionId item) projection.documentItems := by
  have hitems := hp.items_eq
  unfold purgeSessionBlocks at h
  simp only [hitems] at h
  split at h
  case isTrue hzero =>
    obtain ⟨_, rfl⟩ := Prod.mk.inj (Option.some.inj h)
    have hlen := List.length_filter_le (fun item => !isCaptureOf sessionId item)
      projection.documentItems
    have hall : projection.documentItems.filter (fun item => !isCaptureOf sessionId item) =
        projection.documentItems :=
      List.filter_sublist.eq_of_length (by omega)
    have hkept := List.filter_eq_self.mp hall
    rw [(dropErased_eq_filter_iff _).mpr fun last hlast => hkept last (List.mem_of_getLast? hlast),
      hall]
  case isFalse hremoved =>
    have hne : projection.documentItems ≠ [] := by
      rintro heq
      simp [heq] at hremoved
    refine commit_filter hp hids hne _ ?_
    rw [hitems]
    exact commit_of_commitWith h

theorem purge_iff (hp : projection.IsTranscript) (hids : DistinctIds projection.documentItems)
    (h : projection.purgeSessionBlocks sessionId = some (.ok n, after)) :
    Erased projection after sessionId ↔
      ∀ last ∈ projection.documentItems.getLast?, isCaptureOf sessionId last = false := by
  have hafter := purge_documentItems hp hids h
  have hiff : _ ↔ ∀ last ∈ projection.documentItems.getLast?, (!isCaptureOf sessionId last) = true :=
    dropErased_eq_filter_iff fun item => !isCaptureOf sessionId item
  simp only [Bool.not_eq_true'] at hiff
  constructor
  · intro herased
    exact hiff.mp (hafter.symm.trans herased.2)
  · intro hlast
    have heq := hafter.trans (hiff.mpr hlast)
    refine ⟨fun item hitem => ?_, heq⟩
    rw [heq] at hitem
    simpa using (List.mem_filter.mp hitem).2

/-- What the removal of a range leaves: nothing is gone when the range ends the document. -/
theorem removeSlice_iff (hp : projection.IsTranscript)
    (hids : DistinctIds projection.documentItems)
    (h : projection.removeSessionSlice sessionId = some (.ok n, after)) :
    ∃ range, sessionSliceRange projection.documentItems sessionId = .ok range ∧
      (SliceRemoved projection after range ↔
        ∀ r ∈ range, r.2 < projection.documentItems.length) := by
  have hitems := hp.items_eq
  unfold removeSessionSlice at h
  simp only [hitems] at h
  cases hrange : sessionSliceRange projection.documentItems sessionId with
  | error e => simp [hrange, refuse] at h
  | ok range =>
    refine ⟨range, rfl, ?_⟩
    cases range with
    | none =>
      simp only [hrange, Option.some.injEq, Prod.mk.injEq] at h
      obtain ⟨_, rfl⟩ := h
      simp [SliceRemoved]
    | some range =>
      obtain ⟨start, stop⟩ := range
      simp only [hrange] at h
      obtain ⟨hlt, hle⟩ := sessionSliceRange_bounds hrange
      have hsplit := split_range projection.documentItems hlt
      have hids' := hids
      rw [hsplit] at hids'
      have herased : (projection.documentItems.drop start).take (stop - start) ≠ [] := by
        intro hnil
        have hlen := congrArg List.length hnil
        simp only [List.length_take, List.length_drop, List.length_nil] at hlen
        omega
      have hne : projection.documentItems ≠ [] := by
        intro hnil
        simp [hnil] at herased
      have hfilter := hids'.filter_ids
      rw [← hsplit] at hfilter
      have hafter := commit_filter hp hids hne (fun item => blockId item ∉
        ((projection.documentItems.drop start).take (stop - start)).map blockId)
        (by rw [hitems, hfilter]; exact commit_of_commitWith h)
      rw [SliceRemoved, hafter, ← hfilter, dropErased_eq_filter_iff]
      have hlast := hids'.last_notMem_iff herased
      rw [← hsplit] at hlast
      simpa only [decide_eq_true_eq, Option.mem_some_iff, forall_eq', ne_eq, List.drop_eq_nil_iff,
        Nat.not_le] using hlast

end TranscriptProjection

/-- **What is erased is gone from the document exactly when a later block is kept.** Of the
two erasing verbs, each that succeeds leaves the document as it should be if and only if the
last block of the document is not among the erased ones. -/
theorem erasure_reaches_document_iff {L : Loro} {projection : TranscriptProjection L}
    (hp : projection.IsTranscript) (hids : DistinctIds projection.documentItems)
    (sessionId : String) :
    (∀ n after, projection.purgeSessionBlocks sessionId = some (.ok n, after) →
      (Erased projection after sessionId ↔
        ∀ last ∈ projection.documentItems.getLast?, isCaptureOf sessionId last = false)) ∧
    (∀ n after, projection.removeSessionSlice sessionId = some (.ok n, after) →
      ∃ range, sessionSliceRange projection.documentItems sessionId = .ok range ∧
        (SliceRemoved projection after range ↔
          ∀ r ∈ range, r.2 < projection.documentItems.length)) :=
  ⟨fun _ _ h => TranscriptProjection.purge_iff hp hids h,
    fun _ _ h => TranscriptProjection.removeSlice_iff hp hids h⟩

/-! ## Documents with given blocks -/

/-- The containers of a block, numbered from `n`. -/
def blockTree (n : Nat) (id owner text : String) : Tree :=
  .map (.normal 0 n .map)
    [("id", .leaf (.string id)), ("lanes", .map (.normal 0 (n + 1) .map) []),
     ("owner", .leaf (.string owner)), ("text", .cell (.normal 0 (n + 2) .text) (.string text))]

def transcriptView (trees : List Tree) : View :=
  [.list utterancesId trees, .map (.root documentMeta .map) [],
    .map (.root sessionPurgeReceipts .map) []]

/-- A document with these blocks, opened with the state it holds. -/
def transcriptOf (trees : List Tree) (hnodup : (transcriptView trees).ids.Nodup) :
    TranscriptProjection referenceLoro :=
  { mirror :=
      { doc := ⟨transcriptView trees, hnodup⟩
        state := .obj (((transcriptConfig.schema.bind Schema.fields?).getD []).map fun field =>
          (field.1, (transcriptView trees).rootValue field.1 field.2))
        registry := fun _ => none } }

section
variable {trees : List Tree} {hnodup : (transcriptView trees).ids.Nodup}

theorem container_transcriptView {name : String} (hne : name ≠ transcriptUtterances)
    (hroots : ∀ name type, .root name type ∉ IdTree.idsItems trees) :
    (transcriptView trees).container (.root name .map) = some (.map (.root name .map) []) := by
  have hnone := IdTree.findItems_of_notMem (hroots name .map)
  have hid : utterancesId ≠ .root name .map := fun h => by cases h
  rw [View.container, transcriptView, IdTree.findItems, IdTree.find?, if_neg hid, hnone]
  by_cases hmeta : name = documentMeta
  · subst hmeta
    rfl
  · by_cases hreceipts : name = sessionPurgeReceipts
    · subst hreceipts
      rfl
    · simp [IdTree.findItems, IdTree.find?, IdTree.findEntries, Ne.symm hmeta, Ne.symm hreceipts,
        ContainerID.isRoot, ContainerID.empty, ContainerID.containerType]

theorem isTranscript_transcriptOf (hroots : ∀ name type,
    .root name type ∉ IdTree.idsItems trees) : (transcriptOf trees hnodup).IsTranscript where
  utterances := ⟨trees, rfl⟩
  docMeta := ⟨_, _, container_transcriptView (by decide) hroots⟩
  receipts := ⟨_, _, container_transcriptView (by decide) hroots⟩
  agrees := rfl

end

/-- A document that is one capture block of the session "s". -/
def loneBlock : TranscriptProjection referenceLoro :=
  transcriptOf [blockTree 0 "s-1" "capture:s" "hello"] (by decide)

/-- A capture block of the session "s" with one of another session behind it. -/
def twoSessions : TranscriptProjection referenceLoro :=
  transcriptOf [blockTree 0 "s-1" "capture:s" "hello", blockTree 3 "t-1" "capture:t" "good day"]
    (by decide)

theorem loneBlock_isTranscript : loneBlock.IsTranscript :=
  isTranscript_transcriptOf fun name type => by
    simp [blockTree, IdTree.idsItems, IdTree.ids, IdTree.idsEntries]

theorem twoSessions_isTranscript : twoSessions.IsTranscript :=
  isTranscript_transcriptOf fun name type => by
    simp [blockTree, IdTree.idsItems, IdTree.ids, IdTree.idsEntries]

theorem loneBlock_distinctIds : DistinctIds loneBlock.documentItems where
  nonempty := fun item hitem => by
    obtain rfl := List.mem_singleton.mp hitem
    exact ⟨"s-1", rfl, by decide⟩
  distinct := List.pairwise_singleton _ _

theorem twoSessions_distinctIds : DistinctIds twoSessions.documentItems where
  nonempty := fun item hitem => by
    rcases List.mem_cons.mp hitem with rfl | hlast
    · exact ⟨"s-1", rfl, by decide⟩
    · obtain rfl := List.mem_singleton.mp hlast
      exact ⟨"t-1", rfl, by decide⟩
  distinct := by
    refine List.pairwise_pair.mpr ?_
    show some "s-1" ≠ some "t-1"
    decide

/-- The verb answered this number. -/
def answers {L : Loro} (n : Nat) (outcome : VerbOutcome L Nat) : Bool :=
  match outcome with
  | some (.ok m, _) => m = n
  | _ => false

theorem exists_of_answers {L : Loro} {n : Nat} {outcome : VerbOutcome L Nat}
    (h : answers n outcome = true) : ∃ after, outcome = some (.ok n, after) := by
  unfold answers at h
  split at h
  · obtain rfl := of_decide_eq_true h
    exact ⟨_, rfl⟩
  · cases h

/-- Before the block of another session, the block goes. -/
theorem twoSessions_erased :
    (∃ after, twoSessions.purgeSessionBlocks "s" = some (.ok 1, after) ∧
      Erased twoSessions after "s") ∧
    ∃ after, twoSessions.removeSessionSlice "s" = some (.ok 1, after) ∧
      sessionSliceRange twoSessions.documentItems "s" = .ok (some (0, 1)) ∧
      SliceRemoved twoSessions after (some (0, 1)) := by
  obtain ⟨hpurge, hremove⟩ :=
    erasure_reaches_document_iff twoSessions_isTranscript twoSessions_distinctIds "s"
  constructor
  · obtain ⟨after, hafter⟩ : ∃ after, twoSessions.purgeSessionBlocks "s" = some (.ok 1, after) :=
      exists_of_answers (by decide +kernel)
    refine ⟨after, hafter, (hpurge 1 after hafter).mpr fun last hlast => ?_⟩
    obtain rfl := Option.some.inj hlast
    rfl
  · obtain ⟨after, hafter⟩ : ∃ after, twoSessions.removeSessionSlice "s" = some (.ok 1, after) :=
      exists_of_answers (by decide +kernel)
    have hrange : sessionSliceRange twoSessions.documentItems "s" = .ok (some (0, 1)) := rfl
    obtain ⟨range, hrange', hiff⟩ := hremove 1 after hafter
    obtain rfl := Except.ok.inj (hrange'.symm.trans hrange)
    refine ⟨after, hafter, hrange, hiff.mpr fun r hr => ?_⟩
    obtain rfl := Option.some.inj hr
    decide

/-- A lone capture block is answered to be gone, by both verbs, and stays in the document. -/
theorem loneBlock_survives :
    (∃ after, loneBlock.purgeSessionBlocks "s" = some (.ok 1, after) ∧
      ¬Erased loneBlock after "s" ∧ after.documentItems = loneBlock.documentItems) ∧
    ∃ after, loneBlock.removeSessionSlice "s" = some (.ok 1, after) ∧
      sessionSliceRange loneBlock.documentItems "s" = .ok (some (0, 1)) ∧
      ¬SliceRemoved loneBlock after (some (0, 1)) := by
  have hp := loneBlock_isTranscript
  have hids := loneBlock_distinctIds
  constructor
  · obtain ⟨after, hafter⟩ : ∃ after, loneBlock.purgeSessionBlocks "s" = some (.ok 1, after) :=
      exists_of_answers (by decide +kernel)
    have hdoc := TranscriptProjection.purge_documentItems hp hids hafter
    refine ⟨after, hafter, fun herased => ?_, hdoc⟩
    have hlast := (TranscriptProjection.purge_iff hp hids hafter).mp herased _ rfl
    exact absurd hlast (by decide)
  · obtain ⟨after, hafter⟩ : ∃ after, loneBlock.removeSessionSlice "s" = some (.ok 1, after) :=
      exists_of_answers (by decide +kernel)
    have hrange : sessionSliceRange loneBlock.documentItems "s" = .ok (some (0, 1)) := rfl
    obtain ⟨range, hrange', hiff⟩ := TranscriptProjection.removeSlice_iff hp hids hafter
    obtain rfl := Except.ok.inj (hrange'.symm.trans hrange)
    refine ⟨after, hafter, hrange, fun hremoved => ?_⟩
    exact absurd (hiff.mp hremoved (0, 1) rfl) (by decide)

end Zulangue.Transcript
