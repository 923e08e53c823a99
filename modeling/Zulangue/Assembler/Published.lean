import Zulangue.Assembler.Responses

/-!
# What was published of a segment

A segment whose text is not the one that was published last is dirty, or is held back until its
language is known and has never been published.
-/

namespace Zulangue.Assembler

/-! ## Ids -/

theorem utteranceId_injective {sessionId : String} {m n : Nat}
    (h : sessionId ++ ":" ++ toString m = sessionId ++ ":" ++ toString n) : m = n := by
  have hnumber : toString m = toString n := (String.append_right_inj _).mp h
  have hdigits : Nat.toDigits 10 m = Nat.toDigits 10 n := by
    have htoList := congrArg String.toList hnumber
    have hlist : ∀ k : Nat, (toString k).toList = Nat.toDigits 10 k := fun _ => Nat.toList_repr
    rwa [hlist, hlist] at htoList
  have hvalue : ∀ k : Nat, Nat.ofDigitChars 10 (Nat.toDigits 10 k) 0 = k := fun _ => Nat.ofDigitChars_ten_toDigits
  rw [← hvalue m, hdigits, hvalue]

theorem Frame.Placed.nodup_ids {f : Frame} {placed : List (Nat × SttStreamToken)} (h : f.Placed placed) :
    (f.cores.map Core.id).Nodup := by
  have hascending := h.ascending
  rw [List.pairwise_map] at hascending
  rw [List.Nodup, List.pairwise_map]
  apply hascending.imp_of_mem
  intro a b ha hb hlt heq
  rw [(h.numbered a ha).1, (h.numbered b hb).1] at heq
  exact Nat.ne_of_lt hlt (utteranceId_injective heq)

/-! ## The last published text -/

/-- The source text of the last update for a segment; nothing where there was none. -/
def lastPublished (published : List AssembledRealtimeUtterance) (id : String) : String :=
  published.foldl (fun text update => if update.utterance.id = id then update.utterance.sourceText else text) ""

theorem lastPublished_append {published updates : List AssembledRealtimeUtterance} {id : String}
    (h : ∀ update ∈ updates, update.utterance.id ≠ id) :
    lastPublished (published ++ updates) id = lastPublished published id := by
  rw [lastPublished, List.foldl_append]
  change updates.foldl _ (lastPublished published id) = _
  generalize lastPublished published id = text
  induction updates with
  | nil => rfl
  | cons update updates ih =>
    rw [List.foldl_cons, if_neg (h update (by simp))]
    exact ih fun other hother => h other (by simp [hother])

theorem lastPublished_concat (published : List AssembledRealtimeUtterance) (update : AssembledRealtimeUtterance) :
    lastPublished (published ++ [update]) update.utterance.id = update.utterance.sourceText := by
  rw [lastPublished, List.foldl_append, List.foldl_cons, List.foldl_nil, if_pos rfl]

/-! ## A segment and its publication -/

/-- The text was published, or nothing was while the segment is open. -/
def Shown (published : List AssembledRealtimeUtterance) (segment : RealtimeSegmentRevision) : Prop :=
  lastPublished published segment.id = segment.sourceText ∨
    lastPublished published segment.id = "" ∧ segment.complete = false

structure Kept (published : List AssembledRealtimeUtterance) (segment : RealtimeSegmentRevision) : Prop where
  recorded : segment.revision = none → lastPublished published segment.id = ""
  shown : segment.sourceDirty = true ∨ segment.translationDirty = true ∨ Shown published segment

namespace RealtimeSegmentRevision

variable {published : List AssembledRealtimeUtterance} {segment : RealtimeSegmentRevision} (token : SttStreamToken)

theorem sourceText_of_pending (h : segment.source.pending = "") : segment.sourceText = segment.source.committed := by
  rw [sourceText, LaneRevision.text]
  split
  · rw [h, String.append_empty]
  · rfl

theorem kept_beginResponseRevision (h : Kept published segment) : Kept published segment.beginResponseRevision := by
  refine ⟨h.recorded, ?_⟩
  rcases h.shown with hdirty | hdirty | hshown
  · exact .inl (by simp [beginResponseRevision, hdirty])
  · exact .inr (.inl (by simp [beginResponseRevision, hdirty]))
  · by_cases hpending : segment.source.pending = ""
    · have hbegun : segment.beginResponseRevision.sourceText = segment.sourceText := by
        rw [sourceText_of_pending hpending, sourceText_of_pending rfl]
        rfl
      refine .inr (.inr ?_)
      rw [Shown, hbegun]
      exact hshown
    · exact .inl (by simp [beginResponseRevision, LaneRevision.beginResponseRevision, hpending])

theorem id_pushOriginal : (segment.pushOriginal token).id = segment.id := by
  have hid : (segment.pushOriginal token).core.id = segment.core.id := by
    rw [core_pushOriginal]
    split <;> rfl
  exact hid

theorem revision_pushOriginal : (segment.pushOriginal token).revision = segment.revision := by
  unfold pushOriginal pushTimes pushSpeaker
  simp only
  repeat' split
  all_goals rfl

theorem revision_pushTranslation : (segment.pushTranslation token).revision = segment.revision := by
  unfold pushTranslation
  simp only
  repeat' split
  all_goals rfl

theorem kept_pushOriginal (h : Kept published segment) : Kept published (segment.pushOriginal token) := by
  refine ⟨?_, .inl rfl⟩
  rw [revision_pushOriginal, id_pushOriginal]
  exact h.recorded

theorem kept_pushTranslation (h : Kept published segment) : Kept published (segment.pushTranslation token) := by
  refine ⟨?_, .inr (.inl rfl)⟩
  have hid : (segment.pushTranslation token).id = segment.id := congrArg Core.id (segment.core_pushTranslation token)
  rw [revision_pushTranslation, hid]
  exact h.recorded

theorem kept_markComplete (h : Kept published segment) : Kept published segment.markComplete :=
  ⟨h.recorded, .inl rfl⟩

end RealtimeSegmentRevision

/-! ## While a response is applied -/

namespace RealtimeUtteranceAssembler

variable {a : RealtimeUtteranceAssembler} {published : List AssembledRealtimeUtterance}

structure Settled (a : RealtimeUtteranceAssembler) (published : List AssembledRealtimeUtterance) : Prop where
  kept : ∀ segment ∈ a.segments, Kept published segment
  unused : ∀ n, a.nextSequence ≤ n → lastPublished published (a.sessionId ++ ":" ++ toString n) = ""

theorem mem_modify {α : Type} {f : α → α} {items : List α} {index : Nat} {item : α}
    (h : item ∈ items.modify index f) : item ∈ items ∨ ∃ old ∈ items, item = f old := by
  induction items generalizing index with
  | nil => simp at h
  | cons first items ih =>
    cases index with
    | zero =>
      rw [List.modify_zero_cons, List.mem_cons] at h
      rcases h with rfl | h
      · exact .inr ⟨first, by simp, rfl⟩
      · exact .inl (List.mem_cons_of_mem _ h)
    | succ index =>
      rw [List.modify_succ_cons, List.mem_cons] at h
      rcases h with rfl | h
      · exact .inl (by simp)
      · rcases ih h with h | ⟨old, hold, rfl⟩
        · exact .inl (List.mem_cons_of_mem _ h)
        · exact .inr ⟨old, List.mem_cons_of_mem _ hold, rfl⟩

theorem settled_modifySegment (h : a.Settled published) {f : RealtimeSegmentRevision → RealtimeSegmentRevision}
    (hf : ∀ segment ∈ a.segments, Kept published segment → Kept published (f segment)) (index : Nat) :
    (a.modifySegment index f).Settled published := by
  refine ⟨?_, h.unused⟩
  intro segment hsegment
  rcases mem_modify hsegment with hsegment | ⟨old, hold, rfl⟩
  · exact h.kept segment hsegment
  · exact hf old hold (h.kept old hold)

theorem settled_createSegment (h : a.Settled published) : a.createSegment.1.Settled published := by
  constructor
  · intro segment hsegment
    rcases List.mem_append.mp hsegment with hsegment | hsegment
    · exact h.kept segment hsegment
    · rw [List.mem_singleton.mp hsegment]
      have hunused := h.unused a.nextSequence (Nat.le_refl _)
      exact ⟨fun _ => hunused, .inr (.inr (.inr ⟨hunused, rfl⟩))⟩
  · intro n hn
    exact h.unused n (Nat.le_of_succ_le hn)

theorem settled_sourceSegmentForToken (h : a.Settled published) (isFinal : Bool) (language speaker : Option String) :
    (a.sourceSegmentForToken isFinal language speaker).1.Settled published := by
  rw [sourceSegmentForToken]
  simp only
  split
  · split
    · exact h
    · exact settled_createSegment h
  · split
    · exact settled_createSegment (settled_modifySegment h
        (fun _ _ hkept => RealtimeSegmentRevision.kept_markComplete hkept) _)
    · exact h

theorem settled_applyOriginalToken (h : a.Settled published) (token : SttStreamToken) :
    (a.applyOriginalToken token).1.Settled published := by
  have hfound := settled_sourceSegmentForToken h token.isFinal token.originalLanguage token.providerSpeaker
  have hpushed := settled_modifySegment hfound
    (fun _ _ hkept => RealtimeSegmentRevision.kept_pushOriginal token hkept)
    (a.sourceSegmentForToken token.isFinal token.originalLanguage token.providerSpeaker).2
  exact ⟨hpushed.kept, hpushed.unused⟩

theorem settled_applyTranslationToken (h : a.Settled published) (token : SttStreamToken) :
    (a.applyTranslationToken token).Settled published := by
  rw [applyTranslationToken]
  split
  · exact ⟨h.kept, h.unused⟩
  · next index _ =>
    have hpushed := settled_modifySegment h
      (fun _ _ hkept => RealtimeSegmentRevision.kept_pushTranslation token hkept) index
    exact ⟨hpushed.kept, hpushed.unused⟩

theorem settled_foldl {f : RealtimeUtteranceAssembler → SttStreamToken → RealtimeUtteranceAssembler}
    (hf : ∀ a token, Settled a published → Settled (f a token) published) (h : a.Settled published)
    (tokens : List SttStreamToken) : (tokens.foldl f a).Settled published := by
  induction tokens generalizing a with
  | nil => exact h
  | cons token tokens ih => exact ih (hf a token h)

theorem settled_applied (h : a.Settled published) (tokens : List SttStreamToken) :
    ((a.beginResponse.applyOriginalTokens tokens).applyTranslationTokens tokens).Settled published := by
  have hbegin : a.beginResponse.Settled published := by
    refine ⟨?_, h.unused⟩
    intro segment hsegment
    obtain ⟨old, hold, rfl⟩ := List.mem_map.mp hsegment
    exact RealtimeSegmentRevision.kept_beginResponseRevision (h.kept old hold)
  have horiginals : (a.beginResponse.applyOriginalTokens tokens).Settled published :=
    settled_foldl (fun _ token h => settled_applyOriginalToken h token) hbegin _
  exact settled_foldl (fun _ token h => settled_applyTranslationToken h token) horiginals _

/-! ## When updates are taken -/

theorem dirtyUpdate_id {segment : RealtimeSegmentRevision} {update : AssembledRealtimeUtterance}
    (h : a.dirtyUpdate segment = some update) :
    update.utterance.id = segment.id ∧ update.utterance.sourceText = segment.sourceText ∧
      update.removePartial = (segment.revision.isSome && segment.sourceText = "") := by
  rw [dirtyUpdate] at h
  repeat' split at h
  all_goals
    cases h
  exact ⟨rfl, rfl, rfl⟩

/-- An update changes what was published last of its own segment alone. -/
theorem lastPublished_takeDirtyUpdates {segments : List RealtimeSegmentRevision}
    (hdistinct : (segments.map RealtimeSegmentRevision.id).Nodup) {segment : RealtimeSegmentRevision}
    (hsegment : segment ∈ segments) (published : List AssembledRealtimeUtterance) :
    lastPublished (published ++ segments.filterMap a.dirtyUpdate) segment.id =
      match a.dirtyUpdate segment with
      | none => lastPublished published segment.id
      | some _ => segment.sourceText := by
  obtain ⟨front, back, rfl⟩ := List.append_of_mem hsegment
  have hother : ∀ others : List RealtimeSegmentRevision, (∀ other ∈ others, other.id ≠ segment.id) →
      ∀ update ∈ others.filterMap a.dirtyUpdate, update.utterance.id ≠ segment.id := by
    intro others hothers update hupdate
    obtain ⟨other, hmem, hsome⟩ := List.mem_filterMap.mp hupdate
    rw [(dirtyUpdate_id hsome).1]
    exact hothers other hmem
  rw [List.map_append, List.map_cons, List.nodup_append'] at hdistinct
  obtain ⟨-, hback, hdisjoint⟩ := hdistinct
  have hfrontIds : ∀ other ∈ front, other.id ≠ segment.id := by
    intro other hmem heq
    exact hdisjoint (List.mem_map_of_mem hmem) (heq ▸ List.mem_cons_self)
  have hbackIds : ∀ other ∈ back, other.id ≠ segment.id := by
    intro other hmem heq
    exact (List.nodup_cons.mp hback).1 (heq ▸ List.mem_map_of_mem hmem)
  rw [List.filterMap_append, List.filterMap_cons, ← List.append_assoc]
  cases hsome : a.dirtyUpdate segment with
  | none =>
    simp only
    rw [lastPublished_append (hother back hbackIds), lastPublished_append (hother front hfrontIds)]
  | some update =>
    obtain ⟨hid, htext, -⟩ := dirtyUpdate_id hsome
    simp only
    rw [List.append_cons, lastPublished_append (hother back hbackIds), ← hid, lastPublished_concat, htext]

/-! ## While the updates are stored -/

/-- A segment some of whose updates are not stored yet. -/
structure Awaiting (updates published : List AssembledRealtimeUtterance) (segment : RealtimeSegmentRevision) :
    Prop where
  shown : Shown published segment
  recorded : segment.revision = none → lastPublished published segment.id = "" ∨
    ∃ update ∈ updates, update.utterance.id = segment.id ∧ update.removePartial = false
  removed : ∀ update ∈ updates, update.utterance.id = segment.id → update.removePartial = true →
    segment.sourceText = "" ∧ lastPublished published segment.id = ""

/-- What the updates leave unpublished is held back or has no text. -/
theorem awaiting_takeDirtyUpdates (h : a.Settled published)
    (hdistinct : (a.segments.map RealtimeSegmentRevision.id).Nodup) {segment : RealtimeSegmentRevision}
    (hsegment : segment ∈ a.takeDirtyUpdates.1.segments) :
    Awaiting a.takeDirtyUpdates.2 (published ++ a.takeDirtyUpdates.2) segment := by
  obtain ⟨old, hold, rfl⟩ := List.mem_map.mp hsegment
  have hlast := lastPublished_takeDirtyUpdates (a := a) hdistinct hold published
  have hkept := h.kept old hold
  have hmem : ∀ update ∈ a.takeDirtyUpdates.2, update.utterance.id = old.id →
      a.dirtyUpdate old = some update := by
    intro update hupdate hid
    obtain ⟨other, hother, hsome⟩ := List.mem_filterMap.mp hupdate
    have hsame : other = old :=
      List.inj_on_of_nodup_map hdistinct hother hold ((dirtyUpdate_id hsome).1.symm.trans hid)
    rw [← hsame]
    exact hsome
  cases hsome : a.dirtyUpdate old with
  | some update =>
    obtain ⟨hid, -, hremove⟩ := dirtyUpdate_id hsome
    simp only [hsome] at hlast
    refine ⟨.inl hlast, ?_, ?_⟩
    · intro hnone
      refine .inr ⟨update, List.mem_filterMap.mpr ⟨old, hold, hsome⟩, hid, ?_⟩
      have hrevision : old.revision = none := hnone
      rw [hremove, hrevision]
      rfl
    · intro other hother hotherId hotherRemove
      have heq := hmem other hother hotherId
      rw [hsome] at heq
      cases heq
      have htext : old.sourceText = "" := by
        rw [hremove, Bool.and_eq_true, decide_eq_true_eq] at hotherRemove
        exact hotherRemove.2
      exact ⟨htext, hlast.trans htext⟩
  | none =>
    simp only [hsome] at hlast
    refine ⟨?_, ?_, ?_⟩
    · rw [dirtyUpdate] at hsome
      split at hsome
      · next hclean =>
        simp only [Bool.and_eq_true, Bool.not_eq_true'] at hclean
        rcases hkept.shown with hdirty | hdirty | hshown
        · rw [hclean.1] at hdirty
          cases hdirty
        · rw [hclean.2] at hdirty
          cases hdirty
        · rcases hshown with hshown | ⟨hshown, hopen⟩
          · exact .inl (hlast.trans hshown)
          · exact .inr ⟨hlast.trans hshown, hopen⟩
      · split at hsome
        · next hheld =>
          simp only [Bool.and_eq_true, Bool.not_eq_true', Option.isNone_iff_eq_none] at hheld
          exact .inr ⟨hlast.trans (hkept.recorded hheld.2), hheld.1.1.1⟩
        · split at hsome
          · next hempty =>
            simp only [Bool.and_eq_true, decide_eq_true_eq, Option.isNone_iff_eq_none] at hempty
            exact .inl ((hlast.trans (hkept.recorded hempty.1.2)).trans hempty.1.1.symm)
          · cases hsome
    · intro hnone
      exact .inl (hlast.trans (hkept.recorded hnone))
    · intro update hupdate hid _
      rw [hmem update hupdate hid] at hsome
      cases hsome

/-- Where ids are distinct, the segment with the id is changed and no other. -/
theorem mem_modifyById (hdistinct : (a.segments.map RealtimeSegmentRevision.id).Nodup) {id : String}
    {f : RealtimeSegmentRevision → RealtimeSegmentRevision} {segment : RealtimeSegmentRevision}
    (h : segment ∈ (a.modifyById id f).segments) :
    ∃ old ∈ a.segments, old.id = id ∧ segment = f old ∨ old.id ≠ id ∧ segment = old := by
  rw [modifyById] at h
  split at h
  · next hnone =>
    rw [List.findIdx?_eq_none_iff] at hnone
    exact ⟨segment, h, .inr ⟨by simpa using hnone segment h, rfl⟩⟩
  · next index hindex =>
    obtain ⟨hlt, hid, -⟩ := List.findIdx?_eq_some_iff_getElem.mp hindex
    simp only [decide_eq_true_eq] at hid
    obtain ⟨position, hposition, rfl⟩ := List.getElem_of_mem h
    simp only [modifySegment, List.length_modify] at hposition
    simp only [modifySegment, List.getElem_modify]
    refine ⟨a.segments[position], List.getElem_mem hposition, ?_⟩
    split
    · next heq =>
      subst heq
      exact .inl ⟨hid, rfl⟩
    · next hne =>
      refine .inr ⟨?_, rfl⟩
      intro hsame
      have hsegments : a.segments[index] = a.segments[position] :=
        List.inj_on_of_nodup_map hdistinct (List.getElem_mem hlt) (List.getElem_mem hposition) (hid.trans hsame.symm)
      exact hne ((List.Nodup.of_map _ hdistinct).getElem_inj_iff.mp hsegments)

theorem nodup_segmentIds {placed : List (Nat × SttStreamToken)} (h : a.frame.Placed placed) :
    (a.segments.map RealtimeSegmentRevision.id).Nodup := by
  have hids := h.nodup_ids
  rw [frame, List.map_map] at hids
  exact hids

theorem ids_modifyById {f : RealtimeSegmentRevision → RealtimeSegmentRevision}
    (hf : ∀ segment, (f segment).id = segment.id) (id : String) :
    (a.modifyById id f).segments.map RealtimeSegmentRevision.id = a.segments.map RealtimeSegmentRevision.id := by
  rw [modifyById]
  split
  · rfl
  · exact map_modify_eq hf _ _

/-- An update that was stored gives its segment a revision, unless it removed its row. -/
theorem mem_persistUpdate (hdistinct : (a.segments.map RealtimeSegmentRevision.id).Nodup)
    {answer : AssembledRealtimeUtterance → StoreAnswer} {update : AssembledRealtimeUtterance}
    {segment : RealtimeSegmentRevision} (h : segment ∈ (a.persistUpdate answer update).segments) :
    ∃ old ∈ a.segments, segment.id = old.id ∧ segment.sourceText = old.sourceText ∧
      (old.id = update.utterance.id ∧
        (update.removePartial = false → segment.complete = old.complete ∧ segment.revision ≠ none) ∨
        old.id ≠ update.utterance.id ∧ segment = old) := by
  -- the two records of one update, one behind the other
  have htwice : ∀ (language : Option String) (revision : Nat),
      segment ∈ ((a.recordTranslationPersisted update.utterance.id language).recordPersisted
        update.utterance.id revision).segments →
      ∃ old ∈ a.segments, segment.id = old.id ∧ segment.sourceText = old.sourceText ∧
        (old.id = update.utterance.id ∧
          (update.removePartial = false → segment.complete = old.complete ∧ segment.revision ≠ none) ∨
          old.id ≠ update.utterance.id ∧ segment = old) := by
    intro language revision hsegment
    have hdistinct' : ((a.recordTranslationPersisted update.utterance.id language).segments.map
        RealtimeSegmentRevision.id).Nodup := by
      have hids : (a.recordTranslationPersisted update.utterance.id language).segments.map
          RealtimeSegmentRevision.id = a.segments.map RealtimeSegmentRevision.id := by
        apply ids_modifyById
        exact fun _ => rfl
      rw [hids]
      exact hdistinct
    obtain ⟨middle, hmiddle, hchange⟩ := mem_modifyById hdistinct' hsegment
    obtain ⟨old, hold, hfirst⟩ := mem_modifyById hdistinct hmiddle
    rcases hfirst with ⟨hid, rfl⟩ | ⟨hid, rfl⟩
    · rcases hchange with ⟨-, rfl⟩ | ⟨hother, -⟩
      · exact ⟨old, hold, rfl, rfl, .inl ⟨hid, fun _ => ⟨rfl, by simp⟩⟩⟩
      · exact absurd hid hother
    · rcases hchange with ⟨hsame, -⟩ | ⟨-, rfl⟩
      · exact absurd hsame hid
      · exact ⟨segment, hold, rfl, rfl, .inr ⟨hid, rfl⟩⟩
  rw [persistUpdate] at h
  simp only at h
  split at h
  · next hremove =>
    split at h
    · rw [retireSourceSegment] at h
      have hretired : segment ∈ (a.modifyById update.utterance.id RealtimeSegmentRevision.retire).segments := by
        rw [modifyById]
        split at h <;> exact h
      obtain ⟨old, hold, ⟨hid, rfl⟩ | ⟨hid, rfl⟩⟩ := mem_modifyById hdistinct hretired
      · refine ⟨old, hold, rfl, rfl, .inl ⟨hid, ?_⟩⟩
        intro hkeep
        rw [hremove] at hkeep
        cases hkeep
      · exact ⟨segment, hold, rfl, rfl, .inr ⟨hid, rfl⟩⟩
    · exact htwice _ _ h
    · obtain ⟨old, hold, ⟨hid, rfl⟩ | ⟨hid, rfl⟩⟩ := mem_modifyById hdistinct h
      · refine ⟨old, hold, rfl, rfl, .inl ⟨hid, ?_⟩⟩
        intro hkeep
        rw [hremove] at hkeep
        cases hkeep
      · exact ⟨segment, hold, rfl, rfl, .inr ⟨hid, rfl⟩⟩
  · split at h
    · exact htwice _ _ h
    · split at h
      · exact htwice _ _ h
      · obtain ⟨old, hold, ⟨hid, rfl⟩ | ⟨hid, rfl⟩⟩ := mem_modifyById hdistinct h
        · exact ⟨old, hold, rfl, rfl, .inl ⟨hid, fun _ => ⟨rfl, by simp⟩⟩⟩
        · exact ⟨segment, hold, rfl, rfl, .inr ⟨hid, rfl⟩⟩

theorem awaiting_persistUpdate (hdistinct : (a.segments.map RealtimeSegmentRevision.id).Nodup)
    {answer : AssembledRealtimeUtterance → StoreAnswer} {update : AssembledRealtimeUtterance}
    {updates : List AssembledRealtimeUtterance}
    (h : ∀ segment ∈ a.segments, Awaiting (update :: updates) published segment) :
    ∀ segment ∈ (a.persistUpdate answer update).segments, Awaiting updates published segment := by
  intro segment hsegment
  obtain ⟨old, hold, hid, htext, hchange⟩ := mem_persistUpdate hdistinct hsegment
  obtain ⟨hshown, hrecorded, hremoved⟩ := h old hold
  have hremoved' : ∀ other ∈ updates, other.utterance.id = segment.id → other.removePartial = true →
      segment.sourceText = "" ∧ lastPublished published segment.id = "" := by
    intro other hother hotherId hremove
    rw [hid] at hotherId ⊢
    rw [htext]
    exact hremoved other (List.mem_cons_of_mem _ hother) hotherId hremove
  rcases hchange with ⟨hhere, hstored⟩ | ⟨hother, rfl⟩
  · cases hremove : update.removePartial with
    | true =>
      obtain ⟨hempty, hlast⟩ := hremoved update List.mem_cons_self hhere.symm hremove
      rw [← hid] at hlast
      refine ⟨.inl ?_, fun _ => .inl hlast, hremoved'⟩
      rw [hlast, htext, hempty]
    | false =>
      obtain ⟨hcomplete, hrevision⟩ := hstored hremove
      refine ⟨?_, fun hnone => absurd hnone hrevision, hremoved'⟩
      rw [Shown, hid, htext, hcomplete]
      exact hshown
  · refine ⟨hshown, ?_, hremoved'⟩
    intro hnone
    rcases hrecorded hnone with hlast | ⟨other, hmem, hotherId, hkeep⟩
    · exact .inl hlast
    · rcases List.mem_cons.mp hmem with rfl | hmem
      · exact absurd hotherId.symm hother
      · exact .inr ⟨other, hmem, hotherId, hkeep⟩

theorem persistUpdate_fields (answer : AssembledRealtimeUtterance → StoreAnswer) (update : AssembledRealtimeUtterance) :
    (a.persistUpdate answer update).nextSequence = a.nextSequence ∧
      (a.persistUpdate answer update).sessionId = a.sessionId := by
  have hmodify : ∀ (a : RealtimeUtteranceAssembler) (id : String)
      (f : RealtimeSegmentRevision → RealtimeSegmentRevision),
      (a.modifyById id f).nextSequence = a.nextSequence ∧ (a.modifyById id f).sessionId = a.sessionId := by
    intro a id f
    rw [modifyById]
    split <;> exact ⟨rfl, rfl⟩
  simp only [persistUpdate, recordPersisted, recordTranslationPersisted, recordPartialRemoved, retireSourceSegment]
  repeat' split
  all_goals simp [hmodify, modifySegment]

/-- Once all updates are stored, nothing is awaited. -/
theorem settled_persistAssembledUtterances {placed : List (Nat × SttStreamToken)} {tail : String}
    (hworded : a.frame.Worded placed tail) {updates : List AssembledRealtimeUtterance}
    (h : ∀ segment ∈ a.segments, Awaiting updates published segment)
    (hunused : ∀ n, a.nextSequence ≤ n → lastPublished published (a.sessionId ++ ":" ++ toString n) = "")
    (answer : AssembledRealtimeUtterance → StoreAnswer) :
    (a.persistAssembledUtterances answer updates).Settled published := by
  rw [persistAssembledUtterances]
  induction updates generalizing a with
  | nil =>
    refine ⟨?_, hunused⟩
    intro segment hsegment
    obtain ⟨hshown, hrecorded, -⟩ := h segment hsegment
    refine ⟨?_, .inr (.inr hshown)⟩
    intro hnone
    rcases hrecorded hnone with hlast | ⟨_, hmem, -⟩
    · exact hlast
    · cases hmem
  | cons update updates ih =>
    have hdistinct := nodup_segmentIds hworded.toPlaced
    obtain ⟨hnext, hsession⟩ := @persistUpdate_fields a answer update
    apply ih (worded_persistUpdate hworded answer update) (awaiting_persistUpdate hdistinct h)
    rw [hnext, hsession]
    exact hunused

/-- The updates that are taken leave the ids of later segments alone. -/
theorem unused_takeDirtyUpdates {placed : List (Nat × SttStreamToken)} (hplaced : a.frame.Placed placed)
    (h : a.Settled published) : ∀ n, a.nextSequence ≤ n →
    lastPublished (published ++ a.takeDirtyUpdates.2) (a.sessionId ++ ":" ++ toString n) = "" := by
  intro n hn
  rw [lastPublished_append, h.unused n hn]
  intro update hupdate heq
  obtain ⟨segment, hsegment, hsome⟩ := List.mem_filterMap.mp hupdate
  obtain ⟨hid, hsequence⟩ := hplaced.numbered segment.core (List.mem_map_of_mem hsegment)
  have hsame : a.sessionId ++ ":" ++ toString segment.sequence = a.sessionId ++ ":" ++ toString n :=
    (hid.symm.trans (dirtyUpdate_id hsome).1.symm).trans heq
  have heq' := utteranceId_injective hsame
  have hlt : segment.sequence < a.nextSequence := hsequence
  omega

end RealtimeUtteranceAssembler

end Zulangue.Assembler
