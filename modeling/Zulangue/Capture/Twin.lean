import Zulangue.Capture.Overlay

/-!
# A session and its twin without edits

Every provider fact is run twice, in the session and in the one without its edits. Both
accept it and stay twins, or both refuse it alike.
-/

namespace Zulangue.Capture

open Zulangue.Lib.Fallible

/-! ## The same session without edits -/

/-- The session with its edits, and without them. -/
structure Twin (s s₀ : CaptureStore) : Prop where
  edits : EditsOk s
  erased : s₀ = s.withoutEdits

/-- Both show a row of theirs. -/
def TwinShowing (p q : CaptureStore × RealtimeUtterance) : Prop :=
  Twin p.1 q.1 ∧ ∃ u ∈ p.1.utterances, Shows u p.2 ∧ Shows u q.2

theorem EditsOk.twin {s : CaptureStore} (h : EditsOk s) : Twin s s.withoutEdits := ⟨h, rfl⟩

theorem Twin.keeps {s s' : CaptureStore} (h : EditsOk s) (hkeeps : Keeps s s') : Twin s' s'.withoutEdits :=
  (h.keeps hkeeps).twin

theorem applyUtteranceOverrides_withoutEdits (s : CaptureStore) (u : RealtimeUtterance) :
    s.withoutEdits.applyUtteranceOverrides u = .ok u := rfl

theorem agree_show {s : CaptureStore} (h : EditsOk s) {u shown shown₀ : RealtimeUtterance}
    (hu : u ∈ s.utterances) (hshows : Shows u shown) (hshows₀ : Shows u shown₀) :
    Agree (fun a b => Shows u a ∧ Shows u b) (s.applyUtteranceOverrides shown)
      (s.withoutEdits.applyUtteranceOverrides shown₀) := by
  obtain ⟨next, hnext⟩ := exists_applyUtteranceOverrides h hu hshows
  rw [hnext, applyUtteranceOverrides_withoutEdits]
  exact .ok ⟨hshows.trans (shows_of_applyUtteranceOverrides hnext), hshows₀⟩

/-- A row that is read back and shown. -/
theorem agree_readBack {s : CaptureStore} (h : EditsOk s) (id : String) :
    Agree TwinShowing
      (do
        let utterance ← orError (s.byId id) .notFound
        let visible ← s.applyUtteranceOverrides utterance
        return (s, visible) : Except StoreError (CaptureStore × RealtimeUtterance))
      (do
        let utterance ← orError (s.withoutEdits.byId id) .notFound
        let visible ← s.withoutEdits.applyUtteranceOverrides utterance
        return (s.withoutEdits, visible)) := by
  refine Agree.bind_same (x := orError (s.byId id) StoreError.notFound) fun u hu => ?_
  have hmem := (mem_of_byId (orError_eq_ok.mp hu)).1
  refine (agree_show h hmem (Shows.refl u) (Shows.refl u)).bind fun a b _ hab => ?_
  exact .ok ⟨h.twin, u, hmem, hab.1, hab.2⟩

theorem writeTranslationLane_withoutEdits (s : CaptureStore) (u : RealtimeUtterance) (language : String)
    (payload : LanePayload) :
    s.withoutEdits.writeTranslationLane u language payload =
      (s.writeTranslationLane u language payload).withoutEdits := by
  rw [CaptureStore.writeTranslationLane, CaptureStore.writeTranslationLane]
  split
  · rfl
  · rfl

theorem agree_upsertTranslationVariant {s : CaptureStore} (h : EditsOk s) (sequence : Nat) (language : String)
    (payload : LanePayload) (laneWrite : TranslationLaneWrite) :
    Agree TwinShowing (s.upsertTranslationVariantFromConn sequence language payload laneWrite)
      (s.withoutEdits.upsertTranslationVariantFromConn sequence language payload laneWrite) := by
  refine Agree.bind_same (x := orError (s.bySequence sequence) StoreError.notFound) fun u hu => ?_
  have hmem := (mem_of_bySequence (orError_eq_ok.mp hu)).1
  refine Agree.bind_same fun _ hsource => ?_
  refine Agree.bind_same fun writes hdecided => ?_
  have hother := (Bool.not_eq_true' _).mp (ensure_eq_ok.mp hsource)
  cases writes with
  | false =>
    refine (agree_show h hmem (Shows.refl u) (Shows.refl u)).bind fun a b _ hab => ?_
    exact .ok ⟨h.twin, u, hmem, hab.1, hab.2⟩
  | true =>
    refine Agree.bind_same fun _ hwellFormed => ?_
    have hkeeps := keeps_writeTranslationLane hmem (canonicalLanguage_canonicalLanguage language) hother
      hdecided (ensure_eq_ok.mp hwellFormed)
    rw [writeTranslationLane_withoutEdits]
    exact agree_readBack (h.keeps hkeeps) u.id

theorem agree_adopt {s : CaptureStore} (h : EditsOk s) (item : RealtimeTranslationInboxItem)
    {canonical : RealtimeUtterance} (hmem : canonical ∈ s.utterances) :
    Agree TwinShowing (s.adoptTranslationInboxSourceLanguage item canonical)
      (s.withoutEdits.adoptTranslationInboxSourceLanguage item canonical) := by
  rw [CaptureStore.adoptTranslationInboxSourceLanguage, CaptureStore.adoptTranslationInboxSourceLanguage]
  dsimp only
  split
  · exact .ok ⟨h.twin, canonical, hmem, Shows.refl _, Shows.refl _⟩
  · next hadopts =>
    simp only [Bool.or_eq_true, decide_eq_true_eq, not_or, Bool.not_eq_true, Decidable.not_not] at hadopts
    obtain ⟨⟨⟨-, hadopted⟩, hund⟩, hfree⟩ := hadopts
    have hkeeps := keeps_adoptedRow hmem hund hadopted
      (canonicalLanguage_canonicalLanguage item.sourceLanguage) hfree rfl
    have hread := agree_readBack (h.keeps hkeeps) canonical.id
    have hbumped : ∀ bumps : Bool,
        (if bumps then s.withoutEdits.bumpDesired else s.withoutEdits) =
          (if bumps then s.bumpDesired else s).withoutEdits := by
      intro bumps
      cases bumps <;> rfl
    rw [hbumped]
    exact hread

theorem agree_claim {s : CaptureStore} (h : EditsOk s) (item : RealtimeTranslationInboxItem)
    {u canonical canonical₀ : RealtimeUtterance} (hu : u ∈ s.utterances) (hshows : Shows u canonical)
    (hshows₀ : Shows u canonical₀) (text : Option String) :
    Agree TwinShowing (s.claimAuxiliaryFinalFromProvisionalSource canonical item text)
      (s.withoutEdits.claimAuxiliaryFinalFromProvisionalSource canonical₀ item text) := by
  have hany : ∀ {shown : RealtimeUtterance}, Shows u shown →
      (shown.variants.any fun v => v.role = .source && v.tag = canonicalLanguage item.key.targetLanguage &&
        v.state = .ready && v.completion = some .partial_) =
      u.variants.any fun v => v.role = .source && v.tag = canonicalLanguage item.key.targetLanguage &&
        v.state = .ready && v.completion = some .partial_ := by
    intro shown hshows
    apply hshows.any_eq
    intro v _ v' hshown
    rw [hshown.role, hshown.state, hshown.completion, tag_eq_of_language hshown.language]
  rw [CaptureStore.claimAuxiliaryFinalFromProvisionalSource,
    CaptureStore.claimAuxiliaryFinalFromProvisionalSource]
  refine Agree.bind_same fun claimed _ => ?_
  rw [hany hshows, hany hshows₀, hshows₀.id, hshows.id]
  refine Agree.bind_same fun _ hprovisional => ?_
  have hkeeps := @keeps_claimedRow s u u (canonicalLanguage item.key.targetLanguage) claimed hu (Shows.refl u)
    (ensure_eq_ok.mp hprovisional)
  exact agree_readBack (h.keeps hkeeps) u.id

/-- The row goes from both, or from neither: an edited row has a Final lane. -/
theorem twin_collect {s : CaptureStore} (h : EditsOk s) {u shown shown₀ : RealtimeUtterance}
    (hu : u ∈ s.utterances) (hshows : Shows u shown) (hshows₀ : Shows u shown₀) :
    Twin (s.collectEmptyTranslationShellAfterWithdrawal shown).1
      (s.withoutEdits.collectEmptyTranslationShellAfterWithdrawal shown₀).1 := by
  have hok := h.store.rows u hu
  have hkeeps := keeps_collectEmptyTranslationShell hu hshows
  have hunedited : shown.hasSourceFact = false → shown.hasReadyTranslation = false →
      (s.overrides.any (·.utteranceId = shown.id) || s.mutations.any (·.utteranceId = shown.id)) = false := by
    intro hfact hready
    have hopen := hshows.open_ hok hfact hready
    have hnone : ∀ u' ∈ s.utterances, u'.id = shown.id → ∀ v ∈ u'.variants, v.isFinal ≠ true := by
      intro u' hu' hid v hv hfinal
      obtain rfl := h.store.eq_of_id hu' hu (hid.trans hshows.id)
      rw [hopen v hv] at hfinal
      cases hfinal
    rw [Bool.or_eq_false_iff, List.any_eq_false, List.any_eq_false]
    constructor
    · intro o ho hid
      obtain ⟨u', hu', hid', -, v, hv, -, -, hfinal, -⟩ := (h.fits o ho).lane
      exact hnone u' hu' (hid'.trans (of_decide_eq_true hid)) v hv hfinal
    · intro m hm hid
      obtain ⟨u', hu', hid', v, hv, hfinal⟩ := h.staged m hm
      exact hnone u' hu' (hid'.trans (of_decide_eq_true hid)) v hv hfinal
  have hleft : s.collectEmptyTranslationShellAfterWithdrawal shown =
      if shown.hasSourceFact || shown.hasReadyTranslation then (s, some shown)
      else (s.deleteUtterance shown.id, none) := by
    rw [CaptureStore.collectEmptyTranslationShellAfterWithdrawal]
    cases hfact : shown.hasSourceFact with
    | true => rfl
    | false =>
      cases hready : shown.hasReadyTranslation with
      | true => rfl
      | false =>
        rw [hunedited hfact hready]
        rfl
  have hright : s.withoutEdits.collectEmptyTranslationShellAfterWithdrawal shown₀ =
      if shown.hasSourceFact || shown.hasReadyTranslation then (s.withoutEdits, some shown₀)
      else (s.withoutEdits.deleteUtterance shown.id, none) := by
    rw [CaptureStore.collectEmptyTranslationShellAfterWithdrawal, hshows₀.hasSourceFact hok,
      hshows₀.hasReadyTranslation hok, hshows.hasSourceFact hok, hshows.hasReadyTranslation hok, hshows₀.id,
      hshows.id]
    cases u.hasSourceFact <;> cases u.hasReadyTranslation <;> rfl
  rw [hleft] at hkeeps
  rw [hleft, hright]
  split at hkeeps
  · next hfacts =>
    rw [if_pos hfacts, if_pos hfacts]
    exact h.twin
  · next hempty =>
    rw [if_neg hempty, if_neg hempty]
    exact (h.keeps hkeeps).twin

/-! ## The inbox -/

/-- Transactions that end in twins. -/
def TwinEnds {α : Type} (p q : CaptureStore × α) : Prop := Twin p.1 q.1

theorem agree_applyWithdrawal {s : CaptureStore} (h : EditsOk s) (item : RealtimeTranslationInboxItem)
    (sequence : Nat) {u canonical canonical₀ : RealtimeUtterance} (hu : u ∈ s.utterances)
    (hshows : Shows u canonical) (hshows₀ : Shows u canonical₀) :
    Agree TwinEnds (s.applyWithdrawal item sequence canonical)
      (s.withoutEdits.applyWithdrawal item sequence canonical₀) := by
  have hlane : ∀ v v', LaneShown v v' →
      (v'.role = .translation && v'.tag = canonicalLanguage item.key.targetLanguage : Bool) =
        (v.role = .translation && v.tag = canonicalLanguage item.key.targetLanguage : Bool) := by
    intro v v' hshown
    rw [hshown.role, tag_eq_of_language hshown.language]
  have hcomplete : ∀ v v', LaneShown v v' →
      decide (v'.completion = some .complete) = decide (v.completion = some .complete) := by
    intro v v' hshown
    rw [hshown.completion]
  have hwaiting : ∀ v v', LaneShown v v' → decide (v'.state = .waiting) = decide (v.state = .waiting) := by
    intro v v' hshown
    rw [hshown.state]
  rw [CaptureStore.applyWithdrawal, CaptureStore.applyWithdrawal]
  dsimp only
  rw [hshows.any_find_eq hlane hcomplete, hshows₀.any_find_eq hlane hcomplete,
    hshows.any_find_eq hlane hwaiting, hshows₀.any_find_eq hlane hwaiting]
  refine Agree.bind_same fun _ _ => ?_
  split
  · refine (agree_show h hu hshows hshows₀).bind fun a b _ hab => ?_
    exact .ok (twin_collect h hu hab.1 hab.2)
  · refine (agree_upsertTranslationVariant h _ _ _ _).bind fun p q _ hpq => ?_
    obtain ⟨⟨hedits, herased⟩, row, hrow, hshown, hshown₀⟩ := hpq
    obtain ⟨t, shown⟩ := p
    obtain ⟨t₀, shown₀⟩ := q
    obtain rfl : t₀ = t.withoutEdits := herased
    exact .ok (twin_collect hedits hrow hshown hshown₀)

theorem agree_applySegments {s : CaptureStore} (h : EditsOk s) (item : RealtimeTranslationInboxItem)
    (sequence : Nat) (composed : Option ComposedTranslationLane) (isMutable : Bool) :
    Agree TwinEnds (s.applySegments item sequence composed isMutable)
      (s.withoutEdits.applySegments item sequence composed isMutable) :=
  (agree_upsertTranslationVariant h _ _ _ _).bind fun _ _ _ hpq => .ok hpq.1

theorem agree_applyTranslationInbox {s : CaptureStore} (h : EditsOk s) (item : RealtimeTranslationInboxItem)
    (sequence : Nat) :
    Agree TwinEnds (s.applyTranslationInboxToBoundUtterance item sequence)
      (s.withoutEdits.applyTranslationInboxToBoundUtterance item sequence) := by
  refine Agree.bind_same (x := orError (s.bySequence sequence) StoreError.notFound) fun u hu => ?_
  refine (agree_adopt h item (mem_of_bySequence (orError_eq_ok.mp hu)).1).bind fun p q _ hpq => ?_
  obtain ⟨⟨hedits, herased⟩, row, hrow, hshown, hshown₀⟩ := hpq
  obtain ⟨t, canonical⟩ := p
  obtain ⟨t₀, canonical₀⟩ := q
  obtain rfl : t₀ = t.withoutEdits := herased
  have hok := hedits.store.rows row hrow
  dsimp only at hrow hshown hshown₀ ⊢
  rw [hshown.hasSourceLane hok, hshown₀.hasSourceLane hok, hshown.sourceLaneIsComplete hok,
    hshown₀.sourceLaneIsComplete hok, hshown.sourceLanguage, hshown₀.sourceLanguage, hshown.id, hshown₀.id]
  have hcomposed : t.withoutEdits.composedTranslationLane = t.composedTranslationLane := rfl
  have hactive : t.withoutEdits.captureActive = t.captureActive := rfl
  rw [hcomposed, hactive]
  split
  · exact .ok hedits.twin
  · split
    · exact agree_applyWithdrawal hedits item sequence hrow hshown hshown₀
    · split
      · exact (agree_claim hedits item hrow hshown hshown₀ _).bind fun _ _ _ hpq => .ok hpq.1
      · exact agree_applySegments hedits item sequence _ _

theorem EditsOk.updateInbox {s : CaptureStore} (h : EditsOk s) (key : RealtimeTranslationInboxKey)
    (f : RealtimeTranslationInboxItem → RealtimeTranslationInboxItem) : EditsOk (s.updateInbox key f) :=
  h.keeps (keeps_updateInbox s key f)

section
variable {toLowercase : Char → List Char}

theorem agree_bindTranslationInboxItem {s : CaptureStore} (h : EditsOk s) (key : RealtimeTranslationInboxKey)
    (sequence : Nat) :
    Agree TwinEnds (s.bindTranslationInboxItem toLowercase key sequence)
      (s.withoutEdits.bindTranslationInboxItem toLowercase key sequence) := by
  refine Agree.bind_same (x := orError (s.inboxItem key) StoreError.notFound) fun item _ => ?_
  split
  · exact .ok h.twin
  · refine Agree.bind_same fun _ _ => ?_
    refine Agree.bind_same (x := orError (s.bySequence sequence) StoreError.notFound) fun u _ => ?_
    refine Agree.bind_same fun _ _ => ?_
    refine Agree.bind_same fun _ _ => ?_
    refine Agree.bind_same fun _ _ => ?_
    have hbound := h.updateInbox key fun item =>
      { item with boundUtteranceId := some u.id, boundSequence := some sequence }
    split
    · exact .ok hbound.twin
    · exact agree_applyTranslationInbox hbound item sequence

/-- The same answer, and twins. -/
def TwinAnswers {α : Type} (p q : CaptureStore × α) : Prop := Twin p.1 q.1 ∧ p.2 = q.2

theorem agree_tryBind {s : CaptureStore} (h : EditsOk s) (key : RealtimeTranslationInboxKey) (sequence : Nat) :
    Agree TwinEnds (s.tryBind toLowercase key sequence) (s.withoutEdits.tryBind toLowercase key sequence) := by
  rw [CaptureStore.tryBind, CaptureStore.tryBind]
  have hbind := @agree_bindTranslationInboxItem toLowercase s h key sequence
  generalize s.bindTranslationInboxItem toLowercase key sequence = result at hbind
  generalize s.withoutEdits.bindTranslationInboxItem toLowercase key sequence = result₀ at hbind
  cases hbind with
  | ok htwin => exact .ok htwin
  | error err =>
    cases err with
    | conflict => exact .ok h.twin
    | validation => exact .error _
    | notFound => exact .error _
    | corruptData => exact .error _
    | sql => exact .error _

theorem agree_reconcileItem (candidates : List RealtimeUtterance) {s s₀ : CaptureStore} (h : Twin s s₀)
    (item : RealtimeTranslationInboxItem) :
    Agree Twin (CaptureStore.reconcileItem toLowercase candidates s item)
      (CaptureStore.reconcileItem toLowercase candidates s₀ item) := by
  obtain ⟨hedits, rfl⟩ := h
  rw [CaptureStore.reconcileItem, CaptureStore.reconcileItem]
  split
  · exact .ok hedits.twin
  · exact (agree_tryBind hedits item.key _).bind fun _ _ _ hpq => .ok hpq

theorem agree_reconcileTranslationInbox {s : CaptureStore} (h : EditsOk s) :
    Agree Twin (s.reconcileTranslationInbox toLowercase) (s.withoutEdits.reconcileTranslationInbox toLowercase) :=
  Agree.foldlM (fun _ _ item htwin => agree_reconcileItem s.utterances htwin item) _ h.twin

theorem agree_applyItems (id : String) (sequence : Nat) (items : List RealtimeTranslationInboxItem)
    {s : CaptureStore} (h : EditsOk s) :
    Agree TwinAnswers (CaptureStore.applyItems id sequence items s)
      (CaptureStore.applyItems id sequence items s.withoutEdits) := by
  induction items generalizing s with
  | nil => exact .ok ⟨h.twin, rfl⟩
  | cons item rest ih =>
    refine (agree_applyTranslationInbox h item sequence).bind fun p q _ hpq => ?_
    obtain ⟨t, left⟩ := p
    obtain ⟨t₀, left₀⟩ := q
    obtain ⟨hedits, herased⟩ := hpq
    obtain rfl : t₀ = t.withoutEdits := herased
    have hbyId : t.withoutEdits.byId id = t.byId id := rfl
    dsimp only at hedits ⊢
    rw [hbyId]
    split
    · exact .ok ⟨hedits.twin, rfl⟩
    · exact ih hedits

theorem agree_applyBound {s : CaptureStore} (h : EditsOk s) (id : String) (sequence : Nat) :
    Agree TwinAnswers (s.applyBoundTranslationInboxItems id sequence)
      (s.withoutEdits.applyBoundTranslationInboxItems id sequence) :=
  agree_applyItems id sequence _ h

theorem agree_detachTranslationInboxItem {s : CaptureStore} (h : EditsOk s)
    (item : RealtimeTranslationInboxItem) :
    Agree TwinEnds (s.detachTranslationInboxItem item) (s.withoutEdits.detachTranslationInboxItem item) := by
  refine Agree.bind_same fun sequence _ => ?_
  refine Agree.bind_same fun id _ => ?_
  refine Agree.bind_same fun _ _ => ?_
  have hunbound := h.updateInbox item.key fun item => { item with boundUtteranceId := none, boundSequence := none }
  generalize hmid : s.updateInbox item.key
    (fun item => { item with boundUtteranceId := none, boundSequence := none }) = mid at hunbound
  have hmid₀ : s.withoutEdits.updateInbox item.key
      (fun item => { item with boundUtteranceId := none, boundSequence := none }) = mid.withoutEdits := by
    rw [← hmid]
    rfl
  dsimp only
  rw [hmid₀]
  have hbyId : mid.withoutEdits.byId id = mid.byId id := rfl
  have hinbox : mid.withoutEdits.listTranslationInbox = mid.listTranslationInbox := rfl
  rw [hbyId, hinbox]
  split
  · exact .ok hunbound.twin
  · split
    · exact .ok hunbound.twin
    · split
      · exact agree_applyTranslationInbox hunbound _ sequence
      · refine (agree_upsertTranslationVariant hunbound _ _ _ _).bind fun p q _ hpq => ?_
        obtain ⟨⟨hedits, herased⟩, row, hrow, hshown, hshown₀⟩ := hpq
        obtain ⟨t, shown⟩ := p
        obtain ⟨t₀, shown₀⟩ := q
        obtain rfl : t₀ = t.withoutEdits := herased
        exact .ok (twin_collect hedits hrow hshown hshown₀)

theorem agree_detachItem {s s₀ : CaptureStore} (h : Twin s s₀) (item : RealtimeTranslationInboxItem) :
    Agree Twin (CaptureStore.detachItem s item) (CaptureStore.detachItem s₀ item) := by
  obtain ⟨hedits, rfl⟩ := h
  exact (agree_detachTranslationInboxItem hedits item).bind fun _ _ _ hpq => .ok hpq

theorem agree_revalidate {s : CaptureStore} (h : EditsOk s) (id : String) (sequence : Nat) :
    Agree Twin (s.revalidateBoundTranslationInboxItems toLowercase id sequence)
      (s.withoutEdits.revalidateBoundTranslationInboxItems toLowercase id sequence) := by
  refine Agree.bind_same (x := orError (s.byId id) StoreError.notFound) fun u _ => ?_
  exact Agree.foldlM (fun _ _ item htwin => agree_detachItem htwin item) _ h.twin

theorem agree_applyChangedItem {s : CaptureStore} (h : EditsOk s) (item : RealtimeTranslationInboxItem) :
    Agree Twin (s.applyChangedItem toLowercase item) (s.withoutEdits.applyChangedItem toLowercase item) := by
  unfold CaptureStore.applyChangedItem
  split
  · next sequence _ _ =>
    have hrow : s.withoutEdits.bySequence sequence = s.bySequence sequence := rfl
    rw [hrow]
    split
    · split
      · exact agree_detachItem h.twin item
      · exact (agree_applyTranslationInbox h item sequence).bind fun _ _ _ hpq => .ok hpq
    · exact .ok (h.updateInbox item.key _).twin
  · exact .ok h.twin
  · exact .error _

theorem putInboxItem_withoutEdits (s : CaptureStore) (key : RealtimeTranslationInboxKey)
    (input : NewRealtimeTranslationInboxItem) :
    s.withoutEdits.putInboxItem key input = (s.putInboxItem key input).withoutEdits := by
  have hitem : s.withoutEdits.inboxItem key = s.inboxItem key := rfl
  rw [CaptureStore.putInboxItem, CaptureStore.putInboxItem, hitem]
  split
  · rfl
  · rfl

theorem agree_tryBindUnique {s : CaptureStore} (h : EditsOk s) (key : RealtimeTranslationInboxKey)
    (candidate : Option Nat) :
    Agree Twin
      (match candidate with
        | none => pure s
        | some sequence => do return (← s.tryBind toLowercase key sequence).1 : Except StoreError CaptureStore)
      (match candidate with
        | none => pure s.withoutEdits
        | some sequence => do return (← s.withoutEdits.tryBind toLowercase key sequence).1) := by
  cases candidate with
  | none => exact .ok h.twin
  | some sequence => exact (agree_tryBind h key sequence).bind fun _ _ _ hpq => .ok hpq

theorem agree_upsertTranslationInboxItem {s : CaptureStore} (h : EditsOk s)
    (input : NewRealtimeTranslationInboxItem) :
    Agree Twin (s.upsertTranslationInboxItem toLowercase input)
      (s.withoutEdits.upsertTranslationInboxItem toLowercase input) := by
  refine Agree.bind_same fun _ _ => ?_
  refine Agree.bind_same (x := s.ensureActiveRealtimeSession) fun _ _ => ?_
  rw [CaptureStore.upsertTranslationInboxItemFromConn, CaptureStore.upsertTranslationInboxItemFromConn]
  dsimp only
  generalize ({ input.key with targetLanguage := canonicalLanguage input.key.targetLanguage } :
    RealtimeTranslationInboxKey) = key
  have hitem : ∀ t : CaptureStore, t.withoutEdits.inboxItem key = t.inboxItem key := fun _ => rfl
  rw [hitem]
  refine Agree.bind_same fun _ _ => ?_
  have htail : ∀ {t t₀ : CaptureStore}, Twin t t₀ → Agree Twin
      (do
        let item ← orError (t.inboxItem key) StoreError.notFound
        if (!item.withdrawn && item.boundSequence.isNone && decide (item.key.groupEpoch = 0)) = true then
          match uniqueTranslationInboxCandidate toLowercase item t.utterances with
          | none => pure t
          | some sequence => do return (← t.tryBind toLowercase key sequence).1
        else pure t)
      (do
        let item ← orError (t₀.inboxItem key) StoreError.notFound
        if (!item.withdrawn && item.boundSequence.isNone && decide (item.key.groupEpoch = 0)) = true then
          match uniqueTranslationInboxCandidate toLowercase item t₀.utterances with
          | none => pure t₀
          | some sequence => do return (← t₀.tryBind toLowercase key sequence).1
        else pure t₀) := by
    intro t t₀ htwin
    obtain ⟨hedits, rfl⟩ := htwin
    refine Agree.bind_same (x := orError (t.inboxItem key) StoreError.notFound) fun item _ => ?_
    split
    · exact agree_tryBindUnique hedits key (uniqueTranslationInboxCandidate toLowercase item t.utterances)
    · exact .ok hedits.twin
  split
  · rw [putInboxItem_withoutEdits]
    have hput := h.keeps (keeps_putInboxItem s key input)
    refine Agree.bind_same (x := orError ((s.putInboxItem key input).inboxItem key) StoreError.notFound)
      fun item _ => ?_
    exact (agree_applyChangedItem hput item).bind fun t t₀ _ htwin => htail htwin
  · refine Agree.bind_same (x := orError (s.inboxItem key) StoreError.notFound) fun item _ => ?_
    exact htail h.twin

theorem agree_bindInboxItem {s : CaptureStore} (h : EditsOk s) (key : RealtimeTranslationInboxKey)
    (sequence : Nat) :
    Agree Twin (s.bindInboxItem toLowercase key sequence)
      (s.withoutEdits.bindInboxItem toLowercase key sequence) := by
  refine Agree.bind_same fun _ _ => ?_
  refine Agree.bind_same (x := s.ensureActiveRealtimeSession) fun _ _ => ?_
  exact (agree_bindTranslationInboxItem h key sequence).bind fun _ _ _ hpq => .ok hpq

theorem agree_bindIfUnique {s : CaptureStore} (h : EditsOk s) (key : RealtimeTranslationInboxKey) :
    Agree Twin (s.bindTranslationInboxItemIfUnique toLowercase key)
      (s.withoutEdits.bindTranslationInboxItemIfUnique toLowercase key) := by
  refine Agree.bind_same fun _ _ => ?_
  split
  · exact .ok h.twin
  · refine Agree.bind_same (x := s.ensureActiveRealtimeSession) fun _ _ => ?_
    refine Agree.bind_same (x := orError (s.inboxItem key) StoreError.notFound) fun item _ => ?_
    split
    · exact .ok h.twin
    · exact agree_tryBindUnique h key
        (item.boundSequence.or (uniqueTranslationInboxCandidate toLowercase item s.utterances))

theorem agree_reconcileActive {s : CaptureStore} (h : EditsOk s) :
    Agree Twin (s.reconcileActiveTranslationInbox toLowercase)
      (s.withoutEdits.reconcileActiveTranslationInbox toLowercase) := by
  refine Agree.bind_same (x := s.ensureActiveRealtimeSession) fun _ _ => ?_
  exact agree_reconcileTranslationInbox h

theorem agree_applyBoundRow {s s₀ : CaptureStore} (h : Twin s s₀) (row : String × Nat) :
    Agree Twin (CaptureStore.applyBoundRow s row) (CaptureStore.applyBoundRow s₀ row) := by
  obtain ⟨hedits, rfl⟩ := h
  exact (agree_applyBound hedits row.1 row.2).bind fun _ _ _ hpq => .ok hpq.1

theorem agree_reconcileAfterRecovery {s : CaptureStore} (h : EditsOk s) (rows : List (String × Nat)) :
    Agree Twin (s.reconcileTranslationInboxAfterRecovery toLowercase rows)
      (s.withoutEdits.reconcileTranslationInboxAfterRecovery toLowercase rows) := by
  refine Agree.bind_same (x := s.ensureRealtimeSessionProvenance) fun _ _ => ?_
  refine (Agree.foldlM (fun _ _ row htwin => agree_applyBoundRow htwin row) rows h.twin).bind
    fun t t₀ _ htwin => ?_
  obtain ⟨hedits, rfl⟩ := htwin
  exact agree_reconcileTranslationInbox hedits

/-! ## Source writes and withdrawals -/

theorem agree_markUnavailable {s s₀ : CaptureStore} (h : Twin s s₀) (lane : Nat × String) :
    Agree Twin (CaptureStore.markUnavailable s lane) (CaptureStore.markUnavailable s₀ lane) := by
  obtain ⟨hedits, rfl⟩ := h
  exact (agree_upsertTranslationVariant hedits _ _ _ _).bind fun _ _ _ hpq => .ok hpq.1

theorem agree_markWaiting {s : CaptureStore} (h : EditsOk s) :
    Agree Twin s.markWaitingTranslationVariantsUnavailable
      s.withoutEdits.markWaitingTranslationVariantsUnavailable := by
  refine Agree.bind_same (x := s.ensureRealtimeSessionProvenance) fun _ _ => ?_
  exact Agree.foldlM (fun _ _ lane htwin => agree_markUnavailable htwin lane) _ h.twin

theorem agree_upsertTranslationVariantOperation {s : CaptureStore} (h : EditsOk s) (sequence : Nat)
    (update : RealtimeTranslationLaneUpdate) :
    Agree TwinShowing (s.upsertTranslationVariant sequence update)
      (s.withoutEdits.upsertTranslationVariant sequence update) := by
  refine Agree.bind_same fun _ _ => ?_
  refine Agree.bind_same fun _ _ => ?_
  refine Agree.bind_same (x := s.ensureActiveRealtimeSession) fun _ _ => ?_
  exact agree_upsertTranslationVariant h _ _ _ _

theorem writeUtteranceRow_withoutEdits (s : CaptureStore) (input : NewRealtimeUtterance) (language : String)
    (shadow : StoredShadow) (expectedRevision : Option Nat) :
    Agree (fun p q => q = (p.1.withoutEdits, p.2))
      (s.writeUtteranceRow input language shadow expectedRevision)
      (s.withoutEdits.writeUtteranceRow input language shadow expectedRevision) := by
  unfold CaptureStore.writeUtteranceRow
  split
  · exact Agree.bind_same fun _ _ => .ok rfl
  · refine Agree.bind_same (x := orError (s.bySequence input.sequence) StoreError.conflict) fun u _ => ?_
    exact Agree.bind_same fun _ _ => .ok rfl

theorem writeSourceLane_withoutEdits (s : CaptureStore) (u : RealtimeUtterance) (coalesces : Bool) :
    s.withoutEdits.writeSourceLane u coalesces = (s.writeSourceLane u coalesces).withoutEdits := by
  rw [CaptureStore.writeSourceLane, CaptureStore.writeSourceLane]
  split
  · rfl
  · rfl

/-- What follows the write of a source row. -/
theorem agree_replayBound {s : CaptureStore} (h : EditsOk s) (id : String) (sequence : Nat) :
    Agree TwinShowing
      (do
        let s ← s.revalidateBoundTranslationInboxItems toLowercase id sequence
        let (s, survives) ← s.applyBoundTranslationInboxItems id sequence
        ensure survives StoreError.corruptData
        let utterance ← orError (s.bySequence sequence) StoreError.notFound
        let visible ← s.applyUtteranceOverrides utterance
        return (s, visible))
      (do
        let s ← s.withoutEdits.revalidateBoundTranslationInboxItems toLowercase id sequence
        let (s, survives) ← s.applyBoundTranslationInboxItems id sequence
        ensure survives StoreError.corruptData
        let utterance ← orError (s.bySequence sequence) StoreError.notFound
        let visible ← s.applyUtteranceOverrides utterance
        return (s, visible)) := by
  refine (agree_revalidate h id sequence).bind fun t t₀ _ htwin => ?_
  obtain ⟨hedits, rfl⟩ := htwin
  refine (agree_applyBound hedits id sequence).bind fun p q _ hpq => ?_
  obtain ⟨r, survives⟩ := p
  obtain ⟨r₀, survives₀⟩ := q
  obtain ⟨⟨hrest, herased⟩, hsame⟩ := hpq
  obtain rfl : r₀ = r.withoutEdits := herased
  obtain rfl : survives = survives₀ := hsame
  dsimp only at hrest ⊢
  refine Agree.bind_same fun _ _ => ?_
  refine Agree.bind_same (x := orError (r.bySequence sequence) StoreError.notFound) fun u hu => ?_
  have hmem := (mem_of_bySequence (orError_eq_ok.mp hu)).1
  refine (agree_show hrest hmem (Shows.refl u) (Shows.refl u)).bind fun a b _ hab => ?_
  exact .ok ⟨hrest.twin, u, hmem, hab.1, hab.2⟩

theorem agree_upsertPartialUtterance {s : CaptureStore} (h : EditsOk s) (input : NewRealtimeUtterance)
    (expectedRevision : Option Nat) :
    Agree TwinShowing (s.upsertPartialUtterance toLowercase input expectedRevision)
      (s.withoutEdits.upsertPartialUtterance toLowercase input expectedRevision) := by
  have hrow : s.withoutEdits.bySequence input.sequence = s.bySequence input.sequence := rfl
  have hlanguage := canonicalLanguage_learnedSourceLanguage (s.bySequence input.sequence) input.sourceLanguage
  rw [CaptureStore.upsertPartialUtterance, CaptureStore.upsertPartialUtterance, hrow]
  dsimp only
  generalize learnedSourceLanguage (s.bySequence input.sequence) (canonicalLanguage input.sourceLanguage) =
    language at hlanguage
  cases hexisting : s.bySequence input.sequence with
  | none =>
    refine Agree.bind_same fun coalesces hfalse => ?_
    refine (writeUtteranceRow_withoutEdits s input language _ expectedRevision).bind fun p q hwrite hpq => ?_
    obtain ⟨mid, row⟩ := p
    obtain rfl := hpq
    have hkeeps := keeps_writeSource hlanguage (fun u hu => by rw [hexisting] at hu; cases hu)
      (fun _ => (Except.ok.inj hfalse).symm) hwrite
    dsimp only
    rw [writeSourceLane_withoutEdits]
    exact agree_replayBound (h.keeps hkeeps) row.id input.sequence
  | some u =>
    refine Agree.bind_same fun coalesces hcoalesces => ?_
    refine (writeUtteranceRow_withoutEdits s input language _ expectedRevision).bind fun p q hwrite hpq => ?_
    obtain ⟨mid, row⟩ := p
    obtain rfl := hpq
    have hsame : ∀ u', s.bySequence input.sequence = some u' →
        coalescesWithFinalTranslation u' language = .ok coalesces := by
      intro u' hu'
      obtain rfl := Option.some.inj (hexisting.symm.trans hu')
      exact hcoalesces
    have hkeeps := keeps_writeSource hlanguage hsame (fun hnone => by rw [hexisting] at hnone; cases hnone) hwrite
    dsimp only
    rw [writeSourceLane_withoutEdits]
    exact agree_replayBound (h.keeps hkeeps) row.id input.sequence

theorem agree_upsertUtterance {s : CaptureStore} (h : EditsOk s) (input : NewRealtimeUtterance)
    (expectedRevision : Option Nat) :
    Agree TwinShowing (s.upsertUtterance toLowercase input expectedRevision)
      (s.withoutEdits.upsertUtterance toLowercase input expectedRevision) := by
  refine Agree.bind_same fun _ _ => ?_
  refine Agree.bind_same fun _ _ => ?_
  refine Agree.bind_same (x := s.ensureActiveRealtimeSession) fun _ _ => ?_
  refine Agree.bind_same (x := s.ensureSpeaker input.sessionSpeakerId) fun _ _ => ?_
  have hrow : s.withoutEdits.bySequence input.sequence = s.bySequence input.sequence := rfl
  rw [hrow]
  split
  · next u hu =>
    refine Agree.bind_same fun _ _ => ?_
    have hmem := (mem_of_bySequence (Option.eq_some_of_filter_eq_some hu)).1
    refine (agree_show h hmem (Shows.refl u) (Shows.refl u)).bind fun a b _ hab => ?_
    exact .ok ⟨h.twin, u, hmem, hab.1, hab.2⟩
  · exact agree_upsertPartialUtterance h input expectedRevision

theorem agree_applyTranslationUpdate {s : CaptureStore} (h : EditsOk s) (sequence : Nat)
    (update : Option RealtimeTranslationLaneUpdate) :
    Agree Twin (s.applyTranslationUpdate sequence update)
      (s.withoutEdits.applyTranslationUpdate sequence update) := by
  cases update with
  | none => exact .ok h.twin
  | some update => exact (agree_upsertTranslationVariant h _ _ _ _).bind fun _ _ _ hpq => .ok hpq.1

theorem agree_collectWithdrawnRow {s : CaptureStore} (h : EditsOk s) (sequence : Nat) (id : String) :
    Agree TwinEnds (s.collectWithdrawnRow sequence id) (s.withoutEdits.collectWithdrawnRow sequence id) := by
  refine Agree.bind_same (x := orError (s.byId id) StoreError.notFound) fun u hu => ?_
  split
  · have hmem := (mem_of_byId (orError_eq_ok.mp hu)).1
    exact (agree_show h hmem (Shows.refl u) (Shows.refl u)).bind fun _ _ _ _ => .ok h.twin
  · next hready =>
    refine Agree.bind_same fun _ hunsettled => ?_
    have hkeeps := keeps_deleteWithdrawn (orError_eq_ok.mp hu) (Bool.eq_false_iff.mpr hready)
      (of_decide_eq_true (Bool.and_eq_true_iff.mp (ensure_eq_ok.mp hunsettled)).2)
    exact .ok (h.keeps hkeeps).twin

theorem agree_removePartialUtterance {s : CaptureStore} (h : EditsOk s) (sequence expectedRevision : Nat)
    (update : Option RealtimeTranslationLaneUpdate) :
    Agree TwinEnds (s.removePartialUtterance toLowercase sequence expectedRevision update)
      (s.withoutEdits.removePartialUtterance toLowercase sequence expectedRevision update) := by
  refine Agree.bind_same fun _ _ => ?_
  refine Agree.bind_same (x := s.ensureActiveRealtimeSession) fun _ _ => ?_
  have hrow : s.withoutEdits.bySequence sequence = s.bySequence sequence := rfl
  rw [hrow]
  split
  · exact .ok h.twin
  · next u hu =>
    refine Agree.bind_same fun _ _ => ?_
    refine Agree.bind_same fun _ hunsettled => ?_
    refine Agree.bind_same fun _ _ => ?_
    have hwithdrawn := h.keeps (keeps_withdrawal (mem_of_bySequence hu).1
      ((Bool.not_eq_true' _).mp (ensure_eq_ok.mp hunsettled)))
    have hsame : (if u.hasSourceFact then s.withoutEdits.updateUtterance u.id CaptureStore.withdrawnSource
        else s.withoutEdits) =
        (if u.hasSourceFact then s.updateUtterance u.id CaptureStore.withdrawnSource else s).withoutEdits := by
      cases u.hasSourceFact <;> rfl
    dsimp only
    rw [hsame]
    refine (agree_applyTranslationUpdate hwithdrawn sequence update).bind fun t t₀ _ htwin => ?_
    obtain ⟨hedits, rfl⟩ := htwin
    refine (agree_applyBound hedits u.id sequence).bind fun p q _ hpq => ?_
    obtain ⟨r, survives⟩ := p
    obtain ⟨r₀, survives₀⟩ := q
    obtain ⟨⟨hrest, herased⟩, hsurvives⟩ := hpq
    obtain rfl : r₀ = r.withoutEdits := herased
    obtain rfl : survives = survives₀ := hsurvives
    dsimp only at hrest ⊢
    split
    · exact .ok hrest.twin
    · refine (agree_reconcileTranslationInbox hrest).bind fun t t₀ _ htwin => ?_
      obtain ⟨hlast, rfl⟩ := htwin
      exact agree_collectWithdrawnRow hlast sequence u.id

/-- A provider fact fares with the edits as it does without them. -/
theorem agree_apply {s : CaptureStore} (h : EditsOk s) {op : CaptureOperation}
    (hfact : op.isProviderFact = true) :
    Agree Twin (s.apply toLowercase op) (s.withoutEdits.apply toLowercase op) := by
  cases op with
  | upsertUtterance input expectedRevision =>
    exact (agree_upsertUtterance h input expectedRevision).bind fun _ _ _ hpq => .ok hpq.1
  | removePartialUtterance sequence expectedRevision update =>
    exact (agree_removePartialUtterance h sequence expectedRevision update).bind fun _ _ _ hpq => .ok hpq
  | upsertTranslationVariant sequence update =>
    exact (agree_upsertTranslationVariantOperation h sequence update).bind fun _ _ _ hpq => .ok hpq.1
  | markWaitingUnavailable => exact agree_markWaiting h
  | upsertInboxItem input => exact agree_upsertTranslationInboxItem h input
  | bindInboxItem key canonicalSequence => exact agree_bindInboxItem h key canonicalSequence
  | bindInboxItemIfUnique key => exact agree_bindIfUnique h key
  | reconcileActiveInbox => exact agree_reconcileActive h
  | reconcileAfterRecovery rows =>
    refine Agree.bind_same (x := ensure (rows.isPerm s.boundRows) StoreError.validation) fun _ _ => ?_
    exact agree_reconcileAfterRecovery h rows
  | ackProjection revision => cases hfact
  | stage id utteranceId laneLanguage targetText expectedRevision => cases hfact
  | commit mutationId => cases hfact
  | cancel mutationId => cases hfact
  | finishCapture => cases hfact

end

end Zulangue.Capture
