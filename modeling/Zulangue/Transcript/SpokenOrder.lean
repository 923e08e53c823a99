import Zulangue.Capture.Operations
import Zulangue.Transcript.Convergence

/-!
# Every run shows its sessions in spoken order

A run interleaves snapshots of any number of sessions, their projections, annotations and
lane edits. A session that has no block in the document at the start is shown, after each of
its projections, by its Final utterances alone.
-/

namespace Zulangue.Transcript

open Zulangue.Lib Zulangue.Lib.Fallible Zulangue.Capture

/-! ## Final lanes -/

/-- The source or a translation is Final. -/
def HasFinalLane (u : RealtimeUtterance) : Prop :=
  u.sourceLaneIsComplete = true ∨ finalizedTranslationVariants u ≠ []

instance (u : RealtimeUtterance) : Decidable (HasFinalLane u) := inferInstanceAs (Decidable (_ ∨ _))

theorem machineBlockWrite_isSome {u : RealtimeUtterance} (hdistinct : LanesDistinct u) :
    (machineBlockWrite u).isSome ↔ HasFinalLane u := by
  have hlanes : (finalizedLanes (finalizedTranslationVariants u)).1.isEmpty = true ↔
      finalizedTranslationVariants u = [] := by
    constructor
    · intro hempty
      rw [List.eq_nil_iff_forall_not_mem]
      intro v hv
      have hget := get_lanes_of_final hdistinct hv
      rw [List.isEmpty_iff.mp hempty] at hget
      have htext := (Bool.and_eq_true_iff.mp (List.mem_filter.mp hv).2).2
      rw [← hget] at htext
      cases htext
    · intro hnone
      rw [hnone]
      rfl
  rw [machineBlockWrite, HasFinalLane]
  cases hsource : u.sourceLaneIsComplete with
  | true => simp
  | false =>
    cases hempty : (finalizedLanes (finalizedTranslationVariants u)).1.isEmpty with
    | true => simp [hlanes.mp hempty]
    | false =>
      have hne : finalizedTranslationVariants u ≠ [] := by
        intro hnone
        rw [hlanes.mpr hnone] at hempty
        cases hempty
      simp [hne]

/-- What a block shows of its utterance. -/
structure ShowsFinals (u : RealtimeUtterance) (b : UtteranceBlock) : Prop where
  id : b.id = u.id
  owner : b.owner = captureOwner u.sessionId
  text : b.text = if u.sourceLaneIsComplete then u.sourceText else ""
  translations : ∀ v ∈ finalizedTranslationVariants u, KeyMap.get (captureLaneId v.language) b.lanes.1 = v.text
  lanes : ∀ lane text, KeyMap.get lane b.lanes.1 = some text →
    ∃ v ∈ finalizedTranslationVariants u, captureLaneId v.language = lane

theorem showsFinals_write {u : RealtimeUtterance} (hdistinct : LanesDistinct u) {write : UtteranceBlock}
    (hwrite : machineBlockWrite u = some write) : ShowsFinals u write := by
  obtain rfl := machineBlockWrite_eq hwrite
  exact ⟨rfl, rfl, rfl, fun v hv => get_lanes_of_final hdistinct hv, fun lane text => exists_final_of_get⟩

theorem sessionBlocks_show {utterances : List RealtimeUtterance} (h : ∀ u ∈ utterances, LanesDistinct u) :
    List.Forall₂ ShowsFinals (utterances.filter (HasFinalLane ·)) (sessionBlocks utterances) := by
  induction utterances with
  | nil => exact .nil
  | cons u rest ih =>
    rw [List.forall_mem_cons] at h
    have ih := ih h.2
    have hfinal := machineBlockWrite_isSome h.1
    rw [sessionBlocks] at ih ⊢
    cases hwrite : machineBlockWrite u with
    | none =>
      rw [hwrite] at hfinal
      have hnot : ¬ HasFinalLane u := fun hyes => Bool.false_ne_true (hfinal.mpr hyes)
      rwa [List.filterMap_cons_none hwrite, List.filter_cons_of_neg (by simpa using hnot)]
    | some write =>
      rw [hwrite] at hfinal
      rw [List.filterMap_cons_some hwrite, List.filter_cons_of_pos (by simpa using hfinal.mp rfl)]
      exact .cons (showsFinals_write h.1 hwrite) ih

/-! ## An edit of a lane -/

def editVariant (o : UtteranceOverride) (v : RealtimeUtteranceVariant) : RealtimeUtteranceVariant :=
  if v.tag = canonicalLanguage o.laneLanguage then { v with text := some o.text, editRevision := o.editRevision }
  else v

@[simp] theorem editVariant_language (o : UtteranceOverride) (v : RealtimeUtteranceVariant) :
    (editVariant o v).language = v.language := by
  rw [editVariant]
  split <;> rfl

@[simp] theorem editVariant_role (o : UtteranceOverride) (v : RealtimeUtteranceVariant) :
    (editVariant o v).role = v.role := by
  rw [editVariant]
  split <;> rfl

theorem editVariant_final {o : UtteranceOverride} {v : RealtimeUtteranceVariant}
    (h : (v.state = .ready && v.text.isSome && v.completion = some .complete) = true) :
    ((editVariant o v).state = .ready && (editVariant o v).text.isSome &&
      (editVariant o v).completion = some .complete) = true := by
  rw [editVariant]
  split
  · simp_all
  · exact h

/-- What the overlay makes of a row. -/
structure Edited (u : RealtimeUtterance) (o : UtteranceOverride) (u' : RealtimeUtterance) : Prop where
  id : u'.id = u.id
  session : u'.sessionId = u.sessionId
  sequence : u'.sequence = u.sequence
  variants : u'.variants = u.variants.map (editVariant o)
  revision : 0 < o.editRevision
  lane : ∃ v ∈ u.variants, v.tag = canonicalLanguage o.laneLanguage ∧ v.role = CaptureStore.roleOf o.lane

theorem applyOverride_edited {u u' : RealtimeUtterance} {o : UtteranceOverride}
    (h : CaptureStore.applyOverride u o = .ok u') : Edited u o u' := by
  rw [CaptureStore.applyOverride] at h
  obtain ⟨⟨⟩, hrevision, h⟩ := bind_eq_ok.mp h
  obtain ⟨⟨⟩, -, h⟩ := bind_eq_ok.mp h
  obtain ⟨v, hfind, h⟩ := bind_eq_ok.mp h
  obtain ⟨⟨⟩, -, h⟩ := bind_eq_ok.mp h
  have hrevision := Nat.pos_of_ne_zero (of_decide_eq_true (ensure_eq_ok.mp hrevision))
  have hfind := orError_eq_ok.mp hfind
  have hv := List.mem_of_find?_eq_some hfind
  have htag : v.tag = canonicalLanguage o.laneLanguage := of_decide_eq_true (List.find?_some hfind :)
  cases hlane : o.lane with
  | source =>
    rw [hlane] at h
    obtain ⟨⟨⟩, hrole, h⟩ := bind_eq_ok.mp h
    have hrole := of_decide_eq_true (Bool.and_eq_true_iff.mp (ensure_eq_ok.mp hrole)).1
    obtain rfl := Except.ok.inj h
    exact ⟨rfl, rfl, rfl, rfl, hrevision, v, hv, htag, by rw [hlane, hrole]; rfl⟩
  | translated =>
    rw [hlane] at h
    obtain ⟨⟨⟩, hrole, h⟩ := bind_eq_ok.mp h
    have hrole := of_decide_eq_true (ensure_eq_ok.mp hrole)
    obtain rfl := Except.ok.inj h
    exact ⟨rfl, rfl, rfl, rfl, hrevision, v, hv, htag, by rw [hlane, hrole]; rfl⟩

theorem captureLaneId_eq_tag (v : RealtimeUtteranceVariant) : captureLaneId v.language = v.tag :=
  normalizeLanguage_eq v.language

theorem LanesDistinct.eq_of_tag {u : RealtimeUtterance} (h : LanesDistinct u) {v w : RealtimeUtteranceVariant}
    (hv : v ∈ u.variants) (hw : w ∈ u.variants) (htag : v.tag = w.tag) : v = w := by
  rw [← captureLaneId_eq_tag, ← captureLaneId_eq_tag] at htag
  exact List.inj_on_of_nodup_map h hv hw htag

namespace Edited

variable {u u' : RealtimeUtterance} {o : UtteranceOverride}

theorem lanesDistinct (h : Edited u o u') (hdistinct : LanesDistinct u) : LanesDistinct u' := by
  rw [LanesDistinct, h.variants, List.map_map]
  have hsame : (fun v : RealtimeUtteranceVariant => captureLaneId v.language) ∘ editVariant o =
      fun v => captureLaneId v.language := by
    funext v
    rw [Function.comp_apply, editVariant_language]
  rw [hsame]
  exact hdistinct

theorem final (h : Edited u o u') {v : RealtimeUtteranceVariant} (hv : v ∈ finalizedTranslationVariants u) :
    editVariant o v ∈ finalizedTranslationVariants u' := by
  obtain ⟨hv, hfinal⟩ := List.mem_filter.mp hv
  rw [finalizedTranslationVariants, h.variants, List.mem_filter, editVariant_role]
  refine ⟨List.mem_map_of_mem hv, ?_⟩
  simp only [Bool.and_eq_true, decide_eq_true_eq] at hfinal ⊢
  obtain ⟨⟨⟨hrole, hstate⟩, hcompletion⟩, htext⟩ := hfinal
  have hedited := editVariant_final (o := o) (v := v) (by simp [hstate, hcompletion, htext])
  simp only [Bool.and_eq_true, decide_eq_true_eq] at hedited
  exact ⟨⟨⟨hrole, hedited.1.1⟩, hedited.2⟩, hedited.1.2⟩

theorem hasFinalLane (h : Edited u o u') (hfinal : HasFinalLane u) : HasFinalLane u' := by
  cases hfinal with
  | inr hne =>
    obtain ⟨v, hv⟩ := List.exists_mem_of_ne_nil _ hne
    exact .inr (List.ne_nil_of_mem (h.final hv))
  | inl hsource =>
    apply Or.inl
    obtain ⟨w, hw, -⟩ := h.lane
    have hnonempty : u.variants.isEmpty = false := by
      rw [List.isEmpty_eq_false_iff]
      exact List.ne_nil_of_mem hw
    have hvariant : u'.sourceVariant = u.sourceVariant.map (editVariant o) := by
      rw [RealtimeUtterance.sourceVariant, h.variants, List.find?_map, RealtimeUtterance.sourceVariant]
      have hsame : (fun v : RealtimeUtteranceVariant => decide (v.role = .source)) ∘ editVariant o =
          fun v => decide (v.role = .source) := by
        funext v
        rw [Function.comp_apply, editVariant_role]
      rw [hsame]
    rw [RealtimeUtterance.sourceLaneIsComplete, hvariant]
    rw [RealtimeUtterance.sourceLaneIsComplete, hnonempty, Bool.and_false, Bool.false_and, Bool.or_false] at hsource
    cases hv : u.sourceVariant with
    | none =>
      rw [hv] at hsource
      cases hsource
    | some v =>
      rw [hv, Option.any_some] at hsource
      rw [Option.map_some, Option.any_some, editVariant_final hsource, Bool.true_or]

theorem mem_variants (h : Edited u o u') {v' : RealtimeUtteranceVariant} (hv' : v' ∈ u'.variants) :
    ∃ v ∈ u.variants, editVariant o v = v' := by
  rw [h.variants] at hv'
  exact List.mem_map.mp hv'

/-- Where the user had taken over Final lanes only, and takes over one more. -/
theorem editsFinal (h : Edited u o u') (hdistinct : LanesDistinct u) (hedits : EditsFinal u)
    (hlane : o.lane = .translated → ∃ v ∈ finalizedTranslationVariants u, v.tag = canonicalLanguage o.laneLanguage) :
    EditsFinal u' := by
  intro v' hv' hrole hrevision
  obtain ⟨v, hv, rfl⟩ := h.mem_variants hv'
  rw [editVariant_role] at hrole
  by_cases htag : v.tag = canonicalLanguage o.laneLanguage
  · obtain ⟨w, hw, hwtag, hwrole⟩ := h.lane
    obtain rfl := hdistinct.eq_of_tag hw hv (hwtag.trans htag.symm)
    have htranslated : o.lane = .translated := by
      cases hlane : o.lane with
      | translated => rfl
      | source =>
        rw [hrole, hlane] at hwrole
        cases hwrole
    obtain ⟨x, hx, hxtag⟩ := hlane htranslated
    obtain rfl := hdistinct.eq_of_tag (List.mem_of_mem_filter hx) hv (hxtag.trans htag.symm)
    exact h.final hx
  · rw [editVariant, if_neg htag] at hrevision
    exact h.final (hedits v hv hrole hrevision)

end Edited

/-! ## Runs of a document -/

structure CaptureDocument where
  blocks : List UtteranceBlock
  facts : String → List RealtimeUtterance

namespace CaptureDocument

def setFacts (d : CaptureDocument) (s : String) (utterances : List RealtimeUtterance) : CaptureDocument :=
  { d with facts := Function.update d.facts s utterances }

variable (d : CaptureDocument) (utterances : List RealtimeUtterance)

@[simp] theorem setFacts_blocks (s : String) : (d.setFacts s utterances).blocks = d.blocks := rfl

@[simp] theorem setFacts_self (s : String) : (d.setFacts s utterances).facts s = utterances :=
  Function.update_self (β := fun _ => List RealtimeUtterance) s utterances d.facts

theorem setFacts_of_ne {s t : String} (h : t ≠ s) : (d.setFacts s utterances).facts t = d.facts t :=
  Function.update_of_ne (β := fun _ => List RealtimeUtterance) h utterances d.facts

end CaptureDocument

inductive DocumentEvent
  | observe (sessionId : String) (utterances : List RealtimeUtterance)
  | project (sessionId : String)
  | annotate (index : Nat) (id text : String)
  | edit (sessionId : String) (o : UtteranceOverride)

/-- What a later snapshot keeps of an utterance: its Final lanes. The edits of its
translations are the same. -/
structure FactsContinue (u v : RealtimeUtterance) : Prop where
  id : v.id = u.id
  final : HasFinalLane v
  lanes : ∀ x ∈ finalizedTranslationVariants u, ∃ y ∈ finalizedTranslationVariants v,
    captureLaneId y.language = captureLaneId x.language
  edits : ∀ y ∈ v.variants, y.role = .translation → 0 < y.editRevision →
    ∃ x ∈ u.variants, x.role = .translation ∧ 0 < x.editRevision ∧
      captureLaneId x.language = captureLaneId y.language ∧ x.text = y.text

/-- A growing snapshot. -/
def Grows (before after : List RealtimeUtterance) : Prop :=
  ∀ u ∈ before, HasFinalLane u → ∃ v ∈ after, FactsContinue u v

/-- The row of the edited utterance replaced. -/
def editFacts (o : UtteranceOverride) (edited : RealtimeUtterance) (utterances : List RealtimeUtterance) :
    List RealtimeUtterance :=
  utterances.map fun v => if v.id = o.utteranceId then edited else v

/-- The verb that writes an edit into the document. -/
def editVerb (o : UtteranceOverride) : Verb :=
  match o.lane with
  | .source => .userText o.utteranceId o.text
  | .translated => .userLane o.utteranceId (captureLaneId o.laneLanguage) o.text

section
variable (sessionOf : String → Option String) (sequenceOf : String → Nat)

/-- A session may be projected where it has no block in the document at the start. An edit
writes the document and the facts under one guard, and only where the lane is shown. -/
inductive DocumentStep (start : List UtteranceBlock) : CaptureDocument → DocumentEvent → CaptureDocument → Prop
  | observe {d : CaptureDocument} {s : String} {utterances : List RealtimeUtterance}
      (hsnapshot : SnapshotOk sessionOf sequenceOf s utterances) (hgrows : Grows (d.facts s) utterances) :
      DocumentStep start d (.observe s utterances) (d.setFacts s utterances)
  | project {d : CaptureDocument} {s : String} (hfree : ∀ b ∈ start, b.owner ≠ captureOwner s) :
      DocumentStep start d (.project s)
        { d with blocks := (upsertFinalizedUtterances d.blocks s (d.facts s)).2 }
  | annotate {d : CaptureDocument} {index : Nat} {id text : String} {next : List UtteranceBlock}
      (hreserved : sessionOf id = none) (hfresh : ∀ b ∈ d.blocks, b.id ≠ id)
      (hstep : Model.step d.blocks (.annotate index id text) = .ok next) :
      DocumentStep start d (.annotate index id text) { d with blocks := next }
  | edit {d : CaptureDocument} {s : String} {o : UtteranceOverride} {u u' : RealtimeUtterance}
      {next : List UtteranceBlock} (hu : u ∈ d.facts s) (hid : u.id = o.utteranceId)
      (hshown : o.lane = .translated → ∃ b ∈ d.blocks, b.id = o.utteranceId ∧
        (KeyMap.get (captureLaneId o.laneLanguage) b.lanes.1).isSome)
      (happly : CaptureStore.applyOverride u o = .ok u')
      (hstep : Model.step d.blocks (editVerb o) = .ok next) :
      DocumentStep start d (.edit s o)
        ({ d with blocks := next }.setFacts s (editFacts o u' (d.facts s)))

structure DocumentOk (start : List UtteranceBlock) (d : CaptureDocument) : Prop where
  blocks : BlocksOk sessionOf sequenceOf (fun s => ∀ b ∈ start, b.owner ≠ captureOwner s) d.facts d.blocks
  snapshots : ∀ s, SnapshotOk sessionOf sequenceOf s (d.facts s)

end

section
variable {sessionOf : String → Option String} {sequenceOf : String → Nat} {start : List UtteranceBlock}
variable {d d' : CaptureDocument} {s : String}

theorem documentOk_start (hids : (start.map (·.id)).Nodup) (hstart : ∀ b ∈ start, sessionOf b.id = none) :
    DocumentOk sessionOf sequenceOf start ⟨start, fun _ => []⟩ := by
  constructor
  · constructor
    · exact hids
    · intro b hb s hsession
      rw [hstart b hb] at hsession
      cases hsession
    · intro b hb s hsession
      rw [hstart b hb] at hsession
      cases hsession
    · intro b hb s hfree howner
      exact absurd howner (hfree b hb)
    · intro s hfree
      have hnone : start.filter (·.owner = captureOwner s) = [] := by
        rw [List.filter_eq_nil_iff]
        intro b hb
        simpa using hfree b hb
      rw [hnone]
      exact .nil
  · intro s
    constructor
    · exact fun u hu => absurd hu List.not_mem_nil
    · exact fun u hu => absurd hu List.not_mem_nil
    · exact .nil
    · exact fun u hu => absurd hu List.not_mem_nil
    · exact fun u hu => absurd hu List.not_mem_nil

theorem Covers.continue {u v : RealtimeUtterance} {b : UtteranceBlock} (h : Covers u b) (hdistinct : LanesDistinct v)
    (hcontinue : FactsContinue u v) : Covers v b := by
  constructor
  · exact (machineBlockWrite_isSome hdistinct).mpr hcontinue.final
  · intro lane text hget
    obtain ⟨x, hx, rfl⟩ := h.lanes lane text hget
    exact hcontinue.lanes x hx
  · intro y hy hrole hrevision
    obtain ⟨x, hx, hxrole, hxrevision, hlane, htext⟩ := hcontinue.edits y hy hrole hrevision
    rw [← hlane, ← htext]
    exact h.edited x hx hxrole hxrevision

theorem DocumentOk.observe (h : DocumentOk sessionOf sequenceOf start d) {utterances : List RealtimeUtterance}
    (hsnapshot : SnapshotOk sessionOf sequenceOf s utterances) (hgrows : Grows (d.facts s) utterances) :
    DocumentOk sessionOf sequenceOf start (d.setFacts s utterances) := by
  constructor
  · constructor
    · exact h.blocks.ids
    · exact h.blocks.owned
    · intro b hb t hsession
      obtain ⟨u, hu, hid, hcovers⟩ := h.blocks.covered b hb t hsession
      by_cases ht : t = s
      · subst ht
        have hfinal := (machineBlockWrite_isSome ((h.snapshots t).lanes u hu)).mp hcovers.projectable
        obtain ⟨v, hv, hcontinue⟩ := hgrows u hu hfinal
        rw [CaptureDocument.setFacts_self]
        exact ⟨v, hv, hcontinue.id.trans hid, hcovers.continue (hsnapshot.lanes v hv) hcontinue⟩
      · rw [CaptureDocument.setFacts_of_ne _ _ ht]
        exact ⟨u, hu, hid, hcovers⟩
    · exact h.blocks.captured
    · exact h.blocks.ordered
  · intro t
    by_cases ht : t = s
    · subst ht
      rw [CaptureDocument.setFacts_self]
      exact hsnapshot
    · rw [CaptureDocument.setFacts_of_ne _ _ ht]
      exact h.snapshots t

theorem DocumentOk.project (h : DocumentOk sessionOf sequenceOf start d)
    (hfree : ∀ b ∈ start, b.owner ≠ captureOwner s) :
    DocumentOk sessionOf sequenceOf start
      { d with blocks := (upsertFinalizedUtterances d.blocks s (d.facts s)).2 } :=
  ⟨(upsertUtterances_keeps h.blocks hfree (h.snapshots s) (List.Sublist.refl _)).1, h.snapshots⟩

theorem DocumentOk.annotate (h : DocumentOk sessionOf sequenceOf start d) {index : Nat} {id text : String}
    {next : List UtteranceBlock} (hreserved : sessionOf id = none) (hfresh : ∀ b ∈ d.blocks, b.id ≠ id)
    (hstep : Model.step d.blocks (.annotate index id text) = .ok next) :
    DocumentOk sessionOf sequenceOf start { d with blocks := next } := by
  rw [Model.step] at hstep
  split at hstep
  · cases hstep
  · obtain rfl := Except.ok.inj hstep
    refine ⟨h.blocks.insert (List.take_append_drop index d.blocks).symm hfresh ?_ ?_, h.snapshots⟩
    · intro t hsession
      have hsession : sessionOf id = some t := hsession
      rw [hreserved] at hsession
      cases hsession
    · intro t _ howner
      exact absurd howner.symm (captureOwner_ne_userOwner t)

/-- The field of the block that an edit writes. -/
def editField (o : UtteranceOverride) : Field :=
  match o.lane with
  | .source => .text
  | .translated => .lane (captureLaneId o.laneLanguage)

theorem editVerb_step {blocks next : List UtteranceBlock} {o : UtteranceOverride}
    (hstep : Model.step blocks (editVerb o) = .ok next) :
    next = blocks.map fun b => if b.id = o.utteranceId then b.set (editField o) o.text else b := by
  have hedit : Model.editBlock o.utteranceId (·.set (editField o) o.text) blocks = .ok next := by
    rw [editVerb] at hstep
    rw [editField]
    cases hlane : o.lane with
    | source =>
      rw [hlane] at hstep
      exact hstep
    | translated =>
      rw [hlane, Model.step] at hstep
      split at hstep
      · cases hstep
      · exact hstep
  rw [Model.editBlock] at hedit
  split at hedit
  · exact (Except.ok.inj hedit).symm
  · cases hedit

/-- The block of an edited utterance shows the edit. -/
theorem Covers.edit {u u' : RealtimeUtterance} {b : UtteranceBlock} {o : UtteranceOverride} (h : Covers u b)
    (hdistinct : LanesDistinct u) (hedited : Edited u o u')
    (hlane : o.lane = .translated → ∃ v ∈ finalizedTranslationVariants u, v.tag = canonicalLanguage o.laneLanguage) :
    Covers u' (b.set (editField o) o.text) := by
  have hprojectable := (machineBlockWrite_isSome hdistinct).mp h.projectable
  have hshown : ∀ lane text, KeyMap.get lane b.lanes.1 = some text →
      ∃ v ∈ finalizedTranslationVariants u', captureLaneId v.language = lane := by
    intro lane text hget
    obtain ⟨v, hv, hvlane⟩ := h.lanes lane text hget
    exact ⟨editVariant o v, hedited.final hv, by rw [editVariant_language, hvlane]⟩
  have hkept : ∀ v ∈ u.variants, v.tag ≠ canonicalLanguage o.laneLanguage → v.role = .translation →
      0 < (editVariant o v).editRevision →
        KeyMap.get (captureLaneId v.language) b.lanes.1 = (editVariant o v).text := by
    intro v hv htag hrole hrevision
    rw [editVariant, if_neg htag] at hrevision ⊢
    exact h.edited v hv hrole hrevision
  refine ⟨(machineBlockWrite_isSome (hedited.lanesDistinct hdistinct)).mpr (hedited.hasFinalLane hprojectable), ?_, ?_⟩
  · intro lane text hget
    cases hkind : o.lane with
    | source =>
      rw [editField, hkind] at hget
      exact hshown lane text hget
    | translated =>
      rw [editField, hkind] at hget
      by_cases hsame : lane = captureLaneId o.laneLanguage
      · obtain ⟨v, hv, htag⟩ := hlane hkind
        refine ⟨editVariant o v, hedited.final hv, ?_⟩
        rw [editVariant_language, captureLaneId_eq_tag, htag, hsame]
        exact (normalizeLanguage_eq _).symm
      · refine hshown lane text ?_
        rwa [UtteranceBlock.set, BTreeMap.insert, KeyMap.get_insert_of_ne hsame] at hget
  · intro v' hv' hrole hrevision
    obtain ⟨v, hv, rfl⟩ := hedited.mem_variants hv'
    rw [editVariant_role] at hrole
    rw [editVariant_language]
    obtain ⟨w, hw, hwtag, hwrole⟩ := hedited.lane
    cases hkind : o.lane with
    | source =>
      rw [editField, hkind]
      refine hkept v hv ?_ hrole hrevision
      intro htag
      obtain rfl := hdistinct.eq_of_tag hw hv (hwtag.trans htag.symm)
      rw [hrole, hkind] at hwrole
      cases hwrole
    | translated =>
      rw [editField, hkind, UtteranceBlock.set, BTreeMap.insert]
      by_cases htag : v.tag = canonicalLanguage o.laneLanguage
      · rw [captureLaneId_eq_tag, htag, captureLaneId, normalizeLanguage_eq, KeyMap.get_insert_self, editVariant,
          if_pos htag]
      · have hne : captureLaneId v.language ≠ captureLaneId o.laneLanguage := by
          rw [captureLaneId_eq_tag, captureLaneId, normalizeLanguage_eq]
          exact htag
        rw [KeyMap.get_insert_of_ne hne]
        exact hkept v hv htag hrole hrevision

theorem SnapshotOk.edit {utterances : List RealtimeUtterance} (h : SnapshotOk sessionOf sequenceOf s utterances)
    {u u' : RealtimeUtterance} {o : UtteranceOverride} (hu : u ∈ utterances) (hid : u.id = o.utteranceId)
    (hedited : Edited u o u')
    (hlane : o.lane = .translated → ∃ v ∈ finalizedTranslationVariants u, v.tag = canonicalLanguage o.laneLanguage) :
    SnapshotOk sessionOf sequenceOf s (editFacts o u' utterances) := by
  -- Each row is the edited one or as it was.
  have hrows : ∀ {P : RealtimeUtterance → Prop}, P u' → (∀ v ∈ utterances, P v) →
      ∀ v' ∈ editFacts o u' utterances, P v' := by
    intro P hu' hall v' hv'
    obtain ⟨v, hv, rfl⟩ := List.mem_map.mp hv'
    by_cases hvid : v.id = o.utteranceId
    · rwa [if_pos hvid]
    · rw [if_neg hvid]
      exact hall v hv
  have hsequence : ∀ v ∈ utterances, (if v.id = o.utteranceId then u' else v).sequence = v.sequence := by
    intro v hv
    by_cases hvid : v.id = o.utteranceId
    · obtain rfl := h.eq_of_id hu hv (hid.trans hvid.symm)
      rw [if_pos hvid, hedited.sequence]
    · rw [if_neg hvid]
  constructor
  · exact hrows (hedited.session.trans (h.session u hu)) h.session
  · refine hrows ?_ h.fixed
    rw [hedited.id, hedited.sequence]
    exact h.fixed u hu
  · rw [editFacts, List.pairwise_map]
    refine List.Pairwise.imp_of_mem ?_ h.ordered
    intro v w hv hw hlt
    rwa [hsequence v hv, hsequence w hw]
  · exact hrows (hedited.lanesDistinct (h.lanes u hu)) h.lanes
  · exact hrows (hedited.editsFinal (h.lanes u hu) (h.edits u hu) hlane) h.edits

theorem DocumentOk.edit (h : DocumentOk sessionOf sequenceOf start d) {o : UtteranceOverride}
    {u u' : RealtimeUtterance} {next : List UtteranceBlock} (hu : u ∈ d.facts s) (hid : u.id = o.utteranceId)
    (hshown : o.lane = .translated → ∃ b ∈ d.blocks, b.id = o.utteranceId ∧
      (KeyMap.get (captureLaneId o.laneLanguage) b.lanes.1).isSome)
    (happly : CaptureStore.applyOverride u o = .ok u') (hstep : Model.step d.blocks (editVerb o) = .ok next) :
    DocumentOk sessionOf sequenceOf start
      ({ d with blocks := next }.setFacts s (editFacts o u' (d.facts s))) := by
  have hs := h.snapshots s
  have hedited := applyOverride_edited happly
  have hsession : sessionOf o.utteranceId = some s := hid ▸ (hs.fixed u hu).1
  have hlane : o.lane = .translated →
      ∃ v ∈ finalizedTranslationVariants u, v.tag = canonicalLanguage o.laneLanguage := by
    intro htranslated
    obtain ⟨b, hb, hbid, hget⟩ := hshown htranslated
    obtain ⟨text, hget⟩ := Option.isSome_iff_exists.mp hget
    obtain ⟨v, hv, hvid, hcovers⟩ := h.blocks.covered b hb s (hbid ▸ hsession)
    obtain rfl := hs.eq_of_id hv hu ((hvid.trans hbid).trans hid.symm)
    obtain ⟨w, hw, hwlane⟩ := hcovers.lanes _ text hget
    refine ⟨w, hw, ?_⟩
    rw [← captureLaneId_eq_tag, hwlane]
    exact normalizeLanguage_eq _
  have hsnapshot := hs.edit hu hid hedited hlane
  constructor
  · obtain rfl := editVerb_step hstep
    refine h.blocks.map ?_ ?_ ?_
    · intro b _
      split
      · exact UtteranceBlock.set_id _ _ _
      · rfl
    · intro b _
      split
      · rw [editField]
        cases o.lane <;> rfl
      · rfl
    · intro b hb t ht
      obtain ⟨v, hv, hvid, hcovers⟩ := h.blocks.covered b hb t ht
      by_cases hbid : b.id = o.utteranceId
      · obtain rfl := Option.some.inj (hsession.symm.trans (hbid ▸ ht))
        obtain rfl := hs.eq_of_id hv hu ((hvid.trans hbid).trans hid.symm)
        rw [if_pos hbid, CaptureDocument.setFacts_self]
        refine ⟨u', List.mem_map.mpr ⟨v, hv, if_pos hid⟩, hedited.id.trans hvid, ?_⟩
        exact hcovers.edit (hs.lanes v hv) hedited hlane
      · rw [if_neg hbid]
        by_cases hts : t = s
        · subst hts
          rw [CaptureDocument.setFacts_self]
          exact ⟨v, List.mem_map.mpr ⟨v, hv, if_neg fun heq => hbid (hvid.symm.trans heq)⟩, hvid, hcovers⟩
        · rw [CaptureDocument.setFacts_of_ne _ _ hts]
          exact ⟨v, hv, hvid, hcovers⟩
  · intro t
    by_cases hts : t = s
    · subst hts
      rw [CaptureDocument.setFacts_self]
      exact hsnapshot
    · rw [CaptureDocument.setFacts_of_ne _ _ hts]
      exact h.snapshots t

theorem documentOk_step {e : DocumentEvent} (h : DocumentOk sessionOf sequenceOf start d)
    (hstep : DocumentStep sessionOf sequenceOf start d e d') : DocumentOk sessionOf sequenceOf start d' := by
  cases hstep with
  | observe hsnapshot hgrows => exact h.observe hsnapshot hgrows
  | project hfree => exact h.project hfree
  | annotate hreserved hfresh hstep => exact h.annotate hreserved hfresh hstep
  | edit hu hid hshown happly hstep => exact h.edit hu hid hshown happly hstep

theorem documentOk_run {events : List DocumentEvent} (h : DocumentOk sessionOf sequenceOf start d)
    (hrun : Run (DocumentStep sessionOf sequenceOf start) d events d') : DocumentOk sessionOf sequenceOf start d' :=
  hrun.invariant (I := DocumentOk sessionOf sequenceOf start) (fun _ _ _ => documentOk_step) h

/-- A Final source and nothing else. -/
def finalSource (id : String) (sequence : Nat) : RealtimeUtterance :=
  { id, sessionId := "a", sequence, sessionSpeakerId := none, sourceLanguage := "en", sourceText := id
    sourceStartMs := none, sourceEndMs := none, translatedLanguage := none, translatedText := none, revision := 1
    completion := .complete, alignment := .sourceOnly, sourceProjectionRevision := 1, sourceEditRevision := 0
    variants :=
      [{ language := "en", role := .source, text := some id, state := .ready, completion := some .complete
         revision := 1, projectionRevision := 1, editRevision := 0 }] }

def finalSourceSession (id : String) : Option String := if id = "u" ∨ id = "v" then some "a" else none

def finalSourceSequence (id : String) : Nat := if id = "u" then 0 else 1

theorem finalSource_snapshot : SnapshotOk finalSourceSession finalSourceSequence "a" [finalSource "v" 1] ∧
    SnapshotOk finalSourceSession finalSourceSequence "a" [finalSource "u" 0, finalSource "v" 1] := by
  constructor <;> constructor <;>
    simp [finalSource, finalSourceSession, finalSourceSequence, LanesDistinct, EditsFinal]

end

end Zulangue.Transcript
