import Zulangue.Shared.Order

/-!
# A refresh yields to people and otherwise converges

Runs of the shared document of one session in a host process: refreshes over growing facts,
edits of lanes and source texts by the host and by others, and annotations. Beside the state
stands who wrote each text last. When a refresh leaves people's texts alone, shows the facts in
every other text and has nothing to do the next time.
-/

namespace Zulangue.Shared

open Zulangue.Lib Zulangue.Capture Zulangue.Transcript

def textAt (blocks : List UtteranceBlock) (id : String) (field : Field) : Option String :=
  (lookup blocks id).bind (·.get field)

/-- The document, the facts of the last refresh, and the texts that a person wrote last. -/
structure SharedState where
  shared : SharedSession
  facts : List RealtimeUtterance
  person : String → Field → Bool

namespace SharedState

/-- A host process has loaded a document: the shadow is empty. -/
def opened (blocks : List UtteranceBlock) (facts : List RealtimeUtterance) (person : String → Field → Bool) :
    SharedState := ⟨⟨blocks, fun _ _ => none⟩, facts, person⟩

/-- A refresh is the last writer of what it changes. -/
def refreshed (st : SharedState) (s : String) (utterances : List RealtimeUtterance) : SharedState :=
  let after := (refreshFromFacts s utterances st.shared).2
  ⟨after, utterances,
    fun id field => st.person id field && decide (textAt after.blocks id field = textAt st.shared.blocks id field)⟩

def edited (st : SharedState) (id : String) (field : Field) (next : List UtteranceBlock) : SharedState :=
  ⟨⟨next, st.shared.shadow⟩, st.facts, fun other g => st.person other g || decide (other = id ∧ g = field)⟩

def annotated (st : SharedState) (next : List UtteranceBlock) : SharedState :=
  { st with shared := ⟨next, st.shared.shadow⟩ }

end SharedState

/-- The verb of a lane edit; without a lane it is the source text. -/
def laneEdit (id : String) (lane : Option String) (text : String) : Verb :=
  match lane with
  | some lane => .userLane id lane text
  | none => .userText id text

def editedField (lane : Option String) : Field :=
  match lane with
  | some lane => .lane lane
  | none => .text

/-- What a later snapshot keeps of an utterance: its Final lanes. -/
structure FactKept (u v : RealtimeUtterance) : Prop where
  id : v.id = u.id
  final : HasFinalLane v
  lanes : ∀ x ∈ finalizedTranslationVariants u, ∃ y ∈ finalizedTranslationVariants v,
    captureLaneId y.language = captureLaneId x.language

def FactsGrow (before after : List RealtimeUtterance) : Prop :=
  ∀ u ∈ before, HasFinalLane u → ∃ v ∈ after, FactKept u v

inductive SharedEvent
  | refresh (utterances : List RealtimeUtterance)
  | edit (id : String) (lane : Option String) (text : String)
  | annotate (index : Nat) (id text : String)

section
variable (sessionOf : String → Option String) (sequenceOf : String → Nat) (s : String)

/-- An edit is the host's own or comes from another admitted person; an annotation has an id
of its own. -/
inductive SharedStep : SharedState → SharedEvent → SharedState → Prop
  | refresh {st : SharedState} {utterances : List RealtimeUtterance}
      (hsnapshot : SnapshotOk sessionOf sequenceOf s utterances) (hgrow : FactsGrow st.facts utterances) :
      SharedStep st (.refresh utterances) (st.refreshed s utterances)
  | edit {st : SharedState} {id : String} {lane : Option String} {text : String} {next : List UtteranceBlock}
      (hstep : Model.step st.shared.blocks (laneEdit id lane text) = .ok next) :
      SharedStep st (.edit id lane text) (st.edited id (editedField lane) next)
  | annotate {st : SharedState} {index : Nat} {id text : String} {next : List UtteranceBlock}
      (hreserved : sessionOf id = none) (hfresh : ∀ b ∈ st.shared.blocks, b.id ≠ id)
      (hstep : Model.step st.shared.blocks (.annotate index id text) = .ok next) :
      SharedStep st (.annotate index id text) (st.annotated next)

/-- A document of the session, as every run leaves it. -/
structure SharedOk (facts : List RealtimeUtterance) (person : String → Field → Bool)
    (blocks : List UtteranceBlock) : Prop where
  placed : Placed sessionOf sequenceOf s facts blocks
  lanes : ∀ b ∈ blocks, b.owner = captureOwner s → ∀ lane, (b.get (.lane lane)).isSome →
    person b.id (.lane lane) = true ∨
      ∃ u ∈ facts, u.id = b.id ∧ ∃ v ∈ finalizedTranslationVariants u, captureLaneId v.language = lane
  persons : ∀ id field, person id field = true → field ≠ .owner ∧ (textAt blocks id field).isSome

end

/-! ## What is asked of a refresh -/

/-- The texts that a person wrote last stay. -/
def YieldsTo (person : String → Field → Bool) (blocks after : List UtteranceBlock) : Prop :=
  ∀ id field, person id field = true → textAt after id field = textAt blocks id field

/-- A block shows the facts of its utterance wherever the last writer is not a person. -/
structure ShowsFacts (person : String → Field → Bool) (u : RealtimeUtterance) (b : UtteranceBlock) : Prop where
  id : b.id = u.id
  owner : b.owner = captureOwner u.sessionId
  text : person u.id .text = true ∨ b.text = if u.sourceLaneIsComplete then u.sourceText else ""
  translations : ∀ v ∈ finalizedTranslationVariants u,
    person u.id (.lane (captureLaneId v.language)) = true ∨ b.get (.lane (captureLaneId v.language)) = v.text
  lanes : ∀ lane, (b.get (.lane lane)).isSome → person u.id (.lane lane) = true ∨
    ∃ v ∈ finalizedTranslationVariants u, captureLaneId v.language = lane

def ConvergesTo (person : String → Field → Bool) (utterances : List RealtimeUtterance)
    (after : List UtteranceBlock) : Prop :=
  ∀ u ∈ utterances, HasFinalLane u → ∃ b ∈ after, ShowsFacts person u b

/-- The same facts again change nothing and are reported as no change. -/
def Repeats (s : String) (utterances : List RealtimeUtterance) (after : SharedSession) : Prop :=
  (refreshFromFacts s utterances after).1 = .ok false ∧
    (refreshFromFacts s utterances after).2.blocks = after.blocks

/-- In every block that a refresh looks at, the shadow tells people and machine apart. -/
def ShadowTells (st : SharedState) (utterances : List RealtimeUtterance) : Prop :=
  ∀ u ∈ utterances, ∀ write, machineBlockWrite u = some write →
    ∀ current ∈ st.shared.blocks, current.id = u.id →
      TellsApart (st.person u.id) st.shared.shadow current write

/-! ## Steps -/

section
variable {sessionOf : String → Option String} {sequenceOf : String → Nat} {s : String}
variable {facts utterances : List RealtimeUtterance} {blocks next : List UtteranceBlock}
variable {person : String → Field → Bool} {st st' : SharedState}

theorem SnapshotOk.ids (hs : SnapshotOk sessionOf sequenceOf s facts) : (facts.map (·.id)).Nodup := by
  rw [List.Nodup, List.pairwise_map]
  apply (List.Pairwise.and_mem.mp hs.ordered).imp
  intro u v hall heq
  obtain ⟨hu, hv, hlt⟩ := hall
  rw [hs.eq_of_id hu hv heq] at hlt
  omega

theorem Placed.grow (h : Placed sessionOf sequenceOf s facts blocks) (hgrow : FactsGrow facts utterances) :
    Placed sessionOf sequenceOf s utterances blocks := by
  refine ⟨h.ids, fun b hb => ?_, h.ordered⟩
  cases h.owned b hb with
  | inr huser => exact .inr huser
  | inl hcapture =>
    obtain ⟨howner, u, hu, hid, hfinal⟩ := hcapture
    obtain ⟨v, hv, hkept⟩ := hgrow u hu hfinal
    exact .inl ⟨howner, v, hv, hkept.id.trans hid, hkept.final⟩

/-- The lane of a block that is not a person's is still Final in later facts. -/
theorem SharedOk.lane_kept (h : SharedOk sessionOf sequenceOf s facts person blocks)
    (hgrow : FactsGrow facts utterances) {b : UtteranceBlock} (hb : b ∈ blocks) (howner : b.owner = captureOwner s)
    {lane : String} (hlane : (b.get (.lane lane)).isSome) : person b.id (.lane lane) = true ∨
      ∃ u ∈ utterances, u.id = b.id ∧ ∃ v ∈ finalizedTranslationVariants u, captureLaneId v.language = lane := by
  cases h.lanes b hb howner lane hlane with
  | inl hp => exact .inl hp
  | inr hfact =>
    obtain ⟨u, hu, hid, v, hv, hvlane⟩ := hfact
    obtain ⟨u', hu', hkept⟩ := hgrow u hu (.inr (List.ne_nil_of_mem hv))
    obtain ⟨v', hv', hlane'⟩ := hkept.lanes v hv
    exact .inr ⟨u', hu', hkept.id.trans hid, v', hv', hlane'.trans hvlane⟩

theorem textAt_of_lookup {id : String} {b : UtteranceBlock} (h : lookup blocks id = some b) (field : Field) :
    textAt blocks id field = b.get field := by
  rw [textAt, h, Option.bind_some]

theorem textAt_of_none {id : String} (h : lookup blocks id = none) (field : Field) :
    textAt blocks id field = none := by
  rw [textAt, h, Option.bind_none]

theorem write_lane {u : RealtimeUtterance} {write : MachineBlockWrite} (hwrite : machineBlockWrite u = some write)
    {lane text : String} (h : write.get (.lane lane) = some text) :
    ∃ v ∈ finalizedTranslationVariants u, captureLaneId v.language = lane := by
  rw [machineBlockWrite_eq hwrite] at h
  exact exists_final_of_get h

/-- A block with the id of an utterance is the session's. -/
theorem Placed.owner_of_fact (h : Placed sessionOf sequenceOf s facts blocks)
    (hs : SnapshotOk sessionOf sequenceOf s utterances) {u : RealtimeUtterance} (hu : u ∈ utterances)
    {b : UtteranceBlock} (hb : b ∈ blocks) (hid : b.id = u.id) : b.owner = captureOwner s := by
  cases h.owned b hb with
  | inl hcapture => exact hcapture.1
  | inr huser =>
    have hnone := huser.2
    rw [hid, (hs.fixed u hu).1] at hnone
    cases hnone

/-! ## A refresh -/

/-- What a refresh does to the block of an id, also where it stops early. -/
theorem refresh_at (hs : SnapshotOk sessionOf sequenceOf s utterances) (shared : SharedSession) (id : String) :
    lookup (refreshFromFacts s utterances shared).2.blocks id = lookup shared.blocks id ∨
      ∃ u ∈ utterances, ∃ write, machineBlockWrite u = some write ∧ write.id = id ∧
        Outcome shared (refreshFromFacts s utterances shared).2 write := by
  obtain ⟨hagree, houtcome⟩ := @refreshUtterances_outcome shared.blocks s (sequenceById utterances) utterances
    (SnapshotOk.ids hs) false shared
  by_cases hwritten : ∃ u ∈ utterances, u.id = id ∧ (machineBlockWrite u).isSome
  · obtain ⟨u, hu, hid, hsome⟩ := hwritten
    obtain ⟨write, hwrite⟩ := Option.isSome_iff_exists.mp hsome
    have hwid := (write_id hwrite).trans hid
    cases houtcome u hu write hwrite with
    | inl hdone => exact .inr ⟨u, hu, write, hwrite, hwid, hdone⟩
    | inr hstopped => exact .inl (hwid ▸ hstopped.2)
  · refine .inl (hagree id fun u hu hid => ?_).1.symm
    cases hwrite : machineBlockWrite u with
    | none => rfl
    | some write => exact absurd ⟨u, hu, hid, by rw [hwrite]; rfl⟩ hwritten

theorem refresh_done (hs : SnapshotOk sessionOf sequenceOf s utterances) {shared : SharedSession} {changed : Bool}
    (hdone : (refreshFromFacts s utterances shared).1 = .ok changed) {u : RealtimeUtterance} (hu : u ∈ utterances)
    {write : MachineBlockWrite} (hwrite : machineBlockWrite u = some write) :
    Outcome shared (refreshFromFacts s utterances shared).2 write := by
  obtain ⟨-, houtcome⟩ := @refreshUtterances_outcome shared.blocks s (sequenceById utterances) utterances
    (SnapshotOk.ids hs) false shared
  cases houtcome u hu write hwrite with
  | inl h => exact h
  | inr hstopped =>
    obtain ⟨error, herror⟩ := hstopped.1
    rw [refreshFromFacts, herror] at hdone
    cases hdone

/-- A refresh takes no text away. -/
theorem refresh_keeps_texts (hs : SnapshotOk sessionOf sequenceOf s utterances) (shared : SharedSession)
    {id : String} {field : Field} (hfield : field ≠ .owner) (h : (textAt shared.blocks id field).isSome) :
    (textAt (refreshFromFacts s utterances shared).2.blocks id field).isSome := by
  cases refresh_at hs shared id with
  | inl hsame => rwa [textAt, hsame]
  | inr hwritten =>
    obtain ⟨u, hu, write, hwrite, rfl, houtcome⟩ := hwritten
    cases houtcome with
    | created hcurrent =>
      rw [textAt_of_none hcurrent] at h
      cases h
    | refreshed current r hcurrent hafter hget hagain =>
      rw [textAt_of_lookup hcurrent] at h
      rw [textAt_of_lookup hafter, hget field hfield]
      split
      · exact h
      · cases write.get field with
        | none => exact h
        | some incoming => rfl

theorem SharedOk.refreshed (h : SharedOk sessionOf sequenceOf s st.facts st.person st.shared.blocks)
    (hs : SnapshotOk sessionOf sequenceOf s utterances) (hgrow : FactsGrow st.facts utterances) :
    SharedOk sessionOf sequenceOf s utterances (st.refreshed s utterances).person
      (st.refreshed s utterances).shared.blocks := by
  have hplaced := (refreshFromFacts_placed (h.placed.grow hgrow) hs).1
  have hperson : ∀ {id : String} {field : Field}, st.person id field = true →
      textAt (refreshFromFacts s utterances st.shared).2.blocks id field = textAt st.shared.blocks id field →
      (st.refreshed s utterances).person id field = true := by
    intro id field hp hsame
    rw [SharedState.refreshed, Bool.and_eq_true]
    exact ⟨hp, decide_eq_true hsame⟩
  refine ⟨hplaced, ?_, ?_⟩
  · intro b hb howner lane hlane
    have hafter := lookup_of_mem hplaced.ids hb
    cases refresh_at hs st.shared b.id with
    | inl hsame =>
      cases h.lane_kept hgrow (mem_of_lookup (hsame.symm.trans hafter)) howner hlane with
      | inr hfact => exact .inr hfact
      | inl hp => exact .inl (hperson hp (by rw [textAt, hsame, textAt]))
    | inr hwritten =>
      obtain ⟨u, hu, write, hwrite, hid, houtcome⟩ := hwritten
      have huid : u.id = b.id := (write_id hwrite).symm.trans hid
      have hwritten : ∀ {text : String}, write.get (.lane lane) = some text →
          ∃ u ∈ utterances, u.id = b.id ∧ ∃ v ∈ finalizedTranslationVariants u, captureLaneId v.language = lane :=
        fun hget => ⟨u, hu, huid, write_lane hwrite hget⟩
      rw [← hid] at hafter
      cases houtcome with
      | created hcurrent hcreated hagain =>
        obtain rfl := Option.some.inj (hcreated.symm.trans hafter)
        obtain ⟨text, htext⟩ := Option.isSome_iff_exists.mp hlane
        exact .inr (hwritten htext)
      | refreshed current r hcurrent hr hget hagain =>
        obtain rfl := Option.some.inj (hr.symm.trans hafter)
        have hcid : current.id = r.id := (lookup_id hcurrent).trans hid
        cases hnew : write.get (.lane lane) with
        | some text => exact .inr (hwritten hnew)
        | none =>
          have hsame := hget (.lane lane) (by simp)
          rw [hnew, Option.none_or, ite_self] at hsame
          have hcowner := h.placed.owner_of_fact hs hu (mem_of_lookup hcurrent) (hcid.trans huid.symm)
          rw [hsame] at hlane
          have hkept := h.lane_kept hgrow (mem_of_lookup hcurrent) hcowner hlane
          rw [hcid] at hkept
          cases hkept with
          | inr hfact => exact .inr hfact
          | inl hp =>
            refine .inl (hperson hp ?_)
            rw [← hid, textAt_of_lookup hr, textAt_of_lookup hcurrent, hsame]
  · intro id field hp
    have hp' : st.person id field = true := (Bool.and_eq_true_iff.mp hp).1
    obtain ⟨hfield, hsome⟩ := h.persons id field hp'
    exact ⟨hfield, refresh_keeps_texts hs st.shared hfield hsome⟩

/-! ## Edits and annotations -/

theorem laneEdit_step {id : String} {lane : Option String} {text : String}
    (hstep : Model.step blocks (laneEdit id lane text) = .ok next) :
    (∃ b ∈ blocks, b.id = id) ∧
      next = blocks.map fun b => if b.id = id then b.set (editedField lane) text else b := by
  have hedit : Model.editBlock id (·.set (editedField lane) text) blocks = .ok next := by
    cases lane with
    | none => exact hstep
    | some lane =>
      rw [laneEdit, Model.step] at hstep
      split at hstep
      · cases hstep
      · exact hstep
  rw [Model.editBlock] at hedit
  split at hedit
  · next hexists => exact ⟨hexists, (Except.ok.inj hedit).symm⟩
  · cases hedit

theorem SharedOk.edited (h : SharedOk sessionOf sequenceOf s st.facts st.person st.shared.blocks) {id : String}
    {lane : Option String} {text : String}
    (hstep : Model.step st.shared.blocks (laneEdit id lane text) = .ok next) :
    SharedOk sessionOf sequenceOf s st.facts (st.edited id (editedField lane) next).person next := by
  obtain ⟨hexists, rfl⟩ := laneEdit_step hstep
  have howner : ∀ b : UtteranceBlock, (b.set (editedField lane) text).owner = b.owner := by
    intro b
    cases lane <;> rfl
  have hperson : ∀ {other : String} {g : Field}, (st.person other g = true ∨ other = id ∧ g = editedField lane) →
      (st.person other g || decide (other = id ∧ g = editedField lane)) = true := by
    intro other g hp
    rw [Bool.or_eq_true, decide_eq_true_eq]
    exact hp
  refine ⟨h.placed.map (fun b => ?_) (fun b => ?_), ?_, ?_⟩
  · split
    · exact UtteranceBlock.set_id b _ _
    · rfl
  · split
    · exact howner b
    · rfl
  · intro c hc hcowner other hlane
    obtain ⟨b, hb, rfl⟩ := List.mem_map.mp hc
    by_cases hid : b.id = id
    · rw [if_pos hid] at hcowner hlane ⊢
      rw [UtteranceBlock.get_set] at hlane
      rw [UtteranceBlock.set_id]
      by_cases hfield : Field.lane other = editedField lane
      · exact .inl (hperson (.inr ⟨hid, hfield⟩))
      · rw [if_neg hfield] at hlane
        cases h.lanes b hb ((howner b).symm.trans hcowner) other hlane with
        | inl hp => exact .inl (hperson (.inl hp))
        | inr hfact => exact .inr hfact
    · rw [if_neg hid] at hcowner hlane ⊢
      cases h.lanes b hb hcowner other hlane with
      | inl hp => exact .inl (hperson (.inl hp))
      | inr hfact => exact .inr hfact
  · intro other g hp
    have hlookup := @lookup_editAt st.shared.blocks (·.set (editedField lane) text)
      (fun b => UtteranceBlock.set_id b _ _) id other
    rw [SharedState.edited, Bool.or_eq_true, decide_eq_true_eq] at hp
    cases hp with
    | inl hp =>
      obtain ⟨hfield, hsome⟩ := h.persons other g hp
      refine ⟨hfield, ?_⟩
      cases hb : lookup st.shared.blocks other with
      | none =>
        rw [textAt_of_none hb] at hsome
        cases hsome
      | some b =>
        rw [textAt_of_lookup hb] at hsome
        rw [hb] at hlookup
        rw [textAt, hlookup]
        split
        · rw [Option.map_some, Option.bind_some, UtteranceBlock.get_set]
          split
          · rfl
          · exact hsome
        · exact hsome
    | inr hedited =>
      obtain ⟨rfl, rfl⟩ := hedited
      refine ⟨?_, ?_⟩
      · cases lane <;> simp [editedField]
      · cases hb : lookup st.shared.blocks other with
        | none =>
          obtain ⟨b, hmem, hid⟩ := hexists
          exact absurd hid (lookup_eq_none.mp hb b hmem)
        | some b =>
          rw [hb, if_pos rfl, Option.map_some] at hlookup
          rw [textAt, hlookup, Option.bind_some, UtteranceBlock.get_set, if_pos rfl]
          rfl

theorem SharedOk.annotated (h : SharedOk sessionOf sequenceOf s facts person blocks) {index : Nat} {id text : String}
    (hreserved : sessionOf id = none) (hfresh : ∀ b ∈ blocks, b.id ≠ id)
    (hstep : Model.step blocks (.annotate index id text) = .ok next) :
    SharedOk sessionOf sequenceOf s facts person next := by
  rw [Model.step] at hstep
  split at hstep
  · cases hstep
  · obtain rfl := Except.ok.inj hstep
    have huser : (TranscriptProjection.annotationBlock id text).owner ≠ captureOwner s :=
      fun heq => captureOwner_ne_userOwner s heq.symm
    have hsplit : blocks.take index ++ blocks.drop index = blocks := List.take_append_drop index blocks
    have hfresh' : ∀ b ∈ blocks.take index ++ blocks.drop index,
        b.id ≠ (TranscriptProjection.annotationBlock id text).id := by rwa [hsplit]
    refine ⟨⟨nodup_insert (by rw [hsplit]; exact h.placed.ids) hfresh', ?_, ?_⟩, ?_, ?_⟩
    · intro b hb
      cases mem_insert.mp hb with
      | inl heq => exact .inr ⟨by rw [heq]; rfl, by rw [heq]; exact hreserved⟩
      | inr hb => exact h.placed.owned b (hsplit ▸ hb)
    · exact Ordered.insert_other (by rw [hsplit]; exact h.placed.ordered) huser
    · intro b hb howner lane hlane
      cases mem_insert.mp hb with
      | inl heq => exact absurd (heq ▸ howner) huser
      | inr hb => exact h.lanes b (hsplit ▸ hb) howner lane hlane
    · intro other g hp
      obtain ⟨hfield, hsome⟩ := h.persons other g hp
      have hlookup := @lookup_insert _ _ (TranscriptProjection.annotationBlock id text)
        (lookup_eq_none.mpr hfresh') other
      rw [hsplit] at hlookup
      refine ⟨hfield, ?_⟩
      by_cases hid : other = id
      · have hnone : lookup blocks other = none := lookup_eq_none.mpr fun b hb => hid ▸ hfresh b hb
        rw [textAt_of_none hnone] at hsome
        cases hsome
      · have hne : other ≠ (TranscriptProjection.annotationBlock id text).id := hid
        rw [textAt, hlookup, if_neg hne]
        exact hsome

theorem sharedOk_step {e : SharedEvent} (h : SharedOk sessionOf sequenceOf s st.facts st.person st.shared.blocks)
    (hstep : SharedStep sessionOf sequenceOf s st e st') :
    SharedOk sessionOf sequenceOf s st'.facts st'.person st'.shared.blocks := by
  cases hstep with
  | refresh hsnapshot hgrow => exact h.refreshed hsnapshot hgrow
  | edit hedit => exact h.edited hedit
  | annotate hreserved hfresh hannotate => exact h.annotated hreserved hfresh hannotate

theorem sharedOk_run {start : List UtteranceBlock} {es : List SharedEvent}
    (hstart : SharedOk sessionOf sequenceOf s facts person start)
    (hrun : Run (SharedStep sessionOf sequenceOf s) (.opened start facts person) es st) :
    SharedOk sessionOf sequenceOf s st.facts st.person st.shared.blocks :=
  hrun.invariant (I := fun st => SharedOk sessionOf sequenceOf s st.facts st.person st.shared.blocks)
    (fun _ _ _ h hstep => sharedOk_step h hstep) hstart

/-! ## Yielding and converging -/

/-- The texts of a person in the block of a write. -/
theorem SharedOk.person_current (h : SharedOk sessionOf sequenceOf s facts person blocks) {id : String}
    {current : UtteranceBlock} (hcurrent : lookup blocks id = some current) :
    ∀ field, person id field = true → field ≠ .owner ∧ (current.get field).isSome := by
  intro field hp
  obtain ⟨hfield, hsome⟩ := h.persons id field hp
  rw [textAt_of_lookup hcurrent] at hsome
  exact ⟨hfield, hsome⟩

theorem ShadowTells.block (h : ShadowTells st utterances) {u : RealtimeUtterance} (hu : u ∈ utterances)
    {write : MachineBlockWrite} (hwrite : machineBlockWrite u = some write) {current : UtteranceBlock}
    (hcurrent : lookup st.shared.blocks write.id = some current) :
    TellsApart (st.person write.id) st.shared.shadow current write := by
  have hid := write_id hwrite
  rw [hid]
  exact h u hu write hwrite current (mem_of_lookup hcurrent) ((lookup_id hcurrent).trans hid)

/-- A refresh yields where the shadow tells people and machine apart, also where it stops early. -/
theorem yieldsTo_of_tells (h : SharedOk sessionOf sequenceOf s st.facts st.person st.shared.blocks)
    (hs : SnapshotOk sessionOf sequenceOf s utterances) (htells : ShadowTells st utterances) :
    YieldsTo st.person st.shared.blocks (refreshFromFacts s utterances st.shared).2.blocks := by
  intro id field hp
  cases refresh_at hs st.shared id with
  | inl hsame => rw [textAt, hsame, textAt]
  | inr hwritten =>
    obtain ⟨u, hu, write, hwrite, rfl, houtcome⟩ := hwritten
    cases houtcome with
    | created hcurrent =>
      have hsome := (h.persons write.id field hp).2
      rw [textAt_of_none hcurrent] at hsome
      cases hsome
    | refreshed current r hcurrent hafter hget hagain =>
      have hiff := tellsApart_iff (h.person_current hcurrent) hget
      rw [textAt_of_lookup hcurrent, textAt_of_lookup hafter]
      exact (hiff.mpr (htells.block hu hwrite hcurrent)).1 field hp

/-- What the block of an utterance shows, by its fields. -/
theorem showsFacts_of_fields {u : RealtimeUtterance} {write r : UtteranceBlock}
    (hwrite : machineBlockWrite u = some write) (hdistinct : LanesDistinct u) (hid : r.id = u.id)
    (howner : r.owner = captureOwner u.sessionId)
    (hfields : ∀ field incoming, field ≠ .owner → write.get field = some incoming →
      person u.id field = true ∨ r.get field = some incoming)
    (hlanes : ∀ lane, (r.get (.lane lane)).isSome → person u.id (.lane lane) = true ∨
      ∃ v ∈ finalizedTranslationVariants u, captureLaneId v.language = lane) :
    ShowsFacts person u r := by
  have hshows := showsFinals_write hdistinct hwrite
  refine ⟨hid, howner, ?_, ?_, hlanes⟩
  · rw [← hshows.text]
    cases hfields .text write.text (by simp) rfl with
    | inl hp => exact .inl hp
    | inr hsame => exact .inr (Option.some.inj hsame)
  · intro v hv
    have hget := hshows.translations v hv
    have htext := (Bool.and_eq_true_iff.mp (List.mem_filter.mp hv).2).2
    obtain ⟨text, htext⟩ := Option.isSome_iff_exists.mp htext
    rw [htext] at hget ⊢
    exact hfields (.lane (captureLaneId v.language)) text (by simp) hget

theorem fields_of_showsFacts {u : RealtimeUtterance} {write r : UtteranceBlock}
    (hwrite : machineBlockWrite u = some write) (hdistinct : LanesDistinct u) (h : ShowsFacts person u r)
    {field : Field} {incoming : String} (hfield : field ≠ .owner) (hnew : write.get field = some incoming) :
    person u.id field = true ∨ r.get field = some incoming := by
  have hshows := showsFinals_write hdistinct hwrite
  cases field with
  | owner => exact absurd rfl hfield
  | text =>
    obtain rfl := Option.some.inj (hnew : some write.text = _)
    cases h.text with
    | inl hp => exact .inl hp
    | inr hsame => exact .inr (congrArg some (hsame.trans hshows.text.symm))
  | lane lane =>
    obtain ⟨v, hv, rfl⟩ := write_lane hwrite hnew
    cases h.translations v hv with
    | inl hp => exact .inl hp
    | inr hsame => exact .inr (hsame.trans ((hshows.translations v hv).symm.trans hnew))

/-- **When one refresh yields, converges and has nothing to do the next time.** -/
theorem refresh_iff_tells (h : SharedOk sessionOf sequenceOf s st.facts st.person st.shared.blocks)
    (hs : SnapshotOk sessionOf sequenceOf s utterances) (hgrow : FactsGrow st.facts utterances) {changed : Bool}
    (hdone : (refreshFromFacts s utterances st.shared).1 = .ok changed) :
    (YieldsTo st.person st.shared.blocks (refreshFromFacts s utterances st.shared).2.blocks ∧
      ConvergesTo st.person utterances (refreshFromFacts s utterances st.shared).2.blocks ∧
      Repeats s utterances (refreshFromFacts s utterances st.shared).2) ↔ ShadowTells st utterances := by
  have hafter := h.refreshed hs hgrow
  have hquiet := @refreshUtterances_quiet_iff (refreshFromFacts s utterances st.shared).2.blocks s
    (sequenceById utterances) utterances (SnapshotOk.ids hs) (refreshFromFacts s utterances st.shared).2
  constructor
  · rintro ⟨hyields, hconverges, hrepeats⟩ u hu write hwrite current hmem hid
    have hwid := write_id hwrite
    have hcurrent : lookup st.shared.blocks write.id = some current := by
      rw [hwid, ← hid]
      exact lookup_of_mem h.placed.ids hmem
    cases refresh_done hs hdone hu hwrite with
    | created hnone =>
      rw [hcurrent] at hnone
      cases hnone
    | refreshed current' r hcurrent' hr hget hagain =>
      obtain rfl := Option.some.inj (hcurrent.symm.trans hcurrent')
      rw [← hwid]
      refine (tellsApart_iff (h.person_current hcurrent) hget).mp ⟨?_, ?_, ?_⟩
      · intro field hp
        have hsame := hyields write.id field hp
        rwa [textAt_of_lookup hr, textAt_of_lookup hcurrent] at hsame
      · intro field incoming hfield hnew
        have hfinal : HasFinalLane u := (machineBlockWrite_isSome (hs.lanes u hu)).mp (by rw [hwrite]; rfl)
        obtain ⟨b, hb, hshows⟩ := hconverges u hu hfinal
        have hbr : lookup (refreshFromFacts s utterances st.shared).2.blocks b.id = some b :=
          lookup_of_mem hafter.placed.ids hb
        rw [hshows.id, ← hwid, hr] at hbr
        obtain rfl := Option.some.inj hbr
        rw [hwid]
        exact fields_of_showsFacts hwrite (hs.lanes u hu) hshows hfield hnew
      · obtain ⟨r', hr', hquiet'⟩ := hquiet.mp hrepeats u hu write hwrite
        obtain rfl := Option.some.inj (hr.symm.trans hr')
        exact hagain.mp hquiet'
  · intro htells
    have hyields := yieldsTo_of_tells h hs htells
    refine ⟨hyields, ?_, hquiet.mpr ?_⟩
    · intro u hu hfinal
      obtain ⟨write, hwrite⟩ := Option.isSome_iff_exists.mp ((machineBlockWrite_isSome (hs.lanes u hu)).mpr hfinal)
      have hwid := write_id hwrite
      have hmember : ∀ r, lookup (refreshFromFacts s utterances st.shared).2.blocks write.id = some r →
          (∀ field incoming, field ≠ .owner → write.get field = some incoming →
            st.person u.id field = true ∨ r.get field = some incoming) → ShowsFacts st.person u r := by
        intro r hr hfields
        have hrid := (lookup_id hr).trans hwid
        have hrowner := hafter.placed.owner_of_fact hs hu (mem_of_lookup hr) hrid
        refine showsFacts_of_fields hwrite (hs.lanes u hu) hrid (by rw [hs.session u hu]; exact hrowner) hfields ?_
        intro lane hlane
        cases hafter.lanes r (mem_of_lookup hr) hrowner lane hlane with
        | inl hp =>
          rw [hrid] at hp
          exact .inl (Bool.and_eq_true_iff.mp hp).1
        | inr hfact =>
          obtain ⟨v, hv, hvid, hlanes⟩ := hfact
          obtain rfl := hs.eq_of_id hv hu (hvid.trans hrid)
          exact .inr hlanes
      cases refresh_done hs hdone hu hwrite with
      | created hnone hr hagain =>
        exact ⟨write, mem_of_lookup hr, hmember write hr fun _ _ _ hnew => .inr hnew⟩
      | refreshed current r hcurrent hr hget hagain =>
        have hparts := (tellsApart_iff (h.person_current hcurrent) hget).mpr (htells.block hu hwrite hcurrent)
        rw [hwid] at hparts
        exact ⟨r, mem_of_lookup hr, hmember r hr hparts.2.1⟩
    · intro u hu write hwrite
      cases refresh_done hs hdone hu hwrite with
      | created hnone hr hagain => exact ⟨write, hr, hagain⟩
      | refreshed current r hcurrent hr hget hagain =>
        have hparts := (tellsApart_iff (h.person_current hcurrent) hget).mpr (htells.block hu hwrite hcurrent)
        exact ⟨r, hr, hagain.mpr hparts.2.2⟩

end

/-- **The machine yields to people and otherwise converges** where its shadow tells them apart.
In every run the blocks of the session stand in strictly increasing order. A refresh leaves
people's texts alone, shows the latest facts in all others and has nothing to do the next time,
exactly where each text that the refresh would change differs from its shadow just when a person
wrote last, and no lane is written into a block whose source text is a person's. -/
theorem refresh_yields_and_converges {sessionOf : String → Option String} {sequenceOf : String → Nat} {s : String}
    {facts : List RealtimeUtterance} {person : String → Field → Bool} {start : List UtteranceBlock}
    (hstart : SharedOk sessionOf sequenceOf s facts person start) {es : List SharedEvent} {st : SharedState}
    (hrun : Run (SharedStep sessionOf sequenceOf s) (.opened start facts person) es st) :
    Ordered sequenceOf s st.shared.blocks ∧
      ∀ utterances, SnapshotOk sessionOf sequenceOf s utterances → FactsGrow st.facts utterances →
        Ordered sequenceOf s (refreshFromFacts s utterances st.shared).2.blocks ∧
        ((∀ u ∈ utterances, ∀ write, machineBlockWrite u = some write → WriteValid write) →
          ∃ changed, (refreshFromFacts s utterances st.shared).1 = .ok changed) ∧
        (ShadowTells st utterances →
          YieldsTo st.person st.shared.blocks (refreshFromFacts s utterances st.shared).2.blocks) ∧
        ∀ changed, (refreshFromFacts s utterances st.shared).1 = .ok changed →
          ((YieldsTo st.person st.shared.blocks (refreshFromFacts s utterances st.shared).2.blocks ∧
            ConvergesTo st.person utterances (refreshFromFacts s utterances st.shared).2.blocks ∧
            Repeats s utterances (refreshFromFacts s utterances st.shared).2) ↔ ShadowTells st utterances) := by
  have h := sharedOk_run hstart hrun
  refine ⟨h.placed.ordered, fun utterances hs hgrow => ?_⟩
  obtain ⟨hplaced, hdone⟩ := refreshFromFacts_placed (h.placed.grow hgrow) hs
  exact ⟨hplaced.ordered, hdone, yieldsTo_of_tells h hs, fun changed => refresh_iff_tells h hs hgrow⟩

/-! ## A source text with a Chinese lane -/

def translatedSource (text zh : String) : RealtimeUtterance :=
  { id := "u", sessionId := "a", sequence := 0, sessionSpeakerId := none, sourceLanguage := "en", sourceText := text
    sourceStartMs := none, sourceEndMs := none, translatedLanguage := some "zh", translatedText := some zh
    revision := 0, completion := .complete, alignment := .paired, sourceProjectionRevision := 1
    sourceEditRevision := 0
    variants :=
      [{ language := "zh", role := .translation, text := some zh, state := .ready, completion := some .complete
         revision := 0, projectionRevision := 1, editRevision := 0 },
       { language := "en", role := .source, text := some text, state := .ready, completion := some .complete
         revision := 0, projectionRevision := 1, editRevision := 0 }] }

theorem translatedSource_snapshot (text zh : String) :
    SnapshotOk finalSourceSession finalSourceSequence "a" [translatedSource text zh] := by
  have hdistinct : LanesDistinct (translatedSource text zh) := by
    have hlanes : ((translatedSource text zh).variants.map fun v => captureLaneId v.language) = ["zh", "en"] := by
      simp only [translatedSource, List.map_cons, List.map_nil]
      decide +kernel
    rw [LanesDistinct, hlanes]
    decide
  constructor
  · intro u hu
    obtain rfl := List.mem_singleton.mp hu
    rfl
  · intro u hu
    obtain rfl := List.mem_singleton.mp hu
    exact ⟨rfl, rfl⟩
  · exact List.pairwise_singleton _ _
  · intro u hu
    obtain rfl := List.mem_singleton.mp hu
    exact hdistinct
  · intro u hu v hv _ hedit
    obtain rfl := List.mem_singleton.mp hu
    simp only [translatedSource, List.mem_cons, List.not_mem_nil, or_false] at hv
    obtain rfl | rfl := hv <;> cases hedit

theorem translatedSource_grows (text zh text' zh' : String) :
    FactsGrow [translatedSource text zh] [translatedSource text' zh'] := by
  intro u hu _
  obtain rfl := List.mem_singleton.mp hu
  refine ⟨_, List.mem_cons_self, rfl, .inl rfl, ?_⟩
  intro x hx
  obtain rfl := List.mem_singleton.mp hx
  exact ⟨_, List.mem_cons_self, rfl⟩

theorem empty_sharedOk : SharedOk finalSourceSession finalSourceSequence "a" [] (fun _ _ => false) [] := by
  refine ⟨⟨List.nodup_nil, ?_, List.Pairwise.nil⟩, ?_, ?_⟩
  · exact fun b hb => absurd hb List.not_mem_nil
  · exact fun b hb => absurd hb List.not_mem_nil
  · intro id field hp
    cases hp

/-- The Chinese lane is a person's and stays, the source text goes on. -/
theorem refresh_yields_and_converges_sample : ∃ st : SharedState,
    st.person "u" (.lane "zh") = true ∧
      YieldsTo st.person st.shared.blocks
        (refreshFromFacts "a" [translatedSource "hello again" "new"] st.shared).2.blocks ∧
      ConvergesTo st.person [translatedSource "hello again" "new"]
        (refreshFromFacts "a" [translatedSource "hello again" "new"] st.shared).2.blocks ∧
      Repeats "a" [translatedSource "hello again" "new"]
        (refreshFromFacts "a" [translatedSource "hello again" "new"] st.shared).2 := by
  let opened := SharedState.opened [] [] fun _ _ => false
  let refreshed := opened.refreshed "a" [translatedSource "hello" "old"]
  let next := [UtteranceBlock.mk "u" "capture:a" "hello" (.ofList [("zh", "edited")])]
  let st := refreshed.edited "u" (.lane "zh") next
  have hrun : Run (SharedStep finalSourceSession finalSourceSequence "a") opened
      [.refresh [translatedSource "hello" "old"], .edit "u" (some "zh") "edited"] st := by
    refine .cons (.refresh (translatedSource_snapshot _ _) ?_) (.cons (.edit ?_) (.nil _))
    · exact fun u hu => absurd hu List.not_mem_nil
    · decide +kernel
  have htells : ShadowTells st [translatedSource "hello again" "new"] := by
    intro u hu write hwrite current hcurrent _
    obtain rfl := List.mem_singleton.mp hu
    obtain rfl := List.mem_singleton.mp hcurrent
    have hexpected : machineBlockWrite (translatedSource "hello again" "new") =
        some ⟨"u", "capture:a", "hello again", .ofList [("zh", "new")]⟩ := by decide +kernel
    obtain rfl := Option.some.inj (hwrite.symm.trans hexpected)
    have hshadow : st.shared.shadow "u" (.lane "zh") = some "old" ∧ st.shared.shadow "u" .text = some "hello" := by
      decide +kernel
    have hperson : st.person "u" (.lane "zh") = true ∧ st.person "u" .text = false := by decide +kernel
    refine ⟨?_, ?_, ?_⟩
    · intro lane docText incoming hdoc hnew hne
      obtain ⟨hlane, hdocText⟩ := Prod.mk.inj (List.mem_singleton.mp (KeyMap.mem_of_get hdoc))
      subst hlane hdocText
      exact ⟨"old", hshadow.1, fun _ => hperson.1, fun _ => by decide⟩
    · intro _
      constructor
      · intro hne
        have hsame : (some "hello").getD "hello again" ≠ "hello" := by
          rw [← hshadow.2]
          exact hne.symm
        exact absurd rfl hsame
      · intro hp
        exact absurd (hperson.2.symm.trans hp) Bool.false_ne_true
    · intro _ hp
      exact absurd (hperson.2.symm.trans hp) Bool.false_ne_true
  have hmain := (refresh_yields_and_converges empty_sharedOk hrun).2 _
    (translatedSource_snapshot "hello again" "new") (translatedSource_grows "hello" "old" "hello again" "new")
  have hdone : (refreshFromFacts "a" [translatedSource "hello again" "new"] st.shared).1 = .ok true := by
    decide +kernel
  exact ⟨st, by decide +kernel, (hmain.2.2.2 true hdone).mpr htells⟩

/-- A person edits the source text, and the next refresh changes the lane beside it: the person's
text becomes the shadow, so that the refresh after that takes it for the machine's own and
overwrites it. -/
theorem written_back_text_is_lost : ∃ st : SharedState,
    Run (SharedStep finalSourceSession finalSourceSequence "a") (.opened [] [] fun _ _ => false)
      [.refresh [translatedSource "hello" "old"], .edit "u" none "hello (edited)",
        .refresh [translatedSource "hello again" "new"]] st ∧
      st.person "u" .text = true ∧ textAt st.shared.blocks "u" .text = some "hello (edited)" ∧
      (refreshFromFacts "a" [translatedSource "hello again" "new"] st.shared).1 = .ok true ∧
      textAt (refreshFromFacts "a" [translatedSource "hello again" "new"] st.shared).2.blocks "u" .text =
        some "hello again" := by
  let opened := SharedState.opened [] [] fun _ _ => false
  let refreshed := opened.refreshed "a" [translatedSource "hello" "old"]
  let next := [UtteranceBlock.mk "u" "capture:a" "hello (edited)" (.ofList [("zh", "old")])]
  let edited := refreshed.edited "u" .text next
  let st := edited.refreshed "a" [translatedSource "hello again" "new"]
  have hrun : Run (SharedStep finalSourceSession finalSourceSequence "a") opened
      [.refresh [translatedSource "hello" "old"], .edit "u" none "hello (edited)",
        .refresh [translatedSource "hello again" "new"]] st := by
    refine .cons (.refresh (translatedSource_snapshot _ _) ?_) (.cons (.edit ?_)
      (.cons (.refresh (translatedSource_snapshot _ _) (translatedSource_grows _ _ _ _)) (.nil _)))
    · exact fun u hu => absurd hu List.not_mem_nil
    · decide +kernel
  exact ⟨st, hrun, by decide +kernel, by decide +kernel, by decide +kernel, by decide +kernel⟩

end Zulangue.Shared
