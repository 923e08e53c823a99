import Zulangue.Share.Permission

/-!
# Incoming document updates

`vt-share/src/docsync.rs`. The documents live behind the `DocumentSync` port; here it is
a record of functions over the state that holds them.
-/

namespace Zulangue.Share

open Zulangue.Lib.Text

/-- What an envelope on the document channel carries. -/
structure DocumentUpdatePayload where
  documentId : String
  schemaEpoch : UInt64
  update : Bytes
  deriving DecidableEq, Repr

/-- The `postcard` decoders of the two layers. -/
structure WireCodec (EndpointId Signature : Type) where
  decodeCompact : Bytes → Option (ShareEnvelope EndpointId Signature)
  decodePayload : Bytes → Option DocumentUpdatePayload

/-- The side that holds the documents, over its state. -/
structure DocumentSync (Docs : Type) where
  documentInScope : Docs → ScopeId → String → Bool
  schemaEpoch : Docs → ScopeId → String → Option UInt64
  apply : Docs → ScopeId → String → Bytes → Bool × Docs

inductive IncomingOutcome where
  | applied
  | denied (denial : AdmissionDenial)
  | applyFailed
  | malformed
  deriving DecidableEq, Repr

section
variable {EndpointId Signature Docs : Type} [LinearOrder EndpointId]

def handleIncomingUpdate (keys : EndpointKeys EndpointId Signature)
    (codec : WireCodec EndpointId Signature) (envelopeBytes : Bytes)
    (roster : RoomRoster EndpointId) (guard : CaptureBoundaryGuard) (sink : DocumentSync Docs)
    (docs : Docs) : IncomingOutcome × Docs :=
  match codec.decodeCompact envelopeBytes with
  | none => (.malformed, docs)
  | some envelope =>
    match codec.decodePayload envelope.payload with
    | none => (.malformed, docs)
    | some payload =>
      if !sink.documentInScope docs roster.scope payload.documentId then
        (.denied .documentNotInScope, docs)
      else
        match sink.schemaEpoch docs roster.scope payload.documentId with
        | none => (.denied .schemaEpochUnknown, docs)
        | some localEpoch =>
          if localEpoch ≠ payload.schemaEpoch then
            (.denied (.schemaEpochMismatch localEpoch payload.schemaEpoch), docs)
          else
            match admitDocumentUpdate keys envelope payload.documentId payload.update roster
                guard with
            | .error denial => (.denied denial, docs)
            | .ok () =>
              match sink.apply docs roster.scope payload.documentId payload.update with
              | (true, docs') => (.applied, docs')
              | (false, docs') => (.applyFailed, docs')

/-- One call of `sink.apply`. -/
structure ApplyCall where
  scope : ScopeId
  documentId : String
  update : Bytes
  deriving DecidableEq, Repr

/-- The same sink, writing down every call of its `apply`. -/
def DocumentSync.recorded (sink : DocumentSync Docs) : DocumentSync (Docs × List ApplyCall) where
  documentInScope := fun docs => sink.documentInScope docs.1
  schemaEpoch := fun docs => sink.schemaEpoch docs.1
  apply := fun docs scope documentId update =>
    let (merged, docs') := sink.apply docs.1 scope documentId update
    (merged, docs', docs.2 ++ [⟨scope, documentId, update⟩])

/-- Every condition of the gate on one decoded update, with no order among them. -/
structure Admissible (keys : EndpointKeys EndpointId Signature)
    (roster : RoomRoster EndpointId) (guard : CaptureBoundaryGuard) (sink : DocumentSync Docs)
    (docs : Docs) (envelope : ShareEnvelope EndpointId Signature)
    (payload : DocumentUpdatePayload) : Prop where
  inScope : sink.documentInScope docs roster.scope payload.documentId = true
  epoch : sink.schemaEpoch docs roster.scope payload.documentId = some payload.schemaEpoch
  scope : envelope.scope = roster.scope
  signed : keys.verify envelope.author (signingMessage keys envelope.author roster.scope
    envelope.kind envelope.payload) envelope.signature = true
  kind : envelope.kind = .documentUpdate
  member : envelope.author ∈ roster.members
  policy : roster.policy = .everyone ∨ envelope.author = roster.host
  boundary : envelope.author = roster.host ∨
    guard roster.scope payload.documentId payload.update = false

section
variable {keys : EndpointKeys EndpointId Signature} {codec : WireCodec EndpointId Signature}
  {roster : RoomRoster EndpointId} {guard : CaptureBoundaryGuard} {sink : DocumentSync Docs}
  {docs : Docs} {envelope : ShareEnvelope EndpointId Signature}
  {payload : DocumentUpdatePayload} {envelopeBytes : Bytes}

theorem admissible_iff :
    Admissible keys roster guard sink docs envelope payload ↔
      sink.documentInScope docs roster.scope payload.documentId = true ∧
        sink.schemaEpoch docs roster.scope payload.documentId = some payload.schemaEpoch ∧
        admitDocumentUpdate keys envelope payload.documentId payload.update roster guard =
          .ok () := by
  rw [admitDocumentUpdate_ok_iff, verify_ok_iff, RoomRoster.mayWrite_iff]
  constructor
  · intro h
    exact ⟨h.inScope, h.epoch, ⟨h.scope, h.signed⟩, h.kind, ⟨h.member, h.policy⟩, h.boundary⟩
  · rintro ⟨hin, hep, ⟨hs, hsig⟩, hk, ⟨hm, hp⟩, hb⟩
    exact ⟨hin, hep, hs, hsig, hk, hm, hp, hb⟩

/-- An admissible update is merged, and the answer is what the merge said. -/
theorem handle_admissible (hd : codec.decodeCompact envelopeBytes = some envelope)
    (hp : codec.decodePayload envelope.payload = some payload)
    (h : Admissible keys roster guard sink docs envelope payload) :
    handleIncomingUpdate keys codec envelopeBytes roster guard sink docs =
      (if (sink.apply docs roster.scope payload.documentId payload.update).1 then .applied
        else .applyFailed,
        (sink.apply docs roster.scope payload.documentId payload.update).2) := by
  obtain ⟨hin, hep, hadm⟩ := admissible_iff.mp h
  simp only [handleIncomingUpdate, hd, hp, hin, hep, hadm, Bool.not_true, Bool.false_eq_true,
    if_false, ne_eq, not_true_eq_false]
  rcases sink.apply docs roster.scope payload.documentId payload.update with ⟨merged, docs'⟩
  cases merged <;> rfl

/-- Anything else leaves the documents as they were. -/
theorem handle_refused
    (h : ∀ envelope payload, codec.decodeCompact envelopeBytes = some envelope →
      codec.decodePayload envelope.payload = some payload →
      ¬ Admissible keys roster guard sink docs envelope payload) :
    (handleIncomingUpdate keys codec envelopeBytes roster guard sink docs).2 = docs := by
  unfold handleIncomingUpdate
  cases hd : codec.decodeCompact envelopeBytes with
  | none => rfl
  | some envelope =>
    cases hp : codec.decodePayload envelope.payload with
    | none => simp only [hp]
    | some payload =>
      have hnot := h envelope payload hd hp
      rw [admissible_iff] at hnot
      simp only [hp]
      by_cases hin : sink.documentInScope docs roster.scope payload.documentId = true
      · cases hep : sink.schemaEpoch docs roster.scope payload.documentId with
        | none => simp [hin]
        | some localEpoch =>
          by_cases heq : localEpoch = payload.schemaEpoch
          · subst heq
            cases hadm : admitDocumentUpdate keys envelope payload.documentId payload.update
                roster guard with
            | error denial => simp [hin]
            | ok u => exact absurd ⟨hin, hep, hadm⟩ hnot
          · simp [hin, heq]
      · simp [hin]

theorem admissible_recorded {calls : List ApplyCall} :
    Admissible keys roster guard sink.recorded (docs, calls) envelope payload ↔
      Admissible keys roster guard sink docs envelope payload :=
  ⟨fun h => ⟨h.inScope, h.epoch, h.scope, h.signed, h.kind, h.member, h.policy, h.boundary⟩,
    fun h => ⟨h.inScope, h.epoch, h.scope, h.signed, h.kind, h.member, h.policy, h.boundary⟩⟩

/-- The calls of `sink.apply` one incoming envelope makes. -/
def applyCalls (keys : EndpointKeys EndpointId Signature)
    (codec : WireCodec EndpointId Signature) (envelopeBytes : Bytes)
    (roster : RoomRoster EndpointId) (guard : CaptureBoundaryGuard) (sink : DocumentSync Docs)
    (docs : Docs) : List ApplyCall :=
  (handleIncomingUpdate keys codec envelopeBytes roster guard sink.recorded (docs, [])).2.2

theorem applyCalls_admissible (hd : codec.decodeCompact envelopeBytes = some envelope)
    (hp : codec.decodePayload envelope.payload = some payload)
    (h : Admissible keys roster guard sink docs envelope payload) :
    applyCalls keys codec envelopeBytes roster guard sink docs =
      [⟨roster.scope, payload.documentId, payload.update⟩] := by
  have hrec : Admissible keys roster guard sink.recorded (docs, []) envelope payload :=
    admissible_recorded.mpr h
  rw [applyCalls, handle_admissible hd hp hrec]
  rfl

theorem applyCalls_refused
    (h : ∀ envelope payload, codec.decodeCompact envelopeBytes = some envelope →
      codec.decodePayload envelope.payload = some payload →
      ¬ Admissible keys roster guard sink docs envelope payload) :
    applyCalls keys codec envelopeBytes roster guard sink docs = [] := by
  have hrec : ∀ envelope payload, codec.decodeCompact envelopeBytes = some envelope →
      codec.decodePayload envelope.payload = some payload →
      ¬ Admissible keys roster guard sink.recorded (docs, []) envelope payload := by
    intro envelope payload hd hp hadm
    exact h envelope payload hd hp (admissible_recorded.mp hadm)
  rw [applyCalls, handle_refused hrec]

end

/-- **Admission is exact.** At most one `apply` is made; it is made exactly for an
envelope whose signed payload is admissible, with that payload's document and bytes; and
without it the documents do not change. -/
theorem handleIncomingUpdate_exact (keys : EndpointKeys EndpointId Signature)
    (codec : WireCodec EndpointId Signature) (envelopeBytes : Bytes)
    (roster : RoomRoster EndpointId) (guard : CaptureBoundaryGuard) (sink : DocumentSync Docs)
    (docs : Docs) :
    (applyCalls keys codec envelopeBytes roster guard sink docs).length ≤ 1 ∧
      (∀ call, call ∈ applyCalls keys codec envelopeBytes roster guard sink docs ↔
        ∃ envelope payload, codec.decodeCompact envelopeBytes = some envelope ∧
          codec.decodePayload envelope.payload = some payload ∧
          Admissible keys roster guard sink docs envelope payload ∧
          call = ⟨roster.scope, payload.documentId, payload.update⟩) ∧
      (applyCalls keys codec envelopeBytes roster guard sink docs = [] →
        (handleIncomingUpdate keys codec envelopeBytes roster guard sink docs).2 = docs) := by
  by_cases h : ∃ envelope payload, codec.decodeCompact envelopeBytes = some envelope ∧
      codec.decodePayload envelope.payload = some payload ∧
      Admissible keys roster guard sink docs envelope payload
  · obtain ⟨envelope, payload, hd, hp, hadm⟩ := h
    rw [applyCalls_admissible hd hp hadm]
    refine ⟨le_rfl, fun call => ?_, fun hnil => absurd hnil (List.cons_ne_nil _ _)⟩
    rw [List.mem_singleton]
    constructor
    · rintro rfl
      exact ⟨envelope, payload, hd, hp, hadm, rfl⟩
    · rintro ⟨envelope', payload', hd', hp', -, rfl⟩
      obtain rfl : envelope = envelope' := Option.some.inj (hd.symm.trans hd')
      obtain rfl : payload = payload' := Option.some.inj (hp.symm.trans hp')
      rfl
  · have hnone : ∀ envelope payload, codec.decodeCompact envelopeBytes = some envelope →
        codec.decodePayload envelope.payload = some payload →
        ¬ Admissible keys roster guard sink docs envelope payload :=
      fun envelope payload hd hp hadm => h ⟨envelope, payload, hd, hp, hadm⟩
    rw [applyCalls_refused hnone]
    refine ⟨Nat.zero_le _, fun call => ?_, fun _ => handle_refused hnone⟩
    constructor
    · intro hmem; cases hmem
    · rintro ⟨envelope, payload, hd, hp, hadm, -⟩
      exact absurd hadm (hnone envelope payload hd hp)

end

end Zulangue.Share
