import Zulangue.Lib.Cells
import Zulangue.Share.Docsync
import Zulangue.Share.SigningMessage

/-!
# Catching up over the wire

`respond_to_have` of `vt-share/src/docsync.rs`, `write_message` and `read_message` of `wire.rs`,
and the responder of `net.rs` that puts them together. A reply is JSON, in which every byte of
an envelope is a number.
-/

namespace Zulangue.Share

open Zulangue.Lib.Text Zulangue.Lib.Cells

/-! ## The wire -/

def maxMessageBytes : Nat := 4 * 1024 * 1024

inductive WireError where
  | io
  | tooLarge (actual : Nat)
  | decode
  deriving DecidableEq, Repr

/-- The bytes that `write_message` writes for a JSON body. -/
def writeMessage (body : Bytes) : Except WireError Bytes :=
  if body.length > maxMessageBytes then .error (.tooLarge body.length)
  else .ok (leBytes 4 body.length ++ body)

/-- The number whose low bytes these are. -/
def leValue : Bytes → Nat
  | [] => 0
  | byte :: rest => byte.toNat + 256 * leValue rest

/-- The JSON body that `read_message` takes from a stream. -/
def readMessage (stream : Bytes) : Except WireError Bytes :=
  if stream.length < 4 then .error .io
  else
    let length := leValue (stream.take 4)
    if length > maxMessageBytes then .error (.tooLarge length)
    else if (stream.drop 4).length < length then .error .io
    else .ok ((stream.drop 4).take length)

/-! ## Messages on the document channel -/

structure DocumentVersion where
  documentId : String
  version : Bytes
  deriving DecidableEq, Repr

inductive DocSyncMessage where
  | haveVersions (versions : List DocumentVersion)
  | updates (envelopes : List Bytes)
  | upToDate
  deriving DecidableEq, Repr

def jsonNumber (n : Nat) : Bytes := (Nat.toDigits 10 n).flatMap String.utf8EncodeChar

def jsonArray (items : List Bytes) : Bytes := [0x5b] ++ [0x2c].intercalate items ++ [0x5d]

/-- `serde_json` on a `Vec<u8>`. -/
def jsonBytes (bytes : Bytes) : Bytes := jsonArray (bytes.map fun byte => jsonNumber byte.toNat)

def DocumentVersion.toJson (version : DocumentVersion) : Bytes :=
  [0x7b] ++ jsonString "document_id" ++ utf8 ":" ++ jsonString version.documentId ++ [0x2c] ++
    jsonString "version" ++ utf8 ":" ++ jsonBytes version.version ++ [0x7d]

/-- `serde_json::to_vec`. -/
def DocSyncMessage.toJson : DocSyncMessage → Bytes
  | .haveVersions versions =>
    jsonField "Have" (jsonField "versions" (jsonArray (versions.map DocumentVersion.toJson)))
  | .updates envelopes =>
    jsonField "Updates" (jsonField "envelopes" (jsonArray (envelopes.map jsonBytes)))
  | .upToDate => jsonString "UpToDate"

/-! ## Answering -/

/-- What else the side that holds the documents answers. -/
structure DocumentHistory (Docs : Type) extends DocumentSync Docs where
  documents : Docs → ScopeId → List String
  updatesSince : Docs → ScopeId → String → Bytes → Option Bytes

/-- The `postcard` encoders of the two layers. -/
structure WireEncoder (EndpointId Signature : Type) where
  encodeCompact : ShareEnvelope EndpointId Signature → Option Bytes
  encodePayload : DocumentUpdatePayload → Option Bytes

section
variable {SecretKey EndpointId Signature Docs : Type} (keys : EndpointKeys EndpointId Signature)
  (secrets : SecretKeys SecretKey EndpointId Signature) (encoder : WireEncoder EndpointId Signature)

def sealUpdate (scope : ScopeId) (documentId : String) (schemaEpoch : UInt64) (update : Bytes)
    (secret : SecretKey) : Option Bytes :=
  (encoder.encodePayload ⟨documentId, schemaEpoch, update⟩).bind fun payload =>
    encoder.encodeCompact ((UnsignedEnvelope.mk scope .documentUpdate payload).sign keys secrets secret)

variable (sink : DocumentHistory Docs) (docs : Docs) (scope : ScopeId)

/-- The version a peer has declared for a document; nothing if it has not named it. -/
def peerVersion (peerVersions : List DocumentVersion) (documentId : String) : Bytes :=
  ((peerVersions.find? fun version => version.documentId = documentId).map (·.version)).getD []

/-- What the peer lacks of a document, sealed. -/
def sealedFor (secret : SecretKey) (peerVersions : List DocumentVersion) (documentId : String) :
    Option Bytes :=
  (sink.updatesSince docs scope documentId (peerVersion peerVersions documentId)).bind fun update =>
    (sink.schemaEpoch docs scope documentId).bind fun schemaEpoch =>
      sealUpdate keys secrets encoder scope documentId schemaEpoch update secret

def respondToHave (secret : SecretKey) (peerVersions : List DocumentVersion) : DocSyncMessage :=
  let envelopes := (sink.documents docs scope).filterMap
    (sealedFor keys secrets encoder sink docs scope secret peerVersions)
  if envelopes = [] then .upToDate else .updates envelopes

/-- The stream of one answer of `spawn_have_responder`, which drops the error of the write. -/
def answerHave (secret : SecretKey) (peerVersions : List DocumentVersion) : Bytes :=
  match writeMessage (respondToHave keys secrets encoder sink docs scope secret peerVersions).toJson with
  | .ok written => written
  | .error _ => []

end

/-! ## The size of a reply -/

/-- The decimal digits of all bytes. -/
def digitCount (bytes : Bytes) : Nat := (bytes.map fun byte => (Nat.toDigits 10 byte.toNat).length).sum

/-- An envelope in the reply, with its brackets and commas. -/
def envelopeChars (envelope : Bytes) : Nat := digitCount envelope + (envelope.length - 1) + 3

/-- All envelopes of a reply and what stands around them. -/
def replyChars (envelopes : List Bytes) : Nat := 27 + (envelopes.map envelopeChars).sum

theorem length_utf8EncodeChar_of_isDigit {c : Char} (h : c.isDigit = true) :
    (String.utf8EncodeChar c).length = 1 := by
  have hval : c.toNat ≤ 127 := by
    simp only [Char.isDigit, Bool.and_eq_true, decide_eq_true_eq] at h
    have hle : c.toNat ≤ 57 := h.2
    omega
  rw [String.utf8EncodeChar]
  simp [hval]

theorem length_jsonNumber (n : Nat) : (jsonNumber n).length = (Nat.toDigits 10 n).length := by
  have hdigits : ∀ c ∈ Nat.toDigits 10 n, c.isDigit = true := fun c hc =>
    Nat.isDigit_of_mem_toDigits (by decide) (by decide) hc
  rw [jsonNumber]
  generalize Nat.toDigits 10 n = digits at hdigits
  induction digits with
  | nil => rfl
  | cons c digits ih =>
    obtain ⟨hc, hdigits⟩ := List.forall_mem_cons.mp hdigits
    rw [List.flatMap_cons, List.length_append, length_utf8EncodeChar_of_isDigit hc, ih hdigits,
      List.length_cons, Nat.add_comm]

theorem length_jsonArray (items : List Bytes) :
    (jsonArray items).length = (items.map List.length).sum + (items.length - 1) + 2 := by
  have hinner := length_intercalate (0x2c : UInt8) items
  simp only [jsonArray, List.length_append, hinner, List.length_cons, List.length_nil]
  omega

theorem length_jsonBytes (envelope : Bytes) : (jsonBytes envelope).length + 1 = envelopeChars envelope := by
  rw [jsonBytes, length_jsonArray, envelopeChars, digitCount, List.length_map, List.map_map]
  simp only [Function.comp_def, length_jsonNumber]

theorem length_updates {envelopes : List Bytes} (h : envelopes ≠ []) :
    (DocSyncMessage.updates envelopes).toJson.length = replyChars envelopes := by
  have harray : (jsonArray (envelopes.map jsonBytes)).length = (envelopes.map envelopeChars).sum + 1 := by
    have hsum : ((envelopes.map jsonBytes).map List.length).sum + envelopes.length =
        (envelopes.map envelopeChars).sum := by
      clear h
      induction envelopes with
      | nil => rfl
      | cons envelope envelopes ih =>
        simp only [List.map_cons, List.sum_cons, List.length_cons, ← length_jsonBytes] at ih ⊢
        omega
    have hpos := List.length_pos_iff.mpr h
    rw [length_jsonArray, List.length_map]
    omega
  have houter : (jsonString "Updates").length = 9 := by decide
  have hinner : (jsonString "envelopes").length = 11 := by decide
  have hcolon : (utf8 ":").length = 1 := by decide
  simp only [DocSyncMessage.toJson, jsonField, List.length_append, harray, houter, hinner, hcolon,
    List.length_cons, List.length_nil, replyChars]
  omega

/-- A byte takes one to three digits. -/
theorem digitCount_bounds (bytes : Bytes) :
    bytes.length ≤ digitCount bytes ∧ digitCount bytes ≤ 3 * bytes.length := by
  induction bytes with
  | nil => exact ⟨Nat.le_refl 0, Nat.le_refl 0⟩
  | cons byte bytes ih =>
    have hlow : 0 < (Nat.toDigits 10 byte.toNat).length :=
      List.length_pos_iff.mpr Nat.toDigits_ne_nil
    have hhigh : (Nat.toDigits 10 byte.toNat).length ≤ 3 := by
      rw [Nat.length_toDigits_le_iff (by decide) (by decide)]
      have hbyte := byte.toNat_lt
      omega
    simp only [digitCount, List.map_cons, List.sum_cons, List.length_cons] at ih ⊢
    omega

/-- Between two and four characters for each byte, and a few for each envelope. -/
theorem replyChars_bounds (envelopes : List Bytes) :
    27 + 2 * (envelopes.map List.length).sum + 2 * envelopes.length ≤ replyChars envelopes ∧
      replyChars envelopes ≤ 27 + 4 * (envelopes.map List.length).sum + 3 * envelopes.length := by
  rw [replyChars]
  induction envelopes with
  | nil => exact ⟨Nat.le_refl 27, Nat.le_refl 27⟩
  | cons envelope envelopes ih =>
    have hdigits := digitCount_bounds envelope
    simp only [List.map_cons, List.sum_cons, List.length_cons, envelopeChars] at ih ⊢
    omega

/-! ## What is written is read -/

theorem leValue_leBytes {n : Nat} (h : n < 4294967296) : leValue (leBytes 4 n) = n := by
  simp only [leBytes, leValue, UInt8.toNat_ofNat']
  omega

theorem writeMessage_short {body : Bytes} (h : body.length ≤ maxMessageBytes) :
    writeMessage body = .ok (leBytes 4 body.length ++ body) := by
  rw [writeMessage, if_neg (Nat.not_lt.mpr h)]

theorem writeMessage_long {body : Bytes} (h : ¬ body.length ≤ maxMessageBytes) :
    writeMessage body = .error (.tooLarge body.length) := by
  rw [writeMessage, if_pos (Nat.lt_of_not_le h)]

theorem readMessage_write {body : Bytes} (h : body.length ≤ maxMessageBytes) :
    readMessage (leBytes 4 body.length ++ body) = .ok body := by
  have hlength := length_leBytes 4 body.length
  have hvalue : leValue (leBytes 4 body.length) = body.length := by
    apply leValue_leBytes
    rw [maxMessageBytes] at h
    omega
  rw [readMessage, List.take_left' hlength, List.drop_left' hlength, hvalue, if_neg, if_neg, if_neg,
    List.take_length]
  · omega
  · omega
  · rw [List.length_append, hlength]
    omega

section
variable {SecretKey EndpointId Signature Docs : Type} (keys : EndpointKeys EndpointId Signature)
  (secrets : SecretKeys SecretKey EndpointId Signature) (encoder : WireEncoder EndpointId Signature)
  (sink : DocumentHistory Docs) (docs : Docs) (scope : ScopeId) (secret : SecretKey)
  (peerVersions : List DocumentVersion)

/-- The envelopes for everything the peer lacks. -/
def sealedForPeer : List Bytes :=
  (sink.documents docs scope).filterMap (sealedFor keys secrets encoder sink docs scope secret peerVersions)

theorem reply_fits_iff :
    (respondToHave keys secrets encoder sink docs scope secret peerVersions).toJson.length ≤ maxMessageBytes ↔
      replyChars (sealedForPeer keys secrets encoder sink docs scope secret peerVersions) ≤ maxMessageBytes := by
  rw [respondToHave, ← sealedForPeer]
  generalize sealedForPeer keys secrets encoder sink docs scope secret peerVersions = envelopes
  by_cases h : envelopes = []
  · subst h
    have hshort : DocSyncMessage.upToDate.toJson.length ≤ maxMessageBytes := by decide
    have hempty : replyChars [] ≤ maxMessageBytes := by decide
    simp [hshort, hempty]
  · rw [if_neg h, length_updates h]

end

/-! ## Two mebibytes -/

/-- `postcard`'s `varint`. -/
def varint : Nat → Nat → Bytes
  | 0, _ => []
  | count + 1, n =>
    if n < 128 then [UInt8.ofNat n] else UInt8.ofNat (n % 128 + 128) :: varint count (n / 128)

/-- Bytes behind their length. -/
def postcardBytes (bytes : Bytes) : Bytes := varint 10 bytes.length ++ bytes

def ScopeId.postcard : ScopeId → Bytes
  | .notebook notebookId => [0] ++ postcardBytes (utf8 notebookId)
  | .session sessionId => [1] ++ postcardBytes (utf8 sessionId)

def PayloadKind.postcard : PayloadKind → Bytes
  | .documentUpdate => [0]
  | .roomControl => [1]
  | .resource => [2]

/-- Fields in their order, without their names. -/
def postcardEncoder (keys : EndpointKeys UInt8 Bytes) : WireEncoder UInt8 Bytes where
  encodeCompact envelope := some (keys.asBytes envelope.author ++ envelope.scope.postcard ++
    envelope.kind.postcard ++ postcardBytes envelope.payload ++ envelope.signature)
  encodePayload payload := some (postcardBytes (utf8 payload.documentId) ++
    varint 10 payload.schemaEpoch.toNat ++ postcardBytes payload.update)

/-- One document whose history of `n` bytes no peer has seen. -/
def longHistory (n : Nat) : DocumentHistory Unit where
  documentInScope _ _ _ := true
  schemaEpoch _ _ _ := some 1
  apply docs _ _ _ := (true, docs)
  documents _ _ := ["doc-1"]
  updatesSince _ _ _ version := if version = [] then some (List.replicate n 0) else none

def shortSecrets : SecretKeys UInt8 UInt8 Bytes := ⟨id, fun _ _ => List.replicate 64 0⟩

theorem length_sealUpdate_le (keys : EndpointKeys UInt8 Bytes) (secrets : SecretKeys UInt8 UInt8 Bytes)
    (scope : ScopeId) (documentId : String) (schemaEpoch : UInt64) (update : Bytes) (secret : UInt8) :
    ∃ envelope, sealUpdate keys secrets (postcardEncoder keys) scope documentId schemaEpoch update secret =
      some envelope ∧ update.length ≤ envelope.length := by
  refine ⟨_, rfl, ?_⟩
  simp only [postcardBytes, UnsignedEnvelope.sign, List.length_append]
  omega

end Zulangue.Share
