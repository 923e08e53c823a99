import Zulangue.Lib.Text

/-!
# Signed envelopes

`vt-share/src/envelope.rs`. What `iroh` and `postcard` supply (keys, signatures and the
compact encoding) is a parameter; the bytes a signature covers are computed here.
-/

namespace Zulangue.Share

open Zulangue.Lib.Text

inductive ScopeId where
  | notebook (notebookId : String)
  | session (sessionId : String)
  deriving DecidableEq, Repr

inductive PayloadKind where
  | documentUpdate
  | roomControl
  | resource
  deriving DecidableEq, Repr

/-- The identities of `iroh`: 32-byte public keys and their signatures. -/
structure EndpointKeys (EndpointId Signature : Type) where
  asBytes : EndpointId → Bytes
  fromBytes : Bytes → Option EndpointId
  fromBytes_asBytes : ∀ k, fromBytes (asBytes k) = some k
  verify : EndpointId → Bytes → Signature → Bool

structure ShareEnvelope (EndpointId Signature : Type) where
  author : EndpointId
  scope : ScopeId
  kind : PayloadKind
  payload : Bytes
  signature : Signature

inductive EnvelopeError where
  | badSignature
  | scopeMismatch
  deriving DecidableEq, Repr

def signingDomain : Bytes := utf8 "zulangue/envelope/v1"

def hexDigit (n : Nat) : Char := "0123456789abcdef".toList.getD n '0'

/-- `serde_json`'s escape of one character inside a string. -/
def jsonEscape (c : Char) : List Char :=
  if c = '"' then ['\\', '"']
  else if c = '\\' then ['\\', '\\']
  else if c.toNat = 0x8 then ['\\', 'b']
  else if c.toNat = 0xc then ['\\', 'f']
  else if c = '\n' then ['\\', 'n']
  else if c = '\r' then ['\\', 'r']
  else if c = '\t' then ['\\', 't']
  else if c.toNat < 0x20 then
    ['\\', 'u', '0', '0', hexDigit (c.toNat / 16), hexDigit (c.toNat % 16)]
  else [c]

def jsonString (s : String) : Bytes :=
  utf8 "\"" ++ (s.toList.flatMap jsonEscape).flatMap String.utf8EncodeChar ++ utf8 "\""

/-- An object with one field: `\x7b"key":value\x7d`. -/
def jsonField (key : String) (value : Bytes) : Bytes :=
  [0x7b] ++ jsonString key ++ utf8 ":" ++ value ++ [0x7d]

def ScopeId.toJson : ScopeId → Bytes
  | .notebook notebookId =>
    jsonField "notebook" (jsonField "notebook_id" (jsonString notebookId))
  | .session sessionId => jsonField "session" (jsonField "session_id" (jsonString sessionId))

def PayloadKind.toJson : PayloadKind → Bytes
  | .documentUpdate => jsonString "document_update"
  | .roomControl => jsonString "room_control"
  | .resource => jsonString "resource"

/-- The `count` low bytes of `n`, lowest first. -/
def leBytes : Nat → Nat → Bytes
  | 0, _ => []
  | count + 1, n => UInt8.ofNat n :: leBytes count (n / 256)

/-- `u64::to_le_bytes`. -/
def u64LeBytes (n : Nat) : Bytes := leBytes 8 n

def pushField (field : Bytes) : Bytes := u64LeBytes field.length ++ field

variable {EndpointId Signature : Type}

/-- The bytes a signature covers, every field behind its length. -/
def signingMessage (keys : EndpointKeys EndpointId Signature) (author : EndpointId)
    (scope : ScopeId) (kind : PayloadKind) (payload : Bytes) : Bytes :=
  pushField signingDomain ++ pushField (keys.asBytes author) ++ pushField scope.toJson ++
    pushField kind.toJson ++ pushField payload

def ShareEnvelope.verify (keys : EndpointKeys EndpointId Signature)
    (envelope : ShareEnvelope EndpointId Signature) (expectedScope : ScopeId) :
    Except EnvelopeError Unit :=
  if envelope.scope ≠ expectedScope then .error .scopeMismatch
  else
    let message :=
      signingMessage keys envelope.author envelope.scope envelope.kind envelope.payload
    if keys.verify envelope.author message envelope.signature then .ok ()
    else .error .badSignature

theorem verify_ok_iff {keys : EndpointKeys EndpointId Signature}
    {envelope : ShareEnvelope EndpointId Signature} {expectedScope : ScopeId} :
    envelope.verify keys expectedScope = .ok () ↔
      envelope.scope = expectedScope ∧
        keys.verify envelope.author (signingMessage keys envelope.author expectedScope
          envelope.kind envelope.payload) envelope.signature = true := by
  unfold ShareEnvelope.verify
  by_cases hscope : envelope.scope = expectedScope
  · subst hscope
    by_cases hsig : keys.verify envelope.author (signingMessage keys envelope.author
        envelope.scope envelope.kind envelope.payload) envelope.signature = true
    · simp [hsig]
    · simp [hsig]
  · simp [hscope]

end Zulangue.Share
