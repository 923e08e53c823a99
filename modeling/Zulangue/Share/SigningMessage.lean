import Zulangue.Lib.PrefixCode
import Zulangue.Share.Envelope

/-!
# What a signature covers

The bytes under a signature determine author, scope, kind and payload. The lengths in front of
the fields are taken modulo `2^64`, so they alone would not do for fields of any length; the
JSON of scopes and kinds ends by itself, and nothing comes behind the payload.
-/

namespace Zulangue.Share

open Zulangue.Lib.Text Zulangue.Lib.PrefixCode

/-! ## JSON strings are read back -/

def hexValue (c : Char) : Nat := "0123456789abcdef".toList.idxOf c

theorem hexValue_hexDigit : ∀ n < 16, hexValue (hexDigit n) = n := by
  decide

/-- The character behind a backslash. -/
def unescapeLetter (c : Char) : Char :=
  if c = 'b' then Char.ofNat 0x8
  else if c = 'f' then Char.ofNat 0xc
  else if c = 'n' then '\n'
  else if c = 'r' then '\r'
  else if c = 't' then '\t'
  else c

/-- Reads one character of a string back. -/
def jsonUnescape : List Char → Option (Char × List Char)
  | [] => none
  | c :: rest =>
    if c = '\\' then
      match rest with
      | [] => none
      | letter :: rest =>
        if letter = 'u' then
          match rest with
          | _ :: _ :: high :: low :: rest =>
            some (Char.ofNat (hexValue high * 16 + hexValue low), rest)
          | _ => none
        else some (unescapeLetter letter, rest)
    else some (c, rest)

theorem eq_ofNat {c : Char} {n : Nat} (h : c.toNat = n) : c = Char.ofNat n := by
  rw [← h, Char.ofNat_toNat]

theorem jsonUnescape_escape (c : Char) (rest : List Char) :
    jsonUnescape (jsonEscape c ++ rest) = some (c, rest) := by
  unfold jsonEscape
  split
  · next h => simp [jsonUnescape, unescapeLetter, h]
  split
  · next h => simp [jsonUnescape, unescapeLetter, h]
  split
  · next h => simp [jsonUnescape, unescapeLetter, eq_ofNat h]
  split
  · next h => simp [jsonUnescape, unescapeLetter, eq_ofNat h]
  split
  · next h => simp [jsonUnescape, unescapeLetter, h]
  split
  · next h => simp [jsonUnescape, unescapeLetter, h]
  split
  · next h => simp [jsonUnescape, unescapeLetter, h]
  split
  · next h =>
    have hdigits : c.toNat / 16 * 16 + c.toNat % 16 = c.toNat := by omega
    have hhigh := hexValue_hexDigit (c.toNat / 16) (by omega)
    have hlow := hexValue_hexDigit (c.toNat % 16) (by omega)
    simp [jsonUnescape, hhigh, hlow, hdigits, Char.ofNat_toNat]
  · next hbackslash _ _ _ _ _ _ => simp [jsonUnescape, hbackslash]

theorem prefixFree_jsonEscape : PrefixFree jsonEscape :=
  prefixFree_of_decode jsonUnescape jsonUnescape_escape

/-- A quote inside a string has a backslash before it. -/
theorem jsonEscape_ne_quote (c : Char) (rest rest' : List UInt8) :
    (jsonEscape c).flatMap String.utf8EncodeChar ++ rest ≠ String.utf8EncodeChar '"' ++ rest' := by
  intro heq
  have hcomparable : jsonEscape c <+: ['"'] ∨ ['"'] <+: jsonEscape c :=
    prefixFree_utf8.flatMap_comparable (jsonEscape c) ['"'] (by simpa using heq)
  have hdecoded : ∀ rest : List Char, jsonUnescape ('"' :: rest) = some ('"', rest) := by
    intro rest
    simp [jsonUnescape]
  have hquote : jsonEscape '"' = ['\\', '"'] := by decide
  rcases hcomparable with ⟨after, hafter⟩ | ⟨after, hafter⟩
  · have hread := jsonUnescape_escape c after
    rw [hafter, hdecoded] at hread
    obtain ⟨rfl, -⟩ := Prod.mk.inj (Option.some.inj hread)
    rw [hquote] at hafter
    simp at hafter
  · have hread := jsonUnescape_escape c []
    rw [List.append_nil, ← hafter, List.singleton_append, hdecoded] at hread
    obtain ⟨rfl, -⟩ := Prod.mk.inj (Option.some.inj hread)
    rw [hquote] at hafter
    simp at hafter

theorem prefixFree_jsonString : PrefixFree jsonString := by
  have hbody := (prefixFree_jsonEscape.flatMap prefixFree_utf8).terminated jsonEscape_ne_quote
  intro s t r r' heq
  have hquote : utf8 "\"" = String.utf8EncodeChar '"' := by decide
  have hstring : ∀ u : String, jsonString u = utf8 "\"" ++
      (u.toList.flatMap (fun c => (jsonEscape c).flatMap String.utf8EncodeChar) ++
        String.utf8EncodeChar '"') := by
    intro u
    rw [jsonString, List.flatMap_assoc, hquote, List.append_assoc]
  rw [hstring s, hstring t, List.append_assoc (utf8 "\""), List.append_assoc (utf8 "\"")] at heq
  obtain ⟨hlist, hrest⟩ := hbody s.toList t.toList r r' (List.append_cancel_left heq)
  exact ⟨String.toList_inj.mp hlist, hrest⟩

/-! ## Scopes and kinds -/

theorem jsonField_append (key : String) (value r : Bytes) :
    jsonField key value ++ r = [0x7b] ++ (jsonString key ++ (utf8 ":" ++ (value ++ ([0x7d] ++ r)))) := by
  simp [jsonField]

/-- Objects with one field are equal only with the same key and value. -/
theorem jsonField_inj {key key' : String} {value value' r r' : Bytes}
    (h : jsonField key value ++ r = jsonField key' value' ++ r') :
    key = key' ∧ value ++ ([0x7d] ++ r) = value' ++ ([0x7d] ++ r') := by
  rw [jsonField_append, jsonField_append] at h
  obtain ⟨hkey, hrest⟩ := prefixFree_jsonString _ _ _ _ (List.append_cancel_left h)
  exact ⟨hkey, List.append_cancel_left hrest⟩

theorem prefixFree_scope : PrefixFree ScopeId.toJson := by
  intro scope scope' r r' h
  cases scope with
  | notebook id =>
    cases scope' with
    | notebook id' =>
      obtain ⟨-, houter⟩ := jsonField_inj h
      obtain ⟨-, hinner⟩ := jsonField_inj houter
      obtain ⟨rfl, hrest⟩ := prefixFree_jsonString _ _ _ _ hinner
      exact ⟨rfl, List.append_cancel_left (List.append_cancel_left hrest)⟩
    | session id' => exact absurd (jsonField_inj h).1 (by decide)
  | session id =>
    cases scope' with
    | notebook id' => exact absurd (jsonField_inj h).1 (by decide)
    | session id' =>
      obtain ⟨-, houter⟩ := jsonField_inj h
      obtain ⟨-, hinner⟩ := jsonField_inj houter
      obtain ⟨rfl, hrest⟩ := prefixFree_jsonString _ _ _ _ hinner
      exact ⟨rfl, List.append_cancel_left (List.append_cancel_left hrest)⟩

/-- The name serde gives a kind. -/
def PayloadKind.name : PayloadKind → String
  | .documentUpdate => "document_update"
  | .roomControl => "room_control"
  | .resource => "resource"

theorem kindName_injective : Function.Injective PayloadKind.name := by
  intro kind kind' h
  cases kind <;> cases kind' <;> simp_all [PayloadKind.name]

theorem prefixFree_kind : PrefixFree PayloadKind.toJson := by
  have hname : ∀ kind : PayloadKind, kind.toJson = jsonString kind.name := by
    intro kind
    cases kind <;> rfl
  intro kind kind' r r' h
  rw [hname, hname] at h
  obtain ⟨heq, hrest⟩ := prefixFree_jsonString _ _ _ _ h
  exact ⟨kindName_injective heq, hrest⟩

/-! ## The whole message -/

theorem length_leBytes (count n : Nat) : (leBytes count n).length = count := by
  induction count generalizing n with
  | zero => rfl
  | succ count ih => simp [leBytes, ih]

theorem length_u64LeBytes (n : Nat) : (u64LeBytes n).length = 8 := length_leBytes 8 n

/-- Behind a length comes a field, whatever the length says. -/
theorem pushField_inj {field field' r r' : Bytes} (h : pushField field ++ r = pushField field' ++ r') :
    field ++ r = field' ++ r' := by
  simp only [pushField, List.append_assoc] at h
  exact (List.append_inj h (by rw [length_u64LeBytes, length_u64LeBytes])).2

section
variable {EndpointId Signature SecretKey : Type} {keys : EndpointKeys EndpointId Signature}

theorem asBytes_injective (keys : EndpointKeys EndpointId Signature) :
    Function.Injective keys.asBytes := by
  intro author author' h
  have hread : some author = some author' := by
    rw [← keys.fromBytes_asBytes author, ← keys.fromBytes_asBytes author', h]
  exact Option.some.inj hread

/-- Keys are 32 bytes. -/
def FixedKeys (keys : EndpointKeys EndpointId Signature) : Prop := ∀ k, (keys.asBytes k).length = 32

theorem signingMessage_inj (hkeys : FixedKeys keys) {author author' : EndpointId}
    {scope scope' : ScopeId} {kind kind' : PayloadKind} {payload payload' : Bytes}
    (h : signingMessage keys author scope kind payload =
      signingMessage keys author' scope' kind' payload') :
    author = author' ∧ scope = scope' ∧ kind = kind' ∧ payload = payload' := by
  simp only [signingMessage, List.append_assoc] at h
  have hauthor := pushField_inj (List.append_cancel_left h)
  obtain ⟨hbytes, hscoped⟩ := List.append_inj hauthor (by rw [hkeys, hkeys])
  obtain ⟨rfl, hkinded⟩ := prefixFree_scope _ _ _ _ (pushField_inj hscoped)
  obtain ⟨rfl, hrest⟩ := prefixFree_kind _ _ _ _ (pushField_inj hkinded)
  have hpayload : payload ++ [] = payload' ++ [] := pushField_inj (by simpa using hrest)
  exact ⟨asBytes_injective keys hbytes, rfl, rfl, by simpa using hpayload⟩

/-! ## Signing -/

/-- The secret halves of the identities. -/
structure SecretKeys (SecretKey EndpointId Signature : Type) where
  publicKey : SecretKey → EndpointId
  sign : SecretKey → Bytes → Signature

structure UnsignedEnvelope where
  scope : ScopeId
  kind : PayloadKind
  payload : Bytes
  deriving DecidableEq, Repr

def UnsignedEnvelope.message (keys : EndpointKeys EndpointId Signature) (unsigned : UnsignedEnvelope)
    (author : EndpointId) : Bytes :=
  signingMessage keys author unsigned.scope unsigned.kind unsigned.payload

def UnsignedEnvelope.sign (keys : EndpointKeys EndpointId Signature)
    (secrets : SecretKeys SecretKey EndpointId Signature) (unsigned : UnsignedEnvelope)
    (secret : SecretKey) : ShareEnvelope EndpointId Signature :=
  let author := secrets.publicKey secret
  { author
    scope := unsigned.scope
    kind := unsigned.kind
    payload := unsigned.payload
    signature := secrets.sign secret (unsigned.message keys author) }

/-- A signature verifies under a key only for the very bytes its holder signed. -/
def Unforgeable (keys : EndpointKeys EndpointId Signature)
    (secrets : SecretKeys SecretKey EndpointId Signature)
    (signed : List (SecretKey × UnsignedEnvelope)) : Prop :=
  ∀ author message signature, keys.verify author message signature = true →
    ∃ call ∈ signed, secrets.publicKey call.1 = author ∧ call.2.message keys author = message

end

/-! ## One signed envelope -/

/-- Keys of one byte, under which nothing but `message` was signed, and by key 7. -/
def oneSignature (message : Bytes) : EndpointKeys UInt8 Bytes where
  asBytes k := List.replicate 32 k
  fromBytes bytes := bytes.head?
  fromBytes_asBytes _ := rfl
  verify author signed signature := decide (author = 7 ∧ signed = message ∧ signature = signed)

theorem oneSignature_verify {message signed signature : Bytes} {author : UInt8} :
    (oneSignature message).verify author signed signature = true ↔
      author = 7 ∧ signed = message ∧ signature = signed :=
  decide_eq_true_iff

def plainSecrets : SecretKeys UInt8 UInt8 Bytes := ⟨id, fun _ message => message⟩

def sharedNote : UnsignedEnvelope := ⟨.session "ab", .resource, [0x63]⟩

def noteKeys : EndpointKeys UInt8 Bytes := oneSignature (sharedNote.message (oneSignature []) 7)

end Zulangue.Share
