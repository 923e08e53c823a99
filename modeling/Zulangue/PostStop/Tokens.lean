import Mathlib.Data.List.Nodup

/-!
# The tokens of a transcript

An asynchronous transcript (`soniox_async.rs`) on its way to the receipt (`transcribe_api.rs`):
it passes the de-duplication that was made for realtime tokens.
-/

namespace Zulangue.PostStop

inductive TranslationStatus where
  | none
  | original
  | translation
  deriving DecidableEq, Repr

/-- `confidence` by its bits. -/
structure Token where
  text : String
  startMs : Nat
  endMs : Nat
  isFinal : Bool
  language : String
  speaker : Option String
  confidence : UInt32
  translationStatus : TranslationStatus
  deriving DecidableEq, Repr

inductive SpeakerLabel where
  | text (value : String)
  | number (value : Int)
  deriving DecidableEq, Repr

/-- As it is decoded: a number that is missing is 0. -/
structure AsyncTranscriptToken where
  text : String
  startMs : Nat
  endMs : Nat
  confidence : UInt32
  language : Option String
  speaker : Option SpeakerLabel
  translationStatus : Option String
  deriving DecidableEq, Repr

def SpeakerLabel.value : SpeakerLabel → String
  | .text value => value
  | .number value => toString value

def modelTranslationStatus (status : Option String) : TranslationStatus :=
  if status = some "original" then .original
  else if status = some "translation" then .translation
  else .none

def intoModelToken (token : AsyncTranscriptToken) : Token where
  text := token.text
  startMs := token.startMs
  endMs := token.endMs
  isFinal := true
  language := token.language.getD ""
  speaker := token.speaker.map SpeakerLabel.value
  confidence := token.confidence
  translationStatus := modelTranslationStatus token.translationStatus

/-! ## De-duplication -/

abbrev TokenKey := Nat × TranslationStatus

def Token.key (t : Token) : TokenKey := (t.startMs, t.translationStatus)

structure ByKey where
  byKey : TokenKey → Option Token
  order : List TokenKey

def ByKey.empty : ByKey := ⟨fun _ => none, []⟩

/-- The latest token of a key replaces the others, at the place of the first. -/
def ByKey.insert (m : ByKey) (t : Token) : ByKey where
  byKey := Function.update m.byKey t.key (some t)
  order := if (m.byKey t.key).isSome then m.order else m.order ++ [t.key]

/-- `filter_map` with `remove`. -/
def removeAll : List TokenKey → (TokenKey → Option Token) → List Token
  | [], _ => []
  | k :: rest, byKey => (byKey k).toList ++ removeAll rest (Function.update byKey k none)

def dedupeSonioxTokens (tokens : List Token) : List Token :=
  let m := tokens.foldl ByKey.insert .empty
  removeAll m.order m.byKey

/-- What `finish_transcribe_task_output` persists of a transcript. -/
structure TranscribeOutput where
  tokens : List Token
  fullText : String
  tokenCount : Nat
  deriving DecidableEq, Repr

def transcribeOutput (transcript : List AsyncTranscriptToken) : TranscribeOutput :=
  let deduped := dedupeSonioxTokens (transcript.map intoModelToken)
  { tokens := deduped
    fullText := String.join (deduped.map Token.text)
    tokenCount := deduped.length % 4294967296 }

/-- The receipt has the transcript as it is. -/
def Whole (transcript : List AsyncTranscriptToken) : Prop :=
  (transcribeOutput transcript).tokens = transcript.map intoModelToken ∧
    (transcribeOutput transcript).fullText = String.join (transcript.map AsyncTranscriptToken.text)

def AsyncTranscriptToken.key (token : AsyncTranscriptToken) : TokenKey :=
  (token.startMs, modelTranslationStatus token.translationStatus)

/-! ## What is kept -/

/-- The keys in order, each with a token of its own. -/
structure ByKey.Ok (m : ByKey) : Prop where
  nodup : m.order.Nodup
  mem_order : ∀ k, k ∈ m.order ↔ (m.byKey k).isSome = true
  own : ∀ k t, m.byKey k = some t → t.key = k

theorem ByKey.empty_ok : ByKey.empty.Ok :=
  ⟨List.nodup_nil, fun _ => ⟨fun h => (by cases h), fun h => (by cases h)⟩, fun _ _ h => (by cases h)⟩

theorem ByKey.Ok.insert {m : ByKey} (h : m.Ok) (t : Token) : (m.insert t).Ok := by
  have hmem : ∀ k, k ∈ (m.insert t).order ↔ k ∈ m.order ∨ k = t.key := by
    intro k
    rw [ByKey.insert]
    dsimp only
    split
    next hsome =>
      refine ⟨.inl, ?_⟩
      rintro (hold | rfl)
      · exact hold
      · exact (h.mem_order _).mpr hsome
    · rw [List.mem_append, List.mem_singleton]
  constructor
  · rw [ByKey.insert]
    dsimp only
    split
    · exact h.nodup
    next hnew =>
      rw [List.nodup_append]
      refine ⟨h.nodup, List.nodup_singleton _, ?_⟩
      rintro k hk k' hk' rfl
      rw [List.mem_singleton] at hk'
      subst hk'
      exact hnew ((h.mem_order _).mp hk)
  · intro k
    rw [hmem, ByKey.insert]
    dsimp only
    by_cases hk : k = t.key
    · subst hk
      simp
    · rw [Function.update_of_ne hk, h.mem_order]
      exact or_iff_left hk
  · intro k t' hget
    rw [ByKey.insert] at hget
    dsimp only at hget
    by_cases hk : k = t.key
    · subst hk
      rw [Function.update_self] at hget
      rw [← Option.some.inj hget]
    · rw [Function.update_of_ne hk] at hget
      exact h.own k t' hget

theorem ByKey.Ok.foldl {m : ByKey} (h : m.Ok) (tokens : List Token) : (tokens.foldl ByKey.insert m).Ok := by
  induction tokens generalizing m with
  | nil => exact h
  | cons t rest ih => exact ih (h.insert t)

theorem removeAll_eq {keys : List TokenKey} (h : keys.Nodup) (byKey : TokenKey → Option Token) :
    removeAll keys byKey = keys.filterMap byKey := by
  induction keys generalizing byKey with
  | nil => rfl
  | cons k rest ih =>
    obtain ⟨hk, hrest⟩ := List.nodup_cons.mp h
    have hsame : rest.filterMap (Function.update byKey k none) = rest.filterMap byKey := by
      apply List.filterMap_congr
      intro j hj
      refine Function.update_of_ne ?_ _ _
      rintro rfl
      exact hk hj
    rw [removeAll, ih hrest, hsame, List.filterMap_cons]
    cases byKey k with
    | none => rfl
    | some t => rfl

theorem filterMap_keys {m : ByKey} (h : m.Ok) (keys : List TokenKey) (hkeys : ∀ k ∈ keys, (m.byKey k).isSome = true) :
    (keys.filterMap m.byKey).map Token.key = keys := by
  induction keys with
  | nil => rfl
  | cons k rest ih =>
    obtain ⟨t, ht⟩ := Option.isSome_iff_exists.mp (hkeys k List.mem_cons_self)
    rw [List.filterMap_cons_some ht, List.map_cons, h.own k t ht, ih fun j hj => hkeys j (List.mem_cons_of_mem _ hj)]

/-- No two tokens of the result share a key. -/
theorem dedupe_nodup (tokens : List Token) : ((dedupeSonioxTokens tokens).map Token.key).Nodup := by
  have hok := ByKey.empty_ok.foldl tokens
  rw [dedupeSonioxTokens, removeAll_eq hok.nodup, filterMap_keys hok _ fun k hk => (hok.mem_order k).mp hk]
  exact hok.nodup

/-- Tokens of new keys are appended. -/
theorem foldl_insert_fresh {m : ByKey} (tokens : List Token) (hnodup : (tokens.map Token.key).Nodup)
    (hfresh : ∀ t ∈ tokens, m.byKey t.key = none) :
    (tokens.foldl ByKey.insert m).order = m.order ++ tokens.map Token.key ∧
      (∀ t ∈ tokens, (tokens.foldl ByKey.insert m).byKey t.key = some t) ∧
      ∀ k, k ∉ tokens.map Token.key → (tokens.foldl ByKey.insert m).byKey k = m.byKey k := by
  induction tokens generalizing m with
  | nil => exact ⟨(List.append_nil _).symm, fun _ h => (by cases h), fun _ _ => rfl⟩
  | cons t rest ih =>
    obtain ⟨ht, hrest⟩ := List.nodup_cons.mp hnodup
    have hfresh' : ∀ t' ∈ rest, (m.insert t).byKey t'.key = none := by
      intro t' ht'
      have hne : t'.key ≠ t.key := fun heq => ht (heq ▸ List.mem_map_of_mem ht')
      exact (Function.update_of_ne hne _ _).trans (hfresh t' (List.mem_cons_of_mem _ ht'))
    obtain ⟨horder, hmem, hother⟩ := ih hrest hfresh'
    have hnew : (m.insert t).order = m.order ++ [t.key] := by
      rw [ByKey.insert]
      dsimp only
      rw [hfresh t List.mem_cons_self]
      rfl
    refine ⟨?_, ?_, ?_⟩
    · rw [List.foldl_cons, horder, hnew, List.append_assoc]
      rfl
    · intro t' ht'
      rw [List.foldl_cons]
      obtain rfl | ht' := List.mem_cons.mp ht'
      · rw [hother _ ht]
        exact Function.update_self _ _ _
      · exact hmem t' ht'
    · intro k hk
      rw [List.map_cons, List.mem_cons, not_or] at hk
      rw [List.foldl_cons, hother k hk.2]
      exact Function.update_of_ne hk.1 _ _

theorem dedupe_of_nodup {tokens : List Token} (h : (tokens.map Token.key).Nodup) : dedupeSonioxTokens tokens = tokens := by
  obtain ⟨horder, hmem, -⟩ := foldl_insert_fresh (m := .empty) tokens h fun _ _ => rfl
  rw [show ByKey.empty.order = [] from rfl, List.nil_append] at horder
  rw [dedupeSonioxTokens, horder, removeAll_eq h, List.filterMap_map]
  have hsome : tokens.filterMap ((tokens.foldl ByKey.insert .empty).byKey ∘ Token.key) = tokens.filterMap some := by
    apply List.filterMap_congr
    exact hmem
  rw [hsome, List.filterMap_some]

theorem intoModelToken_key : Token.key ∘ intoModelToken = AsyncTranscriptToken.key := rfl

/-- A transcript is kept whole exactly when no two of its tokens share start time and status. -/
theorem whole_iff (transcript : List AsyncTranscriptToken) :
    Whole transcript ↔ (transcript.map AsyncTranscriptToken.key).Nodup := by
  rw [← intoModelToken_key, ← List.map_map]
  constructor
  · rintro ⟨htokens, -⟩
    have hnodup := dedupe_nodup (transcript.map intoModelToken)
    rw [transcribeOutput] at htokens
    dsimp only at htokens
    rwa [htokens] at hnodup
  · intro hnodup
    have hkept := dedupe_of_nodup hnodup
    constructor
    · exact hkept
    · rw [transcribeOutput]
      dsimp only
      rw [hkept, List.map_map]
      rfl

/-- Two words without a start time. -/
theorem untimed_word_is_lost :
    ¬ Whole [⟨"Hello", 0, 0, 0, none, none, none⟩, ⟨" world", 0, 0, 0, none, none, none⟩] := by
  rw [Whole]
  decide

end Zulangue.PostStop
