import Zulangue.Lib.Tally
import Zulangue.Lib.Word

/-!
# How much of the live captions is rewritten

The `ErasureMeter` of `vt-ffi/src/capture_erasure.rs`: for every lane of an utterance the text
last presented, for every language what was appended and erased and what is presented now.
Only the fields of an utterance that the meter reads are modelled. `none` is a `u64` addition
that overflows, or a text that no longer fits into memory.
-/

namespace Zulangue.Captions

open Zulangue.Lib.Tally Zulangue.Lib.Word

/-- A source lane is keyed by role, not by language. -/
def sourceRoleKey : String := "#source"

structure LaneTotals where
  updates : Nat
  erasedChars : Nat
  appendedChars : Nat
  presentedChars : Nat
  deriving DecidableEq, Repr

instance : Inhabited LaneTotals := ⟨⟨0, 0, 0, 0⟩⟩

abbrev LaneKey := Nat × String

/-- `chars().count()`. -/
def charCount (text : String) : Nat := text.toList.length

def allChars (texts : Map LaneKey String) : Nat := total (fun _ text => charCount text) texts

/-- The texts of the map are in memory together, so their characters are fewer than addresses. -/
structure Presented where
  texts : Map LaneKey String
  inMemory : allChars texts ≤ u64Max

/-- `HashMap::insert`, unless the text finds no memory. -/
def Presented.insert (presented : Presented) (key : LaneKey) (text : String) : Option Presented :=
  if h : allChars (presented.texts.insert key text) ≤ u64Max then
    some ⟨presented.texts.insert key text, h⟩
  else none

structure ErasureMeter where
  sessionId : Option String
  presented : Presented
  laneLanguage : Map LaneKey String
  totals : Map String LaneTotals

def ErasureMeter.new : ErasureMeter where
  sessionId := none
  presented := ⟨∅, Nat.zero_le _⟩
  laneLanguage := ∅
  totals := ∅

structure LanguageVariant where
  language : String
  role : String
  text : Option String
  deriving DecidableEq, Repr

/-- `FfiNotebookCaptureUtterance`. -/
structure CaptureUtterance where
  sequence : Nat
  sourceLanguage : String
  provisionalSourceLanguage : Option String
  sourceText : String
  translatedLanguage : Option String
  translatedText : Option String
  languageVariants : List LanguageVariant
  deriving DecidableEq, Repr

/-- `+=` on `u64`. -/
def checkedAdd (a b : Nat) : Option Nat := if a + b ≤ u64Max then some (a + b) else none

theorem checkedAdd_eq_some {a b c : Nat} : checkedAdd a b = some c ↔ a + b ≤ u64Max ∧ a + b = c := by
  simp only [checkedAdd, Option.ite_none_right_eq_some, Option.some.injEq]

def commonPrefixChars (left right : String) : Nat :=
  ((left.toList.zip right.toList).takeWhile fun pair => pair.1 = pair.2).length

namespace ErasureMeter

/-- The entry of a language, or what `or_default` puts there. -/
def totalsOf (meter : ErasureMeter) (language : String) : LaneTotals :=
  (meter.totals.lookup language).getD default

def previousText (meter : ErasureMeter) (key : LaneKey) : String :=
  (meter.presented.texts.lookup key).getD ""

/-- `presented_chars -= moved` on the entry of the old language, if there is one. -/
def withdraw (totals : Map String LaneTotals) (language : String) (moved : Nat) :
    Map String LaneTotals :=
  match totals.lookup language with
  | some entry => totals.insert language { entry with presentedChars := entry.presentedChars - moved }
  | none => totals

/-- Moves the characters of a lane that were already counted to the language it now has. -/
def migrateLaneLanguage (meter : ErasureMeter) (key : LaneKey) (language : String)
    (laneChars : Nat) : Option ErasureMeter :=
  match (meter.laneLanguage.lookup key).filter (· ≠ language) with
  | none => some meter
  | some previousLanguage =>
    let moved := ((meter.totals.lookup previousLanguage).map
      fun totals => min totals.presentedChars laneChars).getD 0
    let left := withdraw meter.totals previousLanguage moved
    let entry := (left.lookup language).getD default
    (checkedAdd entry.presentedChars moved).map fun presentedChars =>
      { meter with
        totals := left.insert language { entry with presentedChars }
        laneLanguage := meter.laneLanguage.insert key language }

/-- Replaces what the lane counts in its language, and counts what that erased and appended. -/
def replaceLane (meter : ErasureMeter) (key : LaneKey) (language text : String) :
    Option ErasureMeter := do
  let previous := meter.previousText key
  let common := commonPrefixChars previous text
  let previousChars := charCount previous
  let nextChars := charCount text
  let erased := previousChars - common
  let appended := nextChars - common
  let totals := meter.totalsOf language
  let updates ← checkedAdd totals.updates 1
  let erasedChars ← checkedAdd totals.erasedChars erased
  let appendedChars ← checkedAdd totals.appendedChars appended
  let presentedChars := saturatingAdd (totals.presentedChars - previousChars) nextChars
  let presented ← meter.presented.insert key text
  return { meter with
    presented
    laneLanguage := meter.laneLanguage.insert key language
    totals := meter.totals.insert language { updates, erasedChars, appendedChars, presentedChars } }

def record (meter : ErasureMeter) (sequence : Nat) (role language text : String) :
    Option ErasureMeter :=
  let key := (sequence, role)
  let previous := meter.previousText key
  -- an identity can be committed on words that stay as they are
  (meter.migrateLaneLanguage key language (charCount previous)).bind fun meter =>
    if previous = text then some meter else meter.replaceLane key language text

/-- Empty texts are not recorded. -/
def recordUnlessEmpty (meter : ErasureMeter) (sequence : Nat) (role language text : String) :
    Option ErasureMeter :=
  if text = "" then some meter else meter.record sequence role language text

def absorbVariant (utterance : CaptureUtterance) (meter : ErasureMeter) (variant : LanguageVariant) :
    Option ErasureMeter :=
  match variant.text with
  | none => some meter
  | some text =>
    if variant.role = "source" then
      meter.recordUnlessEmpty utterance.sequence sourceRoleKey
        (utterance.provisionalSourceLanguage.getD variant.language) text
    else meter.recordUnlessEmpty utterance.sequence variant.language variant.language text

/-- The variants are authoritative wherever they exist. -/
def absorbUtterance (meter : ErasureMeter) (utterance : CaptureUtterance) : Option ErasureMeter :=
  if utterance.languageVariants = [] then
    let sourceLanguage := utterance.provisionalSourceLanguage.getD utterance.sourceLanguage
    (meter.recordUnlessEmpty utterance.sequence sourceRoleKey sourceLanguage utterance.sourceText).bind
      fun meter =>
        match utterance.translatedLanguage, utterance.translatedText with
        | some language, some text =>
          meter.recordUnlessEmpty utterance.sequence language language text
        | _, _ => some meter
  else utterance.languageVariants.foldlM (absorbVariant utterance) meter

/-- Logs the totals of the session and drops everything. -/
def finishSession (meter : ErasureMeter) : ErasureMeter :=
  match meter.sessionId with
  | none => meter
  | some _ => .new

def rollSession (meter : ErasureMeter) (sessionId : String) : ErasureMeter :=
  if meter.sessionId = some sessionId then meter
  else { meter.finishSession with sessionId := some sessionId }

/-- `absorb_event_utterances` and `absorb_preview`. -/
def absorb (meter : ErasureMeter) (sessionId : String) (utterances : List CaptureUtterance) :
    Option ErasureMeter :=
  utterances.foldlM absorbUtterance (meter.rollSession sessionId)

end ErasureMeter

/-- What the callback dispatcher does with the meter. -/
inductive MeterCall where
  | event (sessionId : String) (utterances : List CaptureUtterance)
  | preview (sessionId : String) (utterances : List CaptureUtterance)
  | finish
  deriving Repr

namespace ErasureMeter

def call (meter : ErasureMeter) : MeterCall → Option ErasureMeter
  | .event sessionId utterances => meter.absorb sessionId utterances
  | .preview sessionId utterances => meter.absorb sessionId utterances
  | .finish => some meter.finishSession

def run (calls : List MeterCall) : Option ErasureMeter := calls.foldlM call .new

/-! ## What the totals are to say -/

/-- The characters presented on lanes filed under a language. -/
def filed (meter : ErasureMeter) (language : String) : Nat :=
  total (fun key text => if meter.laneLanguage.lookup key = some language then charCount text else 0)
    meter.presented.texts

/-- A counter over all languages. -/
def overall (count : LaneTotals → Nat) (meter : ErasureMeter) : Nat :=
  total (fun _ totals => count totals) meter.totals

structure Conserved (meter : ErasureMeter) : Prop where
  sameLanes : ∀ key, meter.laneLanguage.lookup key = none ↔ meter.presented.texts.lookup key = none
  presented : ∀ language, (meter.totalsOf language).presentedChars = meter.filed language
  balance : meter.overall (·.appendedChars) =
    meter.overall (·.erasedChars) + meter.overall (·.presentedChars)

theorem conserved_new : Conserved .new where
  sameLanes key := by simp [new]
  presented language := by simp [totalsOf, filed, new, default]
  balance := by simp [overall, new]

/-! ## One lane -/

/-- What lanes other than `key` present under a language. -/
def others (meter : ErasureMeter) (key : LaneKey) (language : String) : Nat :=
  rest (fun lane text => if meter.laneLanguage.lookup lane = some language then charCount text else 0)
    key meter.presented.texts

@[simp] theorem charCount_empty : charCount "" = 0 := rfl

theorem filed_split (meter : ErasureMeter) (key : LaneKey) (language : String) :
    meter.filed language = (if meter.laneLanguage.lookup key = some language then
      charCount (meter.previousText key) else 0) + meter.others key language := by
  rw [filed, total_split _ key, others, part, previousText]
  cases meter.presented.texts.lookup key <;> simp

/-- After a write to lane `key`, the other lanes present what they did. -/
theorem others_congr (meter after : ErasureMeter) (key : LaneKey) (text : String)
    (hlane : ∀ lane, lane ≠ key → after.laneLanguage.lookup lane = meter.laneLanguage.lookup lane)
    (htexts : after.presented.texts = meter.presented.texts ∨
      after.presented.texts = meter.presented.texts.insert key text) (language : String) :
    after.others key language = meter.others key language := by
  have hcongr : ∀ texts : Map LaneKey String,
      rest (fun lane text => if after.laneLanguage.lookup lane = some language then charCount text else 0)
        key texts =
      rest (fun lane text => if meter.laneLanguage.lookup lane = some language then charCount text else 0)
        key texts := by
    intro texts
    apply rest_congr
    intro lane hne
    rw [hlane lane hne]
  rcases htexts with h | h <;> simp only [others, h, hcongr, rest_insert]

theorem lookup_insert_eq (key lane : LaneKey) (language : String) (lanes : Map LaneKey String) :
    (lanes.insert key language).lookup lane =
      if lane = key then some language else lanes.lookup lane := by
  split
  · next h => rw [h, AList.lookup_insert]
  · next h => rw [AList.lookup_insert_ne h]

/-- A language's entry is what it adds to any counter. -/
theorem part_totals {c : LaneTotals → Nat} (hzero : c default = 0)
    (totals : Map String LaneTotals) (language : String) :
    part (fun _ entry => c entry) language totals = c ((totals.lookup language).getD default) := by
  rw [part]
  cases totals.lookup language <;> simp [hzero]

/-- A counter after one entry is replaced. -/
theorem total_replace {c : LaneTotals → Nat} (hzero : c default = 0)
    (totals : Map String LaneTotals) (language : String) (entry : LaneTotals) :
    total (fun _ totals => c totals) (totals.insert language entry) +
        c ((totals.lookup language).getD default) =
      total (fun _ totals => c totals) totals + c entry := by
  have hsplit := total_split (fun _ entry => c entry) language totals
  have hafter := total_insert (fun _ entry => c entry) language entry totals
  have hpart := part_totals hzero totals language
  omega

theorem entry_insert (totals : Map String LaneTotals) (at_ language : String) (entry : LaneTotals) :
    ((totals.insert at_ entry).lookup language).getD default =
      if language = at_ then entry else (totals.lookup language).getD default := by
  split
  · next h => rw [h, AList.lookup_insert, Option.getD_some]
  · next h => rw [AList.lookup_insert_ne h]

/-! ## A lane gets another language -/

theorem withdraw_entry (totals : Map String LaneTotals) (language other : String) (moved : Nat) :
    ((withdraw totals language moved).lookup other).getD default =
      if other = language then
        { (totals.lookup language).getD default with
          presentedChars := ((totals.lookup language).getD default).presentedChars - moved }
      else (totals.lookup other).getD default := by
  cases h : totals.lookup language with
  | none =>
    simp only [withdraw, h]
    split
    · next heq =>
      rw [heq, h]
      simp [default]
    · rfl
  | some entry =>
    simp only [withdraw, h, entry_insert, Option.getD_some]

/-- A migration leaves the meter alone, or moves `moved` characters from one entry to another. -/
theorem migrate_cases {meter after : ErasureMeter} {key : LaneKey} {language : String} {laneChars : Nat}
    (h : meter.migrateLaneLanguage key language laneChars = some after) :
    (after = meter ∧ ∀ previous, meter.laneLanguage.lookup key = some previous → previous = language) ∨
    ∃ previous moved entry, meter.laneLanguage.lookup key = some previous ∧ previous ≠ language ∧
      moved = min (meter.totalsOf previous).presentedChars laneChars ∧
      entry = ((withdraw meter.totals previous moved).lookup language).getD default ∧
      entry.presentedChars + moved ≤ u64Max ∧
      after = { meter with
        totals := (withdraw meter.totals previous moved).insert language
          { entry with presentedChars := entry.presentedChars + moved }
        laneLanguage := meter.laneLanguage.insert key language } := by
  unfold migrateLaneLanguage at h
  cases hlane : meter.laneLanguage.lookup key with
  | none =>
    left
    simp only [hlane, Option.filter_none, Option.some.injEq] at h
    exact ⟨h.symm, by simp⟩
  | some previous =>
    by_cases hsame : previous = language
    · left
      simp only [hlane, hsame, Option.filter_some, ne_eq, not_true_eq_false, decide_false,
        Bool.false_eq_true, if_false, Option.some.injEq] at h
      refine ⟨h.symm, ?_⟩
      intro other hother
      rw [← Option.some.inj hother, hsame]
    · right
      simp only [hlane, Option.filter_some, ne_eq, hsame, not_false_eq_true, decide_true, if_true] at h
      have hmoved : ((meter.totals.lookup previous).map
          fun totals => min totals.presentedChars laneChars).getD 0 =
          min (meter.totalsOf previous).presentedChars laneChars := by
        rw [totalsOf]
        cases meter.totals.lookup previous <;> simp [default]
      obtain ⟨presentedChars, hadd, rfl⟩ := Option.map_eq_some_iff.mp h
      rw [hmoved] at hadd ⊢
      obtain ⟨hfits, rfl⟩ := checkedAdd_eq_some.mp hadd
      exact ⟨previous, _, _, rfl, hsame, rfl, rfl, hfits, rfl⟩

/-- What was appended and erased stays where it was counted. -/
theorem migrate_counts {meter after : ErasureMeter} {key : LaneKey} {language : String} {laneChars : Nat}
    (h : meter.migrateLaneLanguage key language laneChars = some after) (other : String) :
    (after.totalsOf other).erasedChars = (meter.totalsOf other).erasedChars ∧
      (after.totalsOf other).appendedChars = (meter.totalsOf other).appendedChars ∧
      (after.totalsOf other).updates = (meter.totalsOf other).updates := by
  obtain ⟨rfl, -⟩ | ⟨previous, moved, entry, -, -, -, hentry, -, rfl⟩ := migrate_cases h
  · exact ⟨rfl, rfl, rfl⟩
  · simp only [totalsOf, entry_insert]
    split
    · next hother =>
      rw [hother, hentry, withdraw_entry]
      split
      · next hsame =>
        rw [hsame]
        exact ⟨rfl, rfl, rfl⟩
      · exact ⟨rfl, rfl, rfl⟩
    · rw [withdraw_entry]
      split
      · next hsame =>
        rw [hsame]
        exact ⟨rfl, rfl, rfl⟩
      · exact ⟨rfl, rfl, rfl⟩

/-- A counter that is not `presentedChars` adds up to the same after a withdrawal. -/
theorem total_withdraw {c : LaneTotals → Nat} (hzero : c default = 0)
    (hcount : ∀ (entry : LaneTotals) n, c { entry with presentedChars := n } = c entry)
    (totals : Map String LaneTotals) (language : String) (moved : Nat) :
    total (fun _ entry => c entry) (withdraw totals language moved) =
      total (fun _ entry => c entry) totals := by
  cases h : totals.lookup language with
  | none => simp only [withdraw, h]
  | some entry =>
    have hreplace := total_replace hzero totals language
      { entry with presentedChars := entry.presentedChars - moved }
    simp only [h, Option.getD_some, hcount] at hreplace
    simp only [withdraw, h]
    omega

theorem migrate_overall {c : LaneTotals → Nat} (hzero : c default = 0)
    (hcount : ∀ (entry : LaneTotals) n, c { entry with presentedChars := n } = c entry)
    {meter after : ErasureMeter} {key : LaneKey} {language : String} {laneChars : Nat}
    (h : meter.migrateLaneLanguage key language laneChars = some after) :
    after.overall c = meter.overall c := by
  obtain ⟨rfl, -⟩ | ⟨previous, moved, entry, -, -, -, hentry, -, rfl⟩ := migrate_cases h
  · rfl
  · have hreplace := total_replace hzero (withdraw meter.totals previous moved) language
      { entry with presentedChars := entry.presentedChars + moved }
    rw [← hentry, hcount entry (entry.presentedChars + moved), total_withdraw hzero hcount] at hreplace
    simp only [overall]
    omega

/-- All that is presented is still presented, under one language or the other. -/
theorem total_presented_withdraw (totals : Map String LaneTotals) (language : String) {moved : Nat}
    (hmoved : moved ≤ ((totals.lookup language).getD default).presentedChars) :
    total (fun _ entry => entry.presentedChars) (withdraw totals language moved) + moved =
      total (fun _ entry => entry.presentedChars) totals := by
  cases h : totals.lookup language with
  | none =>
    simp only [h, Option.getD_none, default] at hmoved
    simp only [withdraw, h]
    omega
  | some entry =>
    have hreplace := total_replace (c := (·.presentedChars)) rfl totals language
      { entry with presentedChars := entry.presentedChars - moved }
    simp only [h, Option.getD_some] at hreplace hmoved
    simp only [withdraw, h]
    omega

theorem migrate_presented {meter after : ErasureMeter} {key : LaneKey} {language : String}
    {laneChars : Nat} (h : meter.migrateLaneLanguage key language laneChars = some after) :
    after.overall (·.presentedChars) = meter.overall (·.presentedChars) := by
  obtain ⟨rfl, -⟩ | ⟨previous, moved, entry, -, -, hmoved, hentry, -, rfl⟩ := migrate_cases h
  · rfl
  · have hreplace := total_replace (c := (·.presentedChars)) rfl
      (withdraw meter.totals previous moved) language
      { entry with presentedChars := entry.presentedChars + moved }
    have hleft := total_presented_withdraw meter.totals previous (hmoved ▸ Nat.min_le_left _ _)
    rw [← hentry] at hreplace
    simp only [overall] at hreplace hleft ⊢
    omega

/-- The lane's characters are filed under its new language, and the law still holds. -/
theorem migrate_conserved {meter after : ErasureMeter} (hmeter : Conserved meter) {key : LaneKey}
    {language : String}
    (h : meter.migrateLaneLanguage key language (charCount (meter.previousText key)) = some after) :
    Conserved after ∧ after.presented = meter.presented ∧
      (after.laneLanguage.lookup key = none ∨ after.laneLanguage.lookup key = some language) := by
  have hcounts := migrate_overall (c := (·.appendedChars)) rfl (fun _ _ => rfl) h
  have herased := migrate_overall (c := (·.erasedChars)) rfl (fun _ _ => rfl) h
  have hpresented := migrate_presented h
  have hbalance := hmeter.balance
  obtain ⟨rfl, hsame⟩ | ⟨previous, moved, entry, hlane, hne, hmoved, hentry, hfits, hafter⟩ :=
    migrate_cases h
  · refine ⟨hmeter, rfl, ?_⟩
    cases hlane : after.laneLanguage.lookup key with
    | none => exact .inl rfl
    | some other => exact .inr (congrArg some (hsame other hlane))
  · have hkept : after.presented = meter.presented := by rw [hafter]
    have hmap : after.laneLanguage = meter.laneLanguage.insert key language := by rw [hafter]
    have htotals : after.totals = (withdraw meter.totals previous moved).insert language
        { entry with presentedChars := entry.presentedChars + moved } := by rw [hafter]
    refine ⟨⟨?_, ?_, ?_⟩, hkept, .inr (by rw [hmap, AList.lookup_insert])⟩
    · intro lane
      have hlanes := hmeter.sameLanes lane
      rw [hmap, hkept, lookup_insert_eq]
      split
      · next heq =>
        rw [heq] at hlanes ⊢
        rw [hlane] at hlanes
        simp only [reduceCtorEq, false_iff] at hlanes ⊢
        exact hlanes
      · exact hlanes
    · intro other
      -- the lane was counted in full where it was filed
      have hold : ∀ L, (meter.totalsOf L).presentedChars =
          (if previous = L then charCount (meter.previousText key) else 0) + meter.others key L := by
        intro L
        rw [hmeter.presented L, filed_split meter key L, hlane]
        simp only [Option.some.injEq]
      have hall : moved = charCount (meter.previousText key) := by
        have hprevious := hold previous
        rw [if_pos rfl] at hprevious
        omega
      have hlanes : ∀ lane, lane ≠ key →
          after.laneLanguage.lookup lane = meter.laneLanguage.lookup lane := by
        intro lane hlane
        rw [hmap, AList.lookup_insert_ne hlane]
      rw [filed_split after key other, others_congr meter after key "" hlanes (.inl (by rw [hkept]))]
      simp only [totalsOf, htotals, hmap, hkept, entry_insert, previousText, AList.lookup_insert,
        Option.some.injEq]
      have hother := hold other
      have hprev := hold previous
      rw [if_pos rfl] at hprev
      simp only [totalsOf, previousText] at hother hprev hall
      by_cases hto : other = language
      · rw [if_pos hto, if_pos hto.symm, hentry, ← hto, withdraw_entry,
          if_neg (fun heq => hne (heq.symm.trans hto))]
        rw [if_neg (fun heq => hne (heq.trans hto))] at hother
        simp only
        omega
      · rw [if_neg hto, if_neg (Ne.symm hto), withdraw_entry]
        by_cases hfrom : other = previous
        · rw [if_pos hfrom, hfrom]
          simp only
          omega
        · rw [if_neg hfrom, hother, if_neg (Ne.symm hfrom)]
    · rw [hcounts, herased, hpresented, hbalance]

/-! ## A lane gets another text -/

theorem commonPrefixChars_le (left right : String) :
    commonPrefixChars left right ≤ charCount left ∧ commonPrefixChars left right ≤ charCount right := by
  have hle := (List.takeWhile_sublist (fun pair : Char × Char => pair.1 = pair.2)
    (l := left.toList.zip right.toList)).length_le
  rw [List.length_zip] at hle
  simp only [commonPrefixChars, charCount]
  omega

theorem insert_eq_some {presented after : Presented} {key : LaneKey} {text : String} :
    presented.insert key text = some after ↔ after.texts = presented.texts.insert key text := by
  rw [Presented.insert]
  constructor
  · intro h
    split at h
    · cases h
      rfl
    · cases h
  · intro h
    obtain ⟨texts, hmemory⟩ := after
    subst h
    rw [dif_pos hmemory]

theorem replaceLane_cases {meter after : ErasureMeter} {key : LaneKey} {language text : String}
    (h : meter.replaceLane key language text = some after) :
    ∃ common, common ≤ charCount (meter.previousText key) ∧ common ≤ charCount text ∧
      after.presented.texts = meter.presented.texts.insert key text ∧
      after.laneLanguage = meter.laneLanguage.insert key language ∧
      after.totals = meter.totals.insert language {
        updates := (meter.totalsOf language).updates + 1
        erasedChars := (meter.totalsOf language).erasedChars +
          (charCount (meter.previousText key) - common)
        appendedChars := (meter.totalsOf language).appendedChars + (charCount text - common)
        presentedChars := saturatingAdd
          ((meter.totalsOf language).presentedChars - charCount (meter.previousText key))
          (charCount text) } := by
  obtain ⟨updates, hupdates, h⟩ := Option.bind_eq_some_iff.mp h
  obtain ⟨erasedChars, herased, h⟩ := Option.bind_eq_some_iff.mp h
  obtain ⟨appendedChars, happended, h⟩ := Option.bind_eq_some_iff.mp h
  obtain ⟨presented, hpresented, h⟩ := Option.bind_eq_some_iff.mp h
  obtain rfl := Option.some.inj h
  obtain ⟨-, rfl⟩ := checkedAdd_eq_some.mp hupdates
  obtain ⟨-, rfl⟩ := checkedAdd_eq_some.mp herased
  obtain ⟨-, rfl⟩ := checkedAdd_eq_some.mp happended
  have hcommon := commonPrefixChars_le (meter.previousText key) text
  exact ⟨_, hcommon.1, hcommon.2, insert_eq_some.mp hpresented, rfl, rfl⟩

/-- What a lane presents is a part of all that is in memory. -/
theorem filed_le (meter : ErasureMeter) (language : String) :
    meter.filed language ≤ allChars meter.presented.texts := by
  apply total_mono
  intro lane text
  split <;> omega

/-- The lane's old characters leave the language and the new ones come in. -/
theorem replace_conserved {meter after : ErasureMeter} (hmeter : Conserved meter) {key : LaneKey}
    {language text : String}
    (hlane : meter.laneLanguage.lookup key = none ∨ meter.laneLanguage.lookup key = some language)
    (h : meter.replaceLane key language text = some after) : Conserved after := by
  obtain ⟨common, hprevious, hnext, htexts, hmap, htotals⟩ := replaceLane_cases h
  -- a lane that is not filed anywhere presented nothing
  have hold : ∀ L, (meter.totalsOf L).presentedChars =
      (if L = language then charCount (meter.previousText key) else 0) + meter.others key L := by
    intro L
    rw [hmeter.presented L, filed_split meter key L]
    rcases hlane with hnone | hsome
    · have hempty : meter.previousText key = "" := by
        rw [previousText, (hmeter.sameLanes key).mp hnone, Option.getD_none]
      simp [hnone, hempty]
    · simp [hsome, eq_comm]
  have hlanes : ∀ lane, lane ≠ key →
      after.laneLanguage.lookup lane = meter.laneLanguage.lookup lane := by
    intro lane hlane
    rw [hmap, AList.lookup_insert_ne hlane]
  have hfiled : ∀ L, after.filed L =
      (if L = language then charCount text else 0) + meter.others key L := by
    intro L
    rw [filed_split after key L, others_congr meter after key text hlanes (.inr htexts)]
    simp [previousText, hmap, htexts, eq_comm]
  have hroom : meter.others key language + charCount text ≤ u64Max := by
    have hle := filed_le after language
    have hmemory := after.presented.inMemory
    rw [hfiled, if_pos rfl] at hle
    omega
  have hown := hold language
  rw [if_pos rfl] at hown
  have hclamp : saturatingAdd
      ((meter.totalsOf language).presentedChars - charCount (meter.previousText key)) (charCount text) =
      meter.others key language + charCount text := by
    rw [hown, Nat.add_sub_cancel_left, saturatingAdd_eq hroom]
  rw [hclamp] at htotals
  refine ⟨?_, ?_, ?_⟩
  · intro lane
    rw [hmap, htexts, lookup_insert_eq, lookup_insert_eq]
    split
    · simp
    · exact hmeter.sameLanes lane
  · intro other
    rw [hfiled, totalsOf, htotals, entry_insert]
    split
    · simp only
      next heq => rw [heq, Nat.add_comm]
    · next hne =>
      have hother := hold other
      rw [if_neg hne] at hother
      exact hother
  · have hbalance := hmeter.balance
    generalize hentry : (⟨(meter.totalsOf language).updates + 1, _, _, _⟩ : LaneTotals) = entry at htotals
    have happended := total_replace (c := (·.appendedChars)) rfl meter.totals language entry
    have herased := total_replace (c := (·.erasedChars)) rfl meter.totals language entry
    have hpresented := total_replace (c := (·.presentedChars)) rfl meter.totals language entry
    rw [← totalsOf] at happended herased hpresented
    simp only [overall, htotals] at hbalance ⊢
    simp only [← hentry] at happended herased hpresented ⊢
    omega

theorem record_conserved {meter after : ErasureMeter} (hmeter : Conserved meter) {sequence : Nat}
    {role language text : String} (h : meter.record sequence role language text = some after) :
    Conserved after := by
  obtain ⟨moved, hmigrate, h⟩ := Option.bind_eq_some_iff.mp h
  obtain ⟨hconserved, hkept, hlane⟩ := migrate_conserved hmeter hmigrate
  split at h
  · cases h
    exact hconserved
  · exact replace_conserved hconserved hlane h

/-! ## Nothing overflows before `u64::MAX` characters are delivered -/

/-- What the meter counted is no more than the `delivered` characters. -/
structure Within (meter : ErasureMeter) (delivered : Nat) : Prop where
  conserved : Conserved meter
  appended : meter.overall (·.appendedChars) ≤ delivered
  updates : meter.overall (·.updates) ≤ delivered
  inMemory : allChars meter.presented.texts ≤ delivered

theorem entry_le_overall {c : LaneTotals → Nat} (hzero : c default = 0) (totals : Map String LaneTotals)
    (language : String) :
    c ((totals.lookup language).getD default) ≤ total (fun _ entry => c entry) totals := by
  rw [← part_totals hzero]
  exact part_le_total _ language totals

theorem Within.migrate {meter : ErasureMeter} {delivered : Nat} (hmeter : Within meter delivered)
    (hmax : delivered ≤ u64Max) (key : LaneKey) (language : String) :
    ∃ after, meter.migrateLaneLanguage key language (charCount (meter.previousText key)) = some after ∧
      Within after delivered := by
  have hsome : ∃ after,
      meter.migrateLaneLanguage key language (charCount (meter.previousText key)) = some after := by
    unfold migrateLaneLanguage
    cases hfiltered : (meter.laneLanguage.lookup key).filter (· ≠ language) with
    | none => exact ⟨meter, rfl⟩
    | some previous =>
      simp only
      generalize hmoved : ((meter.totals.lookup previous).map fun totals =>
        min totals.presentedChars (charCount (meter.previousText key))).getD 0 = moved
      have hle : moved ≤ ((meter.totals.lookup previous).getD default).presentedChars := by
        rw [← hmoved]
        cases meter.totals.lookup previous with
        | none => simp
        | some totals => exact Nat.min_le_left _ _
      have hleft := total_presented_withdraw meter.totals previous hle
      have hentry := entry_le_overall (c := (·.presentedChars)) rfl
        (withdraw meter.totals previous moved) language
      have hbalance := hmeter.conserved.balance
      have happended := hmeter.appended
      simp only [overall] at hbalance happended
      rw [checkedAdd, if_pos (by omega)]
      exact ⟨_, rfl⟩
  obtain ⟨after, h⟩ := hsome
  obtain ⟨hconserved, hkept, -⟩ := migrate_conserved hmeter.conserved h
  refine ⟨after, h, hconserved, ?_, ?_, ?_⟩
  · rw [migrate_overall (c := (·.appendedChars)) rfl (fun _ _ => rfl) h]
    exact hmeter.appended
  · rw [migrate_overall (c := (·.updates)) rfl (fun _ _ => rfl) h]
    exact hmeter.updates
  · rw [hkept]
    exact hmeter.inMemory

theorem Within.mono {meter : ErasureMeter} {delivered more : Nat} (hmeter : Within meter delivered)
    (hle : delivered ≤ more) : Within meter more :=
  ⟨hmeter.conserved, hmeter.appended.trans hle, hmeter.updates.trans hle, hmeter.inMemory.trans hle⟩

theorem charCount_pos {text : String} (h : text ≠ "") : 0 < charCount text := by
  apply List.length_pos_iff.mpr
  intro hnil
  exact h (String.toList_eq_nil_iff.mp hnil)

theorem Within.replace {meter : ErasureMeter} {delivered : Nat} (hmeter : Within meter delivered)
    {key : LaneKey} {language text : String} (htext : text ≠ "")
    (hmax : delivered + charCount text ≤ u64Max)
    (hlane : meter.laneLanguage.lookup key = none ∨ meter.laneLanguage.lookup key = some language) :
    ∃ after, meter.replaceLane key language text = some after ∧
      Within after (delivered + charCount text) := by
  have hpos := charCount_pos htext
  have hbalance := hmeter.conserved.balance
  have happended := hmeter.appended
  have hupdates := hmeter.updates
  have hcommon := commonPrefixChars_le (meter.previousText key) text
  have hprevious : charCount (meter.previousText key) ≤ (meter.totalsOf language).presentedChars := by
    rw [hmeter.conserved.presented language, filed_split meter key language]
    rcases hlane with hnone | hsome
    · have hempty : meter.previousText key = "" := by
        rw [previousText, (hmeter.conserved.sameLanes key).mp hnone, Option.getD_none]
      simp [hempty]
    · simp [hsome]
  have hmemory : allChars (meter.presented.texts.insert key text) ≤ delivered + charCount text := by
    have hsplit := total_split (fun _ text => charCount text) key meter.presented.texts
    have hinsert := total_insert (fun _ text => charCount text) key text meter.presented.texts
    have hold := hmeter.inMemory
    simp only [allChars] at hold ⊢
    omega
  have hentryUpdates := entry_le_overall (c := (·.updates)) rfl meter.totals language
  have hentryErased := entry_le_overall (c := (·.erasedChars)) rfl meter.totals language
  have hentryAppended := entry_le_overall (c := (·.appendedChars)) rfl meter.totals language
  have hentryPresented := entry_le_overall (c := (·.presentedChars)) rfl meter.totals language
  rw [← totalsOf] at hentryUpdates hentryErased hentryAppended hentryPresented
  simp only [overall] at hbalance happended hupdates
  have hsome : ∃ after, meter.replaceLane key language text = some after := by
    have hfits : ∃ presented, meter.presented.insert key text = some presented :=
      ⟨⟨meter.presented.texts.insert key text, by omega⟩, insert_eq_some.mpr rfl⟩
    obtain ⟨presented, hpresented⟩ := hfits
    simp only [replaceLane, Option.bind_eq_bind, hpresented]
    rw [checkedAdd, if_pos (by omega), checkedAdd, if_pos (by omega), checkedAdd, if_pos (by omega)]
    exact ⟨_, rfl⟩
  obtain ⟨after, h⟩ := hsome
  have hconserved := replace_conserved hmeter.conserved hlane h
  obtain ⟨common, -, -, htexts, -, htotals⟩ := replaceLane_cases h
  generalize hentry : (⟨(meter.totalsOf language).updates + 1, _, _, _⟩ : LaneTotals) = entry at htotals
  refine ⟨after, h, hconserved, ?_, ?_, ?_⟩
  · have hreplace := total_replace (c := (·.appendedChars)) rfl meter.totals language entry
    rw [← totalsOf] at hreplace
    simp only [overall, htotals, ← hentry] at hreplace ⊢
    omega
  · have hreplace := total_replace (c := (·.updates)) rfl meter.totals language entry
    rw [← totalsOf] at hreplace
    simp only [overall, htotals, ← hentry] at hreplace ⊢
    omega
  · rw [htexts]
    exact hmemory

theorem Within.record {meter : ErasureMeter} {delivered : Nat} (hmeter : Within meter delivered)
    (sequence : Nat) (role language : String) {text : String} (htext : text ≠ "")
    (hmax : delivered + charCount text ≤ u64Max) :
    ∃ after, meter.record sequence role language text = some after ∧
      Within after (delivered + charCount text) := by
  obtain ⟨moved, hmigrate, hmoved⟩ := hmeter.migrate (by omega) (sequence, role) language
  obtain ⟨-, -, hlane⟩ := migrate_conserved hmeter.conserved hmigrate
  simp only [ErasureMeter.record, hmigrate, Option.bind_some]
  split
  · exact ⟨moved, rfl, hmoved.mono (Nat.le_add_right _ _)⟩
  · exact hmoved.replace htext hmax hlane

/-! ## Whole runs -/

section
variable {σ α : Type} {f : σ → α → Option σ}

theorem foldlM_keeps {I : σ → Prop} (hstep : ∀ s a s', I s → f s a = some s' → I s') {items : List α}
    {s s' : σ} (hs : I s) (h : items.foldlM f s = some s') : I s' := by
  induction items generalizing s with
  | nil =>
    cases h
    exact hs
  | cons a items ih =>
    rw [List.foldlM_cons] at h
    obtain ⟨next, hnext, h⟩ := Option.bind_eq_some_iff.mp h
    exact ih (hstep s a next hs hnext) h

/-- A loop gets to its end while what its items cost stays below `limit`. -/
theorem foldlM_within {I : σ → Nat → Prop} {cost : α → Nat} {limit : Nat}
    (hstep : ∀ s spent a, I s spent → spent + cost a ≤ limit →
      ∃ s', f s a = some s' ∧ I s' (spent + cost a)) (items : List α) {s : σ} {spent : Nat}
    (hs : I s spent) (hlimit : spent + (items.map cost).sum ≤ limit) :
    ∃ s', items.foldlM f s = some s' ∧ I s' (spent + (items.map cost).sum) := by
  induction items generalizing s spent with
  | nil => exact ⟨s, rfl, hs⟩
  | cons a items ih =>
    rw [List.map_cons, List.sum_cons] at hlimit ⊢
    obtain ⟨next, hnext, hin⟩ := hstep s spent a hs (by omega)
    obtain ⟨s', hs', hend⟩ := ih hin (by omega)
    refine ⟨s', ?_, by rwa [← Nat.add_assoc]⟩
    rw [List.foldlM_cons, hnext]
    exact hs'

end

/-- The characters of a variant's text. -/
def variantChars (variant : LanguageVariant) : Nat := charCount (variant.text.getD "")

/-- The characters the meter reads of an utterance. -/
def utteranceChars (utterance : CaptureUtterance) : Nat :=
  if utterance.languageVariants = [] then
    charCount utterance.sourceText + charCount (utterance.translatedText.getD "")
  else (utterance.languageVariants.map variantChars).sum

def callChars : MeterCall → Nat
  | .event _ utterances => (utterances.map utteranceChars).sum
  | .preview _ utterances => (utterances.map utteranceChars).sum
  | .finish => 0

theorem recordUnlessEmpty_conserved {meter after : ErasureMeter} (hmeter : Conserved meter)
    {sequence : Nat} {role language text : String}
    (h : meter.recordUnlessEmpty sequence role language text = some after) : Conserved after := by
  unfold recordUnlessEmpty at h
  split at h
  · cases h
    exact hmeter
  · exact record_conserved hmeter h

theorem absorbVariant_conserved {utterance : CaptureUtterance} {meter after : ErasureMeter}
    {variant : LanguageVariant} (hmeter : Conserved meter)
    (h : absorbVariant utterance meter variant = some after) : Conserved after := by
  unfold absorbVariant at h
  split at h
  · cases h
    exact hmeter
  · split at h <;> exact recordUnlessEmpty_conserved hmeter h

theorem absorbUtterance_conserved {meter after : ErasureMeter} {utterance : CaptureUtterance}
    (hmeter : Conserved meter) (h : meter.absorbUtterance utterance = some after) :
    Conserved after := by
  unfold absorbUtterance at h
  split at h
  · obtain ⟨sourced, hsource, h⟩ := Option.bind_eq_some_iff.mp h
    have hsourced := recordUnlessEmpty_conserved hmeter hsource
    split at h
    · exact recordUnlessEmpty_conserved hsourced h
    · cases h
      exact hsourced
  · exact foldlM_keeps (fun _ _ _ hs hstep => absorbVariant_conserved hs hstep) hmeter h

theorem finishSession_conserved {meter : ErasureMeter} (hmeter : Conserved meter) :
    Conserved meter.finishSession := by
  unfold finishSession
  split
  · exact hmeter
  · exact conserved_new

theorem rollSession_conserved {meter : ErasureMeter} (hmeter : Conserved meter) (sessionId : String) :
    Conserved (meter.rollSession sessionId) := by
  unfold rollSession
  split
  · exact hmeter
  · exact ⟨(finishSession_conserved hmeter).sameLanes, (finishSession_conserved hmeter).presented,
      (finishSession_conserved hmeter).balance⟩

theorem call_conserved {meter after : ErasureMeter} {c : MeterCall} (hmeter : Conserved meter)
    (h : meter.call c = some after) : Conserved after := by
  have habsorb : ∀ sessionId utterances, meter.absorb sessionId utterances = some after →
      Conserved after := fun sessionId utterances h =>
    foldlM_keeps (fun _ _ _ hs hstep => absorbUtterance_conserved hs hstep)
      (rollSession_conserved hmeter sessionId) h
  cases c with
  | event sessionId utterances => exact habsorb sessionId utterances h
  | preview sessionId utterances => exact habsorb sessionId utterances h
  | finish =>
    cases h
    exact finishSession_conserved hmeter

theorem run_conserved {calls : List MeterCall} {meter : ErasureMeter} (h : run calls = some meter) :
    Conserved meter :=
  foldlM_keeps (fun _ _ _ hs hstep => call_conserved hs hstep) conserved_new h

/-! ## Runs get to their end -/

theorem Within.recordUnlessEmpty {meter : ErasureMeter} {delivered : Nat}
    (hmeter : Within meter delivered) (sequence : Nat) (role language text : String)
    (hmax : delivered + charCount text ≤ u64Max) :
    ∃ after, meter.recordUnlessEmpty sequence role language text = some after ∧
      Within after (delivered + charCount text) := by
  unfold ErasureMeter.recordUnlessEmpty
  split
  · exact ⟨meter, rfl, hmeter.mono (Nat.le_add_right _ _)⟩
  · next htext => exact hmeter.record sequence role language htext hmax

theorem Within.absorbVariant {meter : ErasureMeter} {delivered : Nat} (hmeter : Within meter delivered)
    (utterance : CaptureUtterance) {variant : LanguageVariant}
    (hmax : delivered + variantChars variant ≤ u64Max) :
    ∃ after, ErasureMeter.absorbVariant utterance meter variant = some after ∧
      Within after (delivered + variantChars variant) := by
  simp only [ErasureMeter.absorbVariant, variantChars] at hmax ⊢
  cases htext : variant.text with
  | none => exact ⟨meter, rfl, hmeter⟩
  | some text =>
    rw [htext, Option.getD_some] at hmax
    simp only [Option.getD_some]
    split <;> exact hmeter.recordUnlessEmpty _ _ _ _ hmax

theorem Within.absorbUtterance {meter : ErasureMeter} {delivered : Nat} (hmeter : Within meter delivered)
    {utterance : CaptureUtterance} (hmax : delivered + utteranceChars utterance ≤ u64Max) :
    ∃ after, meter.absorbUtterance utterance = some after ∧
      Within after (delivered + utteranceChars utterance) := by
  by_cases hvariants : utterance.languageVariants = []
  · simp only [utteranceChars, hvariants, if_true, ← Nat.add_assoc] at hmax ⊢
    obtain ⟨sourced, hsource, hin⟩ := hmeter.recordUnlessEmpty utterance.sequence sourceRoleKey
      (utterance.provisionalSourceLanguage.getD utterance.sourceLanguage) utterance.sourceText (by omega)
    simp only [ErasureMeter.absorbUtterance, hvariants, if_true, hsource, Option.bind_some]
    cases hlanguage : utterance.translatedLanguage with
    | none => exact ⟨sourced, rfl, hin.mono (by omega)⟩
    | some language =>
      cases htext : utterance.translatedText with
      | none => exact ⟨sourced, rfl, hin.mono (by omega)⟩
      | some text =>
        rw [htext, Option.getD_some] at hmax
        exact hin.recordUnlessEmpty utterance.sequence language language text hmax
  · simp only [utteranceChars, ErasureMeter.absorbUtterance, hvariants, if_false] at hmax ⊢
    exact foldlM_within (fun _ _ _ hs hlimit => hs.absorbVariant utterance hlimit) _ hmeter hmax

theorem within_new (delivered : Nat) : Within .new delivered where
  conserved := conserved_new
  appended := Nat.zero_le _
  updates := Nat.zero_le _
  inMemory := Nat.zero_le _

theorem Within.finishSession {meter : ErasureMeter} {delivered : Nat} (hmeter : Within meter delivered) :
    Within meter.finishSession delivered := by
  unfold ErasureMeter.finishSession
  split
  · exact hmeter
  · exact within_new delivered

theorem Within.rollSession {meter : ErasureMeter} {delivered : Nat} (hmeter : Within meter delivered)
    (sessionId : String) : Within (meter.rollSession sessionId) delivered := by
  have hfinish := hmeter.finishSession
  have hconserved := hfinish.conserved
  unfold ErasureMeter.rollSession
  split
  · exact hmeter
  · exact ⟨⟨hconserved.sameLanes, hconserved.presented, hconserved.balance⟩, hfinish.appended,
      hfinish.updates, hfinish.inMemory⟩

theorem Within.call {meter : ErasureMeter} {delivered : Nat} (hmeter : Within meter delivered)
    {c : MeterCall} (hmax : delivered + callChars c ≤ u64Max) :
    ∃ after, meter.call c = some after ∧ Within after (delivered + callChars c) := by
  have habsorb : ∀ sessionId utterances,
      delivered + (utterances.map utteranceChars).sum ≤ u64Max →
      ∃ after, meter.absorb sessionId utterances = some after ∧
        Within after (delivered + (utterances.map utteranceChars).sum) :=
    fun sessionId utterances hmax =>
      foldlM_within (fun _ _ _ hs hlimit => hs.absorbUtterance hlimit) utterances
        (hmeter.rollSession sessionId) hmax
  cases c with
  | event sessionId utterances => exact habsorb sessionId utterances hmax
  | preview sessionId utterances => exact habsorb sessionId utterances hmax
  | finish => exact ⟨meter.finishSession, rfl, hmeter.finishSession⟩

/-- The meter goes through every run that delivers at most `u64::MAX` characters. -/
theorem exists_run {calls : List MeterCall} (h : (calls.map callChars).sum ≤ u64Max) :
    ∃ meter, run calls = some meter := by
  have hstep : ∀ (meter : ErasureMeter) spent c, Within meter spent → spent + callChars c ≤ u64Max →
      ∃ after, meter.call c = some after ∧ Within after (spent + callChars c) :=
    fun _ _ _ hs hlimit => hs.call hlimit
  obtain ⟨meter, hrun, -⟩ := foldlM_within hstep calls (within_new 0) (by omega)
  exact ⟨meter, hrun⟩

/-- An identity that changes under unchanged words moves characters and counts nothing. -/
theorem record_same_text {meter after : ErasureMeter} {sequence : Nat} {role language text : String}
    (htext : meter.previousText (sequence, role) = text)
    (h : meter.record sequence role language text = some after) (other : String) :
    (after.totalsOf other).erasedChars = (meter.totalsOf other).erasedChars ∧
      (after.totalsOf other).appendedChars = (meter.totalsOf other).appendedChars := by
  obtain ⟨moved, hmigrate, h⟩ := Option.bind_eq_some_iff.mp h
  rw [if_pos htext] at h
  cases h
  have hcounts := migrate_counts hmigrate other
  exact ⟨hcounts.1, hcounts.2.1⟩

/-- **Erasure accounting is conserved.** Whatever events and previews the meter absorbed: under
every language it counts the characters of the lanes filed there, and overall what was appended
less what was erased is what is presented. Filing a lane under another language changes nothing
that was counted as erased or appended, on its own or with the words that stay as they are. -/
theorem erasure_conserved :
    (∀ calls meter, run calls = some meter →
      (∀ language, (meter.totalsOf language).presentedChars = meter.filed language) ∧
      (meter.overall (·.appendedChars) : Int) - meter.overall (·.erasedChars) =
        meter.overall (·.presentedChars)) ∧
    (∀ calls : List MeterCall, (calls.map callChars).sum ≤ u64Max →
      ∃ meter, run calls = some meter) ∧
    (∀ (meter after : ErasureMeter) key language laneChars,
      meter.migrateLaneLanguage key language laneChars = some after → ∀ other,
        (after.totalsOf other).erasedChars = (meter.totalsOf other).erasedChars ∧
        (after.totalsOf other).appendedChars = (meter.totalsOf other).appendedChars) ∧
    ∀ (meter after : ErasureMeter) sequence role language text,
      meter.previousText (sequence, role) = text →
      meter.record sequence role language text = some after → ∀ other,
        (after.totalsOf other).erasedChars = (meter.totalsOf other).erasedChars ∧
        (after.totalsOf other).appendedChars = (meter.totalsOf other).appendedChars := by
  refine ⟨?_, fun calls => exists_run, ?_, ?_⟩
  · intro calls meter hrun
    have hconserved := run_conserved hrun
    have hbalance := hconserved.balance
    exact ⟨hconserved.presented, by omega⟩
  · intro meter after key language laneChars h other
    have hcounts := migrate_counts h other
    exact ⟨hcounts.1, hcounts.2.1⟩
  · intro meter after sequence role language text htext h other
    exact record_same_text htext h other

/-- A preview of `und` text, then the event that files it under a language. -/
theorem erasure_conserved_identity : ∃ meter, run
    [.preview "session" [⟨1, "und", none, "hello", none, none, []⟩],
      .event "session" [⟨1, "en", none, "hello", none, none, []⟩]] = some meter :=
  erasure_conserved.2.1 _ (by decide)

end ErasureMeter
end Zulangue.Captions
