import Zulangue.Assembler.Routing

/-!
# The words of the segments

The committed texts are those of the final tokens in the order they came, and only the open
segment has a tail.
-/

namespace Zulangue.Assembler

/-! ## Texts behind each other -/

def joinTexts : List String → String
  | [] => ""
  | text :: texts => text ++ joinTexts texts

@[simp] theorem joinTexts_append (front back : List String) :
    joinTexts (front ++ back) = joinTexts front ++ joinTexts back := by
  induction front with
  | nil => simp [joinTexts]
  | cons text front ih => simp [joinTexts, ih, String.append_assoc]

@[simp] theorem joinTexts_singleton (text : String) : joinTexts [text] = text := by simp [joinTexts]

def textsOf (tokens : List SttStreamToken) : String := joinTexts (tokens.map SttStreamToken.text)

@[simp] theorem textsOf_append (front back : List SttStreamToken) :
    textsOf (front ++ back) = textsOf front ++ textsOf back := by
  simp [textsOf]

/-! ## The words of an assembler -/

/-- What routing depends on and what carries the words. -/
structure Frame where
  sessionId : String
  next : Nat
  cores : List Core
  complete : List Bool
  latest : Option Nat

def RealtimeUtteranceAssembler.frame (a : RealtimeUtteranceAssembler) : Frame :=
  { sessionId := a.sessionId
    next := a.nextSequence
    cores := a.segments.map RealtimeSegmentRevision.core
    complete := a.segments.map RealtimeSegmentRevision.complete
    latest := a.latestOriginalSegment }

namespace Core

def fresh (sessionId : String) (sequence : Nat) : Core :=
  (RealtimeSegmentRevision.new sessionId sequence).core

def push (core : Core) (token : SttStreamToken) : Core :=
  if token.isFinal then
    { core with
      committed := core.committed ++ token.text
      language := token.originalLanguage.or core.language
      speaker := token.providerSpeaker.or core.speaker }
  else { core with pending := core.pending ++ token.text }

/-- The token has no other identity than the one that was committed. -/
structure Matches (core : Core) (token : SttStreamToken) : Prop where
  language : ∀ old new, core.language = some old → token.originalLanguage = some new →
    old ≠ "und" → new ≠ "und" → old = new
  speaker : ∀ old new, core.speaker = some old → token.providerSpeaker = some new →
    old ≠ "und" → new ≠ "und" → old = new

end Core

namespace Frame

structure Current (f : Frame) (closed : List Core) (current : Option Core) : Prop where
  cores : f.cores = closed ++ current.toList
  complete : f.complete = List.replicate closed.length true ++ current.toList.map fun _ => false
  latest : f.latest = current.map fun _ => closed.length

def opened (f : Frame) (closed : List Core) (core : Core) (next : Nat) : Frame :=
  { f with
    next
    cores := closed ++ [core]
    complete := List.replicate closed.length true ++ [false]
    latest := some closed.length }

inductive Takes (f : Frame) (token : SttStreamToken) (closed : List Core) :
    Option Core → List Core → Core → Nat → Prop
  | first : Takes f token closed none closed (.fresh f.sessionId f.next) (f.next + 1)
  | same {core : Core} (h : token.isFinal = true → core.committed ≠ "" → core.Matches token) :
    Takes f token closed (some core) closed core f.next
  | next {core : Core} (h : token.isFinal = true) :
    Takes f token closed (some core) (closed ++ [core]) (.fresh f.sessionId f.next)
      (f.next + 1)

end Frame

theorem eq_of_identityConflicts {old new : String} (h : identityConflicts (some old) (some new) = false)
    (hold : old ≠ "und") (hnew : new ≠ "und") : old = new := by
  simpa [identityConflicts, Option.filter_some, hold, hnew] using h

theorem matches_of_not_splits {segment : RealtimeSegmentRevision} {token : SttStreamToken}
    (h : RealtimeUtteranceAssembler.splits segment token = false) (hfinal : token.isFinal = true)
    (hcommitted : segment.core.committed ≠ "") : segment.core.Matches token := by
  have htext : segment.hasSourceText = true := by
    simp only [RealtimeSegmentRevision.core] at hcommitted
    simp [RealtimeSegmentRevision.hasSourceText, LaneRevision.isEmpty, hcommitted]
  rw [RealtimeUtteranceAssembler.splits, hfinal, htext, Bool.and_self, Bool.true_and, Bool.or_eq_false_iff] at h
  constructor
  · intro old new hcore htoken
    have hstable : segment.stableSourceLanguage = some old := by
      rw [RealtimeSegmentRevision.stableSourceLanguage, show segment.source.committedLanguage = some old from hcore]
      rfl
    rw [hstable, htoken] at h
    exact eq_of_identityConflicts h.1
  · intro old new hcore htoken
    have hstable : segment.stableProviderSpeaker = some old := hcore
    rw [hstable, htoken] at h
    exact eq_of_identityConflicts h.2

theorem RealtimeUtteranceAssembler.current_of_frame {a : RealtimeUtteranceAssembler} {closed : List Core}
    {current : Option Core} (h : a.frame.Current closed current) :
    ∃ closed' current', a.Current closed' current' ∧ closed'.map RealtimeSegmentRevision.core = closed ∧
      current'.map RealtimeSegmentRevision.core = current := by
  obtain ⟨hcores, hcomplete, hlatest⟩ := h
  obtain ⟨closed', rest, hsegments, rfl, hrest⟩ := List.map_eq_append_iff.mp hcores
  simp only [frame] at hcomplete hlatest
  rw [hsegments, List.map_append, List.length_map] at hcomplete
  obtain ⟨hclosed, hopen⟩ := List.append_inj hcomplete (by simp)
  have hclosed' : ∀ segment ∈ closed', segment.complete = true := by
    intro segment hsegment
    exact List.eq_of_mem_replicate (hclosed ▸ List.mem_map_of_mem hsegment)
  cases current with
  | none =>
    rw [Option.toList_none, List.map_eq_nil_iff] at hrest
    subst hrest
    exact ⟨closed', none, ⟨hsegments, hlatest, hclosed', by simp⟩, rfl, rfl⟩
  | some core =>
    obtain ⟨segment, rfl, rfl⟩ := List.map_eq_singleton_iff.mp hrest
    refine ⟨closed', some segment, ⟨hsegments, by simpa using hlatest, hclosed', ?_⟩, rfl, rfl⟩
    intro other hother
    cases hother
    simpa using hopen

theorem RealtimeUtteranceAssembler.Opens.complete {a : RealtimeUtteranceAssembler} {token : SttStreamToken}
    {closed closed' : List RealtimeSegmentRevision} {current : Option RealtimeSegmentRevision}
    {segment : RealtimeSegmentRevision} {next : Nat} (hopens : Opens a token closed current closed' segment next)
    (h : a.Current closed current) : (∀ segment ∈ closed', segment.complete = true) ∧ segment.complete = false := by
  cases hopens with
  | first => exact ⟨h.closed, rfl⟩
  | same => exact ⟨h.closed, h.current _ rfl⟩
  | next =>
    refine ⟨?_, rfl⟩
    intro segment hsegment
    rcases List.mem_append.mp hsegment with hsegment | hsegment
    · exact h.closed segment hsegment
    · rw [List.mem_singleton.mp hsegment]
      rfl

/-- A token is taken by the last segment there is then. -/
theorem frame_applyOriginalToken {a : RealtimeUtteranceAssembler} {closed : List Core} {current : Option Core}
    (h : a.frame.Current closed current) (token : SttStreamToken) :
    ∃ closed' core next, a.frame.Takes token closed current closed' core next ∧
      (a.applyOriginalToken token).1.frame = a.frame.opened closed' (core.push token) next ∧
      (a.applyOriginalToken token).2 = closed'.length := by
  obtain ⟨segments, segment, hcurrent, rfl, rfl⟩ := RealtimeUtteranceAssembler.current_of_frame h
  obtain ⟨segments', taking, next, hopens, happly⟩ :=
    RealtimeUtteranceAssembler.applyOriginalToken_eq hcurrent token
  refine ⟨segments'.map RealtimeSegmentRevision.core, taking.core, next, ?_, ?_, ?_⟩
  · cases hopens with
    | first => exact .first
    | same hsame => exact .same (matches_of_not_splits hsame)
    | next hnext =>
      rw [RealtimeUtteranceAssembler.splits, Bool.and_assoc, Bool.and_eq_true] at hnext
      rw [List.map_append]
      exact .next hnext.1
  · obtain ⟨hclosed', htaking⟩ := hopens.complete hcurrent
    have hflags : segments'.map RealtimeSegmentRevision.complete = List.replicate segments'.length true :=
      List.map_eq_replicate_iff.mpr hclosed'
    rw [happly]
    simp [RealtimeUtteranceAssembler.frame, RealtimeUtteranceAssembler.opened, Frame.opened, hflags, htaking,
      RealtimeSegmentRevision.core_pushOriginal, RealtimeSegmentRevision.complete_pushOriginal, Core.push]
  · rw [happly, List.length_map]

/-! ## Where final tokens are placed -/

namespace Frame

/-- The tokens that segment `index` took. -/
def placedAt (placed : List (Nat × SttStreamToken)) (index : Nat) : List SttStreamToken :=
  (placed.filter fun entry => entry.1 = index).map Prod.snd

theorem placedAt_append (front back : List (Nat × SttStreamToken)) (index : Nat) :
    placedAt (front ++ back) index = placedAt front index ++ placedAt back index := by
  simp [placedAt]

/-- The identity of a token is that of its segment; speakers count where they are `labelled`. -/
structure Identified (labelled : Prop) (token : SttStreamToken) (core : Core) : Prop where
  committed : core.committed ≠ ""
  language : ∀ language, token.originalLanguage = some language → core.language = some language
  speaker : labelled → ∀ speaker, token.providerSpeaker = some speaker → core.speaker = some speaker

/-- No final token comes from a speaker called `und`. -/
def Labelled (placed : List (Nat × SttStreamToken)) : Prop :=
  ∀ entry ∈ placed, entry.2.providerSpeaker ≠ some "und"

/-- The final tokens were placed as in `placed`. -/
structure Placed (f : Frame) (placed : List (Nat × SttStreamToken)) : Prop where
  words : joinTexts (f.cores.map Core.committed) = textsOf (placed.map Prod.snd)
  known : ∀ entry ∈ placed, entry.1 < f.cores.length
  held : ∀ index core, f.cores[index]? = some core → core.committed = textsOf (placedAt placed index)
  identified : ∀ entry ∈ placed, entry.2.text ≠ "" →
    ∃ core, f.cores[entry.1]? = some core ∧ Identified (Labelled placed) entry.2 core
  numbered : ∀ core ∈ f.cores, core.id = f.sessionId ++ ":" ++ toString core.sequence ∧ core.sequence < f.next
  ascending : (f.cores.map Core.sequence).Pairwise (· < ·)

/-- The last segment alone has a tail. -/
def LastPending (cores : List Core) (tail : String) : Prop :=
  ∃ front, ∃ last : Option Core, cores = front ++ last.toList ∧ (∀ core ∈ front, core.pending = "") ∧
    joinTexts (last.toList.map Core.pending) = tail

/-- Besides, `tail` is what is still pending, and at most the last segment is open. -/
structure Worded (f : Frame) (placed : List (Nat × SttStreamToken)) (tail : String) : Prop
    extends Placed f placed where
  current : ∃ closed current, f.Current closed current
  tail : LastPending f.cores tail

theorem getElem?_concat {α : Type} {items : List α} {last item : α} {index : Nat} :
    (items ++ [last])[index]? = some item ↔
      items[index]? = some item ∨ index = items.length ∧ last = item := by
  rcases Nat.lt_trichotomy index items.length with hlt | rfl | hgt
  · rw [List.getElem?_append_left hlt]
    simp [Nat.ne_of_lt hlt]
  · simp
  · have hrest : items[index]? = none := List.getElem?_eq_none (by omega)
    have hall : (items ++ [last])[index]? = none := List.getElem?_eq_none (by simp; omega)
    simp [hrest, hall, Nat.ne_of_gt hgt]

theorem placedAt_eq_nil {placed : List (Nat × SttStreamToken)} {index : Nat}
    (h : ∀ entry ∈ placed, entry.1 < index) : placedAt placed index = [] := by
  rw [placedAt, List.map_eq_nil_iff, List.filter_eq_nil_iff]
  intro entry hentry
  have hlt := h entry hentry
  simp only [decide_eq_true_eq]
  omega

section
variable {f : Frame} {placed : List (Nat × SttStreamToken)} {tail : String} {closed : List Core}
  {current : Option Core} {token : SttStreamToken}

/-- A segment without words behind those there are. -/
theorem Placed.create (h : f.Placed placed) (core : Core) (hid : core.id = f.sessionId ++ ":" ++ toString f.next)
    (hsequence : core.sequence = f.next) (hcommitted : core.committed = "") (complete : List Bool)
    (latest : Option Nat) :
    Placed ⟨f.sessionId, f.next + 1, f.cores ++ [core], complete, latest⟩ placed := by
  constructor
  · simp [hcommitted, h.words]
  · intro entry hentry
    have hlt := h.known entry hentry
    simp only [List.length_append, List.length_singleton]
    omega
  · intro index found hfound
    rcases getElem?_concat.mp hfound with hfound | ⟨rfl, rfl⟩
    · exact h.held index found hfound
    · rw [placedAt_eq_nil h.known, hcommitted]
      rfl
  · intro entry hentry htext
    obtain ⟨found, hfound, hidentified⟩ := h.identified entry hentry htext
    exact ⟨found, getElem?_concat.mpr (.inl hfound), hidentified⟩
  · intro found hfound
    rcases List.mem_append.mp hfound with hfound | hfound
    · obtain ⟨hid, hsequence⟩ := h.numbered found hfound
      exact ⟨hid, Nat.lt_succ_of_lt hsequence⟩
    · rw [List.mem_singleton.mp hfound, hid, hsequence]
      exact ⟨rfl, Nat.lt_succ_self _⟩
  · rw [List.map_append, List.pairwise_append]
    refine ⟨h.ascending, List.pairwise_singleton _ _, ?_⟩
    intro sequence hbefore last hlast
    obtain ⟨found, hfound, rfl⟩ := List.mem_map.mp hbefore
    rw [List.map_singleton, List.mem_singleton] at hlast
    rw [hlast, hsequence]
    exact (h.numbered found hfound).2

/-- What is pending is no matter of what was placed. -/
theorem Placed.setPending (h : f.Placed placed) {cores : List Core}
    (hcores : cores.map (fun core => { core with pending := "" }) =
      f.cores.map fun core => { core with pending := "" }) (complete : List Bool) (latest : Option Nat) :
    Placed ⟨f.sessionId, f.next, cores, complete, latest⟩ placed := by
  have hmap : ∀ {β : Type} (g : Core → β), (∀ core, g { core with pending := "" } = g core) →
      cores.map g = f.cores.map g := by
    intro β g hg
    have hg' : g = g ∘ fun core => { core with pending := "" } := funext fun core => (hg core).symm
    rw [hg', ← List.map_map, hcores, List.map_map]
  have hget : ∀ index : Nat, cores[index]?.map (fun core => { core with pending := "" }) =
      f.cores[index]?.map fun core => { core with pending := "" } := by
    intro index
    rw [← List.getElem?_map, hcores, List.getElem?_map]
  constructor
  · rw [hmap Core.committed fun _ => rfl]
    exact h.words
  · have hlength := congrArg List.length hcores
    rw [List.length_map, List.length_map] at hlength
    rw [hlength]
    exact h.known
  · intro index core hcore
    have hold := hget index
    rw [hcore, Option.map_some] at hold
    obtain ⟨old, hold, heq⟩ := Option.map_eq_some_iff.mp hold.symm
    have hcommitted := congrArg Core.committed heq
    exact hcommitted.symm.trans (h.held index old hold)
  · intro entry hentry htext
    obtain ⟨core, hcore, hidentified⟩ := h.identified entry hentry htext
    have hnew := hget entry.1
    rw [hcore, Option.map_some] at hnew
    obtain ⟨new, hnew, heq⟩ := Option.map_eq_some_iff.mp hnew
    obtain ⟨-, -, hcommitted, -, hlanguage, hspeaker⟩ := Core.mk.inj heq
    refine ⟨new, hnew, ?_, ?_, ?_⟩
    · rw [hcommitted]
      exact hidentified.committed
    · rw [hlanguage]
      exact hidentified.language
    · rw [hspeaker]
      exact hidentified.speaker
  · intro core hcore
    have hmem : ({ core with pending := "" } : Core) ∈ f.cores.map fun core => { core with pending := "" } := by
      rw [← hcores]
      exact List.mem_map_of_mem hcore
    obtain ⟨old, hold, heq⟩ := List.mem_map.mp hmem
    obtain ⟨hid, hsequence, -⟩ := Core.mk.inj heq
    rw [← hid, ← hsequence]
    exact h.numbered old hold
  · rw [hmap Core.sequence fun _ => rfl]
    exact h.ascending

/-- Which segments are closed is no matter of words. -/
theorem Worded.close (h : f.Worded placed tail) {complete : List Bool} {latest : Option Nat}
    (hcurrent : ∃ closed current, Current { f with complete, latest } closed current) :
    Worded { f with complete, latest } placed tail :=
  { words := h.words, known := h.known, held := h.held, identified := h.identified, numbered := h.numbered,
    ascending := h.ascending, current := hcurrent, tail := h.tail }

/-- A segment is opened behind those there are. -/
theorem Worded.create (h : f.Worded placed "") :
    (f.opened f.cores (.fresh f.sessionId f.next) (f.next + 1)).Worded placed "" := by
  have hpending : ∀ core ∈ f.cores, core.pending = "" := by
    obtain ⟨front, last, hcores, hfront, htail⟩ := h.tail
    intro core hcore
    rw [hcores, List.mem_append] at hcore
    rcases hcore with hcore | hcore
    · exact hfront core hcore
    · cases last with
      | none => cases hcore
      | some last =>
        rw [Option.toList_some, List.mem_singleton] at hcore
        rw [hcore]
        simpa using htail
  refine { h.toPlaced.create (.fresh f.sessionId f.next) rfl rfl rfl _ _ with current := ?_, tail := ?_ }
  · exact ⟨f.cores, some (.fresh f.sessionId f.next), ⟨rfl, rfl, rfl⟩⟩
  · exact ⟨f.cores, some (.fresh f.sessionId f.next), rfl, hpending, rfl⟩

/-- Only the open segment has a tail. -/
theorem Worded.pending {core : Core} {next : Nat} (h : (f.opened closed core next).Worded placed tail) :
    (∀ core ∈ closed, core.pending = "") ∧ core.pending = tail := by
  obtain ⟨front, last, hcores, hpending, htail⟩ := h.tail
  cases last with
  | none =>
    rw [Option.toList_none, List.append_nil] at hcores
    subst hcores
    refine ⟨fun core hcore => hpending core (List.mem_append_left _ hcore), ?_⟩
    rw [hpending core (List.mem_append_right _ (List.mem_singleton_self core)), ← htail]
    rfl
  | some last =>
    obtain ⟨rfl, hlast⟩ := List.append_inj' hcores rfl
    cases hlast
    exact ⟨hpending, by simpa using htail⟩

theorem originalLanguage_ne {language : String} (h : token.originalLanguage = some language) : language ≠ "und" := by
  simp only [SttStreamToken.originalLanguage, normalizedOptionalLanguage, Option.filter_eq_some_iff] at h
  simpa using (Bool.and_eq_true_iff.mp h.2).2

/-- What the identity of an earlier token says stays true. -/
theorem Identified.push {core : Core} {earlier : SttStreamToken} (h : Identified (Labelled placed) earlier core)
    (hearlier : earlier ∈ placed.map Prod.snd) (hfinal : token.isFinal = true) (hmatches : core.Matches token)
    (index : Nat) : Identified (Labelled (placed ++ [(index, token)])) earlier (core.push token) := by
  rw [Core.push, if_pos hfinal]
  refine ⟨by simp [h.committed], ?_, ?_⟩
  · intro language hlanguage
    have hcore := h.language language hlanguage
    cases htoken : token.originalLanguage with
    | none => exact hcore
    | some new =>
      have heq := hmatches.language language new hcore htoken (originalLanguage_ne hlanguage)
        (originalLanguage_ne htoken)
      simp [heq]
  · intro hlabelled speaker hspeaker
    have hbefore : Labelled placed := fun entry hentry => hlabelled entry (List.mem_append_left _ hentry)
    have hcore := h.speaker hbefore speaker hspeaker
    cases htoken : token.providerSpeaker with
    | none => exact hcore
    | some new =>
      have hold : speaker ≠ "und" := by
        obtain ⟨entry, hentry, rfl⟩ := List.mem_map.mp hearlier
        rintro rfl
        exact hbefore entry hentry hspeaker
      have hnew : new ≠ "und" := by
        rintro rfl
        exact hlabelled (index, token) (by simp) htoken
      simp [hmatches.speaker speaker new hcore htoken hold hnew]

/-- A final token is added to the open segment. -/
theorem Worded.pushFinal {core : Core} {next : Nat} (h : (f.opened closed core next).Worded placed "")
    (hfinal : token.isFinal = true) (hmatches : core.committed ≠ "" → core.Matches token) :
    (f.opened closed (core.push token) next).Worded (placed ++ [(closed.length, token)]) "" := by
  have hpush : core.push token = { core with
      committed := core.committed ++ token.text
      language := token.originalLanguage.or core.language
      speaker := token.providerSpeaker.or core.speaker } := by
    rw [Core.push, if_pos hfinal]
  have hnew : ∀ index, placedAt (placed ++ [(closed.length, token)]) index =
      placedAt placed index ++ if index = closed.length then [token] else [] := by
    intro index
    rw [placedAt_append]
    split
    · next heq => simp [placedAt, heq]
    · next hne => simp [placedAt, Ne.symm hne]
  refine { words := ?_, known := ?_, held := ?_, identified := ?_, numbered := ?_, ascending := ?_,
           current := ?_, tail := ?_ }
  · have hwords := h.words
    simp only [opened, List.map_append, List.map_singleton, joinTexts_append, joinTexts_singleton, hpush,
      textsOf_append] at hwords ⊢
    rw [← String.append_assoc, hwords]
    simp [textsOf]
  · intro entry hentry
    rcases List.mem_append.mp hentry with hentry | hentry
    · simpa [opened] using h.known entry hentry
    · rw [List.mem_singleton.mp hentry]
      simp [opened]
  · intro index found hfound
    rw [hnew, textsOf_append]
    rcases getElem?_concat.mp hfound with hfound | ⟨rfl, rfl⟩
    · have hlt := (List.getElem?_eq_some_iff.mp hfound).1
      rw [h.held index found (getElem?_concat.mpr (.inl hfound)), if_neg (Nat.ne_of_lt hlt)]
      simp [textsOf, joinTexts]
    · rw [← h.held closed.length core (getElem?_concat.mpr (.inr ⟨rfl, rfl⟩)), if_pos rfl, hpush]
      simp [textsOf]
  · intro entry hentry htext
    rcases List.mem_append.mp hentry with hentry | hentry
    · obtain ⟨found, hfound, hidentified⟩ := h.identified entry hentry htext
      rcases getElem?_concat.mp hfound with hfound | ⟨hindex, rfl⟩
      · refine ⟨found, getElem?_concat.mpr (.inl hfound), hidentified.committed, hidentified.language, ?_⟩
        intro hlabelled
        exact hidentified.speaker fun entry hentry => hlabelled entry (List.mem_append_left _ hentry)
      · exact ⟨core.push token, getElem?_concat.mpr (.inr ⟨hindex, rfl⟩),
          hidentified.push (List.mem_map_of_mem hentry) hfinal (hmatches hidentified.committed) _⟩
    · rw [List.mem_singleton.mp hentry] at htext ⊢
      refine ⟨core.push token, getElem?_concat.mpr (.inr ⟨rfl, rfl⟩), ?_, ?_, ?_⟩
      · simp only [] at htext
        simp [hpush, htext]
      · intro language hlanguage
        simp only [] at hlanguage
        simp [hpush, hlanguage]
      · intro _ speaker hspeaker
        simp only [] at hspeaker
        simp [hpush, hspeaker]
  · intro found hfound
    rcases List.mem_append.mp hfound with hfound | hfound
    · exact h.numbered found (List.mem_append_left _ hfound)
    · rw [List.mem_singleton.mp hfound, hpush]
      exact h.numbered core (by simp [opened])
  · have hascending := h.ascending
    simp only [opened, List.map_append, List.map_singleton, hpush] at hascending ⊢
    exact hascending
  · exact ⟨closed, some (core.push token), ⟨rfl, rfl, rfl⟩⟩
  · refine ⟨closed, some (core.push token), rfl, h.pending.1, ?_⟩
    simp [hpush, h.pending.2]

/-- Any other token is added to its tail. -/
theorem Worded.pushTail {core : Core} {next : Nat} (h : (f.opened closed core next).Worded placed tail)
    (hfinal : token.isFinal = false) :
    (f.opened closed (core.push token) next).Worded placed (tail ++ token.text) := by
  have hpush : core.push token = { core with pending := core.pending ++ token.text } := by
    rw [Core.push, if_neg (by simp [hfinal])]
  refine { words := ?_, known := ?_, held := ?_, identified := ?_, numbered := ?_, ascending := ?_,
           current := ?_, tail := ?_ }
  · have hwords := h.words
    simp only [opened, List.map_append, List.map_singleton, hpush] at hwords ⊢
    exact hwords
  · simpa [opened] using h.known
  · intro index found hfound
    rcases getElem?_concat.mp hfound with hfound | ⟨rfl, rfl⟩
    · exact h.held index found (getElem?_concat.mpr (.inl hfound))
    · rw [← h.held closed.length core (getElem?_concat.mpr (.inr ⟨rfl, rfl⟩)), hpush]
  · intro entry hentry htext
    obtain ⟨found, hfound, hidentified⟩ := h.identified entry hentry htext
    rcases getElem?_concat.mp hfound with hfound | ⟨hindex, rfl⟩
    · exact ⟨found, getElem?_concat.mpr (.inl hfound), hidentified⟩
    · refine ⟨core.push token, getElem?_concat.mpr (.inr ⟨hindex, rfl⟩), ?_⟩
      rw [hpush]
      exact ⟨hidentified.committed, hidentified.language, hidentified.speaker⟩
  · intro found hfound
    rcases List.mem_append.mp hfound with hfound | hfound
    · exact h.numbered found (List.mem_append_left _ hfound)
    · rw [List.mem_singleton.mp hfound, hpush]
      exact h.numbered core (by simp [opened])
  · have hascending := h.ascending
    simp only [opened, List.map_append, List.map_singleton, hpush] at hascending ⊢
    exact hascending
  · exact ⟨closed, some (core.push token), ⟨rfl, rfl, rfl⟩⟩
  · refine ⟨closed, some (core.push token), rfl, h.pending.1, ?_⟩
    simp [hpush, h.pending.2]

end

end Frame

end Zulangue.Assembler
