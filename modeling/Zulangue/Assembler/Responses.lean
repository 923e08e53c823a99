import Zulangue.Assembler.Words

/-!
# A response and what the store makes of it

A response whose final source tokens come first adds them to the words and replaces the tail.
Translations, updates and what the store answers leave the words as they are.
-/

namespace Zulangue.Assembler

theorem Frame.Current.eq_opened {f : Frame} {closed : List Core} {core : Core}
    (h : f.Current closed (some core)) : f.opened closed core f.next = f := by
  obtain ⟨sessionId, next, cores, complete, latest⟩ := f
  obtain ⟨hcores, hcomplete, hlatest⟩ := h
  simp only [Option.toList_some, List.map_singleton, Option.map_some] at hcores hcomplete hlatest
  rw [hcores, hcomplete, hlatest]
  rfl

namespace RealtimeUtteranceAssembler

/-! ## Source tokens -/

/-- Takes source tokens one after the other. -/
def takeOriginals (a : RealtimeUtteranceAssembler) (tokens : List SttStreamToken) : RealtimeUtteranceAssembler :=
  tokens.foldl (fun a token => (a.applyOriginalToken token).1) a

/-- The segments that take the tokens. -/
def placements : RealtimeUtteranceAssembler → List SttStreamToken → List (Nat × SttStreamToken)
  | _, [] => []
  | a, token :: tokens =>
    ((a.applyOriginalToken token).2, token) :: placements (a.applyOriginalToken token).1 tokens

theorem takeOriginals_append (a : RealtimeUtteranceAssembler) (front back : List SttStreamToken) :
    a.takeOriginals (front ++ back) = (a.takeOriginals front).takeOriginals back :=
  List.foldl_append

theorem placements_append (a : RealtimeUtteranceAssembler) (front back : List SttStreamToken) :
    a.placements (front ++ back) = a.placements front ++ (a.takeOriginals front).placements back := by
  induction front generalizing a with
  | nil => rfl
  | cons token front ih =>
    rw [List.cons_append, placements, ih]
    rfl

theorem snd_placements (a : RealtimeUtteranceAssembler) (tokens : List SttStreamToken) :
    (a.placements tokens).map Prod.snd = tokens := by
  induction tokens generalizing a with
  | nil => rfl
  | cons token tokens ih => rw [placements, List.map_cons, ih]

variable {a : RealtimeUtteranceAssembler} {placed : List (Nat × SttStreamToken)} {tail : String}

theorem worded_final (h : a.frame.Worded placed "") {token : SttStreamToken} (hfinal : token.isFinal = true) :
    (a.applyOriginalToken token).1.frame.Worded (placed ++ [((a.applyOriginalToken token).2, token)]) "" := by
  obtain ⟨closed, current, hcurrent⟩ := h.current
  obtain ⟨closed', core, next, htakes, hframe, hindex⟩ := frame_applyOriginalToken hcurrent token
  rw [hframe, hindex]
  cases htakes with
  | first =>
    have hcores : a.frame.cores = closed := hcurrent.cores.trans (List.append_nil closed)
    rw [← hcores]
    exact h.create.pushFinal hfinal fun hne => absurd rfl hne
  | same hmatches =>
    rw [← hcurrent.eq_opened] at h
    exact h.pushFinal hfinal (hmatches hfinal)
  | @next core _ =>
    have hcores : a.frame.cores = closed ++ [core] := hcurrent.cores
    rw [← hcores]
    exact h.create.pushFinal hfinal fun hne => absurd rfl hne

theorem worded_tail (h : a.frame.Worded placed tail) (hlatest : a.frame.latest = none → tail = "")
    {token : SttStreamToken} (hfinal : token.isFinal = false) :
    (a.applyOriginalToken token).1.frame.Worded placed (tail ++ token.text) ∧
      (a.applyOriginalToken token).1.frame.latest ≠ none := by
  obtain ⟨closed, current, hcurrent⟩ := h.current
  obtain ⟨closed', core, next, htakes, hframe, -⟩ := frame_applyOriginalToken hcurrent token
  rw [hframe]
  refine ⟨?_, by simp [Frame.opened]⟩
  cases htakes with
  | first =>
    obtain rfl := hlatest hcurrent.latest
    have hcores : a.frame.cores = closed := hcurrent.cores.trans (List.append_nil closed)
    rw [← hcores]
    exact h.create.pushTail hfinal
  | same _ =>
    rw [← hcurrent.eq_opened] at h
    exact h.pushTail hfinal
  | next hnext =>
    rw [hfinal] at hnext
    cases hnext

theorem worded_finals {tokens : List SttStreamToken} (h : a.frame.Worded placed "")
    (hfinal : ∀ token ∈ tokens, token.isFinal = true) :
    (a.takeOriginals tokens).frame.Worded (placed ++ a.placements tokens) "" := by
  induction tokens generalizing a placed with
  | nil => simpa [takeOriginals, placements] using h
  | cons token tokens ih =>
    have hnext := worded_final h (hfinal token (by simp))
    have hrest := ih hnext fun other hother => hfinal other (by simp [hother])
    rw [List.append_assoc] at hrest
    exact hrest

theorem worded_tails {tokens : List SttStreamToken} (h : a.frame.Worded placed tail)
    (hlatest : a.frame.latest = none → tail = "") (hfinal : ∀ token ∈ tokens, token.isFinal = false) :
    (a.takeOriginals tokens).frame.Worded placed (tail ++ textsOf tokens) := by
  induction tokens generalizing a tail with
  | nil => simpa [takeOriginals, textsOf, joinTexts] using h
  | cons token tokens ih =>
    obtain ⟨hnext, hopen⟩ := worded_tail h hlatest (hfinal token (by simp))
    have hrest := ih hnext (fun hnone => absurd hnone hopen) fun other hother => hfinal other (by simp [hother])
    rw [String.append_assoc] at hrest
    exact hrest

end RealtimeUtteranceAssembler

/-! ## A response -/

/-- The source tokens of a response, the final ones in front. -/
def FinalsFirst (tokens : List SttStreamToken) : Prop :=
  (tokens.filter SttStreamToken.isOriginal).Pairwise fun token later => later.isFinal = true → token.isFinal = true

instance (tokens : List SttStreamToken) : Decidable (FinalsFirst tokens) :=
  inferInstanceAs (Decidable (List.Pairwise _ _))

def finalsOf (tokens : List SttStreamToken) : List SttStreamToken :=
  (tokens.filter SttStreamToken.isOriginal).filter SttStreamToken.isFinal

def tailOf (tokens : List SttStreamToken) : List SttStreamToken :=
  (tokens.filter SttStreamToken.isOriginal).filter fun token => !token.isFinal

theorem originals_eq {tokens : List SttStreamToken} (h : FinalsFirst tokens) :
    tokens.filter SttStreamToken.isOriginal = finalsOf tokens ++ tailOf tokens := by
  rw [FinalsFirst] at h
  rw [finalsOf, tailOf]
  generalize tokens.filter SttStreamToken.isOriginal = originals at h
  induction originals with
  | nil => rfl
  | cons token originals ih =>
    rw [List.pairwise_cons] at h
    cases hfinal : token.isFinal with
    | true =>
      rw [List.filter_cons_of_pos hfinal, List.filter_cons_of_neg (by simp [hfinal]), List.cons_append, ← ih h.2]
    | false =>
      have hnone : originals.filter SttStreamToken.isFinal = [] := by
        rw [List.filter_eq_nil_iff]
        intro later hlater hlaterFinal
        rw [h.1 later hlater hlaterFinal] at hfinal
        cases hfinal
      have hall := ih h.2
      rw [hnone, List.nil_append] at hall
      rw [List.filter_cons_of_neg (by simp [hfinal]), List.filter_cons_of_pos (by simp [hfinal]), hnone,
        List.nil_append, ← hall]

namespace RealtimeUtteranceAssembler

variable {a : RealtimeUtteranceAssembler} {placed : List (Nat × SttStreamToken)} {tail : String}

/-- The final tokens of a response and the segments that take them. -/
def placedBy (a : RealtimeUtteranceAssembler) (tokens : List SttStreamToken) : List (Nat × SttStreamToken) :=
  (a.beginResponse.placements (tokens.filter SttStreamToken.isOriginal)).filter fun entry => entry.2.isFinal

theorem worded_beginResponse (h : a.frame.Worded placed tail) : a.beginResponse.frame.Worded placed "" := by
  have hcores : a.beginResponse.frame.cores = a.frame.cores.map fun core => { core with pending := "" } := by
    simp only [frame, beginResponse, List.map_map]
    exact List.map_congr_left fun segment _ => segment.core_beginResponseRevision
  have hcomplete : a.beginResponse.frame.complete = a.frame.complete := by
    simp only [frame, beginResponse, List.map_map]
    rfl
  have hplaced : Frame.Placed ⟨a.sessionId, a.nextSequence, a.beginResponse.frame.cores, a.frame.complete,
      a.latestOriginalSegment⟩ placed := by
    apply h.toPlaced.setPending
    rw [hcores, List.map_map]
    rfl
  have hframe : a.beginResponse.frame = ⟨a.sessionId, a.nextSequence, a.beginResponse.frame.cores, a.frame.complete,
      a.latestOriginalSegment⟩ := by
    rw [← hcomplete]
    rfl
  rw [hframe]
  refine { hplaced with current := ?_, tail := ?_ }
  · obtain ⟨closed, current, hclosed, hflags, hlatest⟩ := h.current
    refine ⟨closed.map fun core => { core with pending := "" }, current.map fun core => { core with pending := "" },
      ?_, ?_, ?_⟩
    · simp only [hcores]
      rw [hclosed, List.map_append]
      cases current <;> rfl
    · simp only [hflags, List.length_map]
      cases current <;> rfl
    · rw [List.length_map]
      cases current <;> exact hlatest
  · refine ⟨a.beginResponse.frame.cores, none, by simp, ?_, rfl⟩
    intro core hcore
    rw [hcores] at hcore
    obtain ⟨old, -, rfl⟩ := List.mem_map.mp hcore
    rfl

theorem worded_originals (h : a.frame.Worded placed tail) {tokens : List SttStreamToken}
    (hordered : FinalsFirst tokens) :
    (a.beginResponse.applyOriginalTokens tokens).frame.Worded (placed ++ a.placedBy tokens)
      (textsOf (tailOf tokens)) := by
  have hbegin := worded_beginResponse h
  have hfinal : ∀ token ∈ finalsOf tokens, token.isFinal = true :=
    fun token htoken => (List.mem_filter.mp htoken).2
  have htail : ∀ token ∈ tailOf tokens, token.isFinal = false :=
    fun token htoken => by simpa using (List.mem_filter.mp htoken).2
  have hplaced : a.placedBy tokens = a.beginResponse.placements (finalsOf tokens) := by
    have hkept : ∀ (b : RealtimeUtteranceAssembler) (originals : List SttStreamToken) (p : Bool),
        (∀ token ∈ originals, token.isFinal = p) →
        (b.placements originals).filter (fun entry => entry.2.isFinal) =
          if p then b.placements originals else [] := by
      intro b originals p hp
      have hentries : ∀ entry ∈ b.placements originals, entry.2.isFinal = p := by
        intro entry hentry
        apply hp
        rw [← snd_placements b originals]
        exact List.mem_map_of_mem hentry
      cases p with
      | true => exact List.filter_eq_self.mpr hentries
      | false =>
        rw [if_neg (by decide), List.filter_eq_nil_iff]
        intro entry hentry
        simp [hentries entry hentry]
    rw [placedBy, originals_eq hordered, placements_append, List.filter_append, hkept _ _ true hfinal,
      hkept _ _ false htail, if_pos rfl, if_neg (by decide), List.append_nil]
  have happlied : a.beginResponse.applyOriginalTokens tokens =
      (a.beginResponse.takeOriginals (finalsOf tokens)).takeOriginals (tailOf tokens) := by
    rw [← takeOriginals_append, ← originals_eq hordered]
    rfl
  have htails := worded_tails (worded_finals hbegin hfinal) (fun _ => rfl) htail
  rw [happlied, hplaced]
  simpa using htails

/-! ## Translations and updates -/

theorem map_modify_eq {α β : Type} {f : α → α} {g : α → β} (h : ∀ item, g (f item) = g item) (items : List α)
    (index : Nat) : (items.modify index f).map g = items.map g := by
  induction items generalizing index with
  | nil => simp
  | cons item items ih =>
    cases index with
    | zero => simp [h]
    | succ index => simp [ih]

theorem frame_modifySegment {f : RealtimeSegmentRevision → RealtimeSegmentRevision}
    (hcore : ∀ segment, (f segment).core = segment.core)
    (hcomplete : ∀ segment, (f segment).complete = segment.complete) (index : Nat) :
    (a.modifySegment index f).frame = a.frame := by
  simp only [frame, modifySegment, map_modify_eq hcore, map_modify_eq hcomplete]

theorem frame_modifyById {f : RealtimeSegmentRevision → RealtimeSegmentRevision}
    (hcore : ∀ segment, (f segment).core = segment.core)
    (hcomplete : ∀ segment, (f segment).complete = segment.complete) (id : String) :
    (a.modifyById id f).frame = a.frame := by
  rw [modifyById]
  split
  · rfl
  · exact frame_modifySegment hcore hcomplete _

theorem frame_applyTranslationTokens (tokens : List SttStreamToken) :
    (a.applyTranslationTokens tokens).frame = a.frame := by
  have hstep : ∀ (a : RealtimeUtteranceAssembler) (token : SttStreamToken),
      (a.applyTranslationToken token).frame = a.frame := by
    intro a token
    rw [applyTranslationToken]
    split
    · rfl
    · change (a.modifySegment _ _).frame = a.frame
      apply frame_modifySegment
      · exact fun segment => segment.core_pushTranslation token
      · exact fun segment => segment.complete_pushTranslation token
  rw [applyTranslationTokens]
  induction tokens.filter fun token => token.translationStatus = .translation generalizing a with
  | nil => rfl
  | cons token tokens ih => rw [List.foldl_cons, ih, hstep]

theorem frame_takeDirtyUpdates : a.takeDirtyUpdates.1.frame = a.frame := by
  simp only [takeDirtyUpdates, frame, List.map_map]
  rfl

theorem worded_applyTokens (h : a.frame.Worded placed tail) {tokens : List SttStreamToken}
    (hordered : FinalsFirst tokens) :
    (a.applyTokens tokens).1.frame.Worded (placed ++ a.placedBy tokens) (textsOf (tailOf tokens)) := by
  rw [applyTokens, frame_takeDirtyUpdates, frame_applyTranslationTokens]
  exact worded_originals h hordered

/-! ## What the store answers -/

theorem frame_recordPersisted (id : String) (revision : Nat) : (a.recordPersisted id revision).frame = a.frame := by
  apply frame_modifyById <;> exact fun _ => rfl

theorem frame_recordTranslationPersisted (id : String) (language : Option String) :
    (a.recordTranslationPersisted id language).frame = a.frame := by
  apply frame_modifyById <;> exact fun _ => rfl

theorem frame_recordPartialRemoved (id : String) : (a.recordPartialRemoved id).frame = a.frame := by
  apply frame_modifyById <;> exact fun _ => rfl

theorem map_modify_set {α β : Type} {f : α → α} {g : α → β} {b : β} (h : ∀ item, g (f item) = b)
    (items : List α) (index : Nat) : (items.modify index f).map g = (items.map g).set index b := by
  induction items generalizing index with
  | nil => simp
  | cons item items ih =>
    cases index with
    | zero => simp [h]
    | succ index => simp [ih]

/-- A retired segment is closed, and nothing else about the words changes. -/
theorem worded_retireSourceSegment (h : a.frame.Worded placed tail) (id : String) :
    (a.retireSourceSegment id).frame.Worded placed tail := by
  cases hindex : a.segments.findIdx? (·.id = id) with
  | none =>
    rw [retireSourceSegment, hindex]
    exact h
  | some index =>
    obtain ⟨closed, current, hcores, hcomplete, hlatest⟩ := h.current
    have hlt : index < a.frame.cores.length := by
      rw [frame, List.length_map]
      exact (List.findIdx?_eq_some_iff_findIdx_eq.mp hindex).1
    have hcore : ∀ segment : RealtimeSegmentRevision, segment.retire.core = segment.core := fun _ => rfl
    have hretired : ∀ segment : RealtimeSegmentRevision, segment.retire.complete = true := fun _ => rfl
    have hframe : (a.retireSourceSegment id).frame =
        { a.frame with
          complete := a.frame.complete.set index true
          latest := if a.latestOriginalSegment = some index then none else a.latestOriginalSegment } := by
      simp only [retireSourceSegment, hindex, frame, modifySegment, map_modify_eq hcore, map_modify_set hretired]
    rw [hframe]
    apply h.close
    rw [hcores, List.length_append] at hlt
    rcases Nat.lt_or_ge index closed.length with hbefore | hlast
    · refine ⟨closed, current, hcores, ?_, ?_⟩
      · simp only [hcomplete]
        rw [List.set_append_left _ _ (by simpa using hbefore), List.set_replicate_self]
      · have hother : a.latestOriginalSegment ≠ some index := by
          intro heq
          have hsome : current.map (fun _ => closed.length) = some index := hlatest.symm.trans heq
          cases current with
          | none => cases hsome
          | some core => exact Nat.ne_of_lt hbefore (Option.some.inj hsome).symm
        simp only [if_neg hother]
        exact hlatest
    · cases current with
      | none =>
        simp only [Option.toList_none, List.length_nil] at hlt
        omega
      | some core =>
        simp only [Option.toList_some, List.length_singleton] at hlt
        obtain rfl : index = closed.length := by omega
        refine ⟨closed ++ [core], none, by simpa using hcores, ?_, ?_⟩
        · simp only [hcomplete, Option.toList_some, List.map_singleton, Option.toList_none, List.map_nil,
            List.append_nil, List.length_append, List.length_singleton]
          rw [List.set_append_right _ _ (by simp)]
          simp [List.replicate_succ']
        · have hhere : a.latestOriginalSegment = some closed.length := hlatest
          simp [hhere]

theorem worded_persistUpdate (h : a.frame.Worded placed tail) (answer : AssembledRealtimeUtterance → StoreAnswer)
    (update : AssembledRealtimeUtterance) : (a.persistUpdate answer update).frame.Worded placed tail := by
  rw [persistUpdate]
  simp only
  split
  · split
    · exact worded_retireSourceSegment h _
    · rw [frame_recordPersisted, frame_recordTranslationPersisted]
      exact h
    · rw [frame_recordPartialRemoved]
      exact h
  · rw [frame_recordPersisted]
    split
    · rw [frame_recordTranslationPersisted]
      exact h
    · split
      · rw [frame_recordTranslationPersisted]
        exact h
      · exact h

theorem worded_persistAssembledUtterances (h : a.frame.Worded placed tail)
    (answer : AssembledRealtimeUtterance → StoreAnswer) (updates : List AssembledRealtimeUtterance) :
    (a.persistAssembledUtterances answer updates).frame.Worded placed tail := by
  rw [persistAssembledUtterances]
  induction updates generalizing a with
  | nil => exact h
  | cons update updates ih => exact ih (worded_persistUpdate h answer update)

end RealtimeUtteranceAssembler

end Zulangue.Assembler
