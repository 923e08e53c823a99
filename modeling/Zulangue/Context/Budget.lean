import Zulangue.Context.Receipts

/-!
# The compiled Context is within its budget and accounted for
-/

namespace Zulangue.Context

open Zulangue.Lib.Greedy

/-! ## What a pass keeps -/

section
variable {α : Type} {start : Compiling} {candidates : List (Candidate α)} {count : α → Nat}
  {state : Compiling × List α}

/-- What the candidates of one source count for. -/
def offered (origin : CandidateOrigin) (count : α → Nat) (candidates : List (Candidate α)) : Nat :=
  (candidates.map fun candidate => share origin candidate.origin (count candidate.value)).sum

/-- After some candidates, the values of all of them are known, and each of them is accounted for. -/
structure Passed (start : Compiling) (candidates : List (Candidate α)) (count : α → Nat)
    (state : Compiling × List α) : Prop where
  seen : ∀ value, value ∈ state.2 ↔ value ∈ candidates.map Candidate.value
  sources : state.1.sources.map ContextReceiptSource.origin = start.sources.map ContextReceiptSource.origin
  accounts : ∀ origin items scalars, Accounted start origin items scalars →
    Accounted state.1 origin (items + offered origin (fun _ => 1) candidates)
      (scalars + offered origin count candidates)

theorem offered_concat (origin : CandidateOrigin) (count : α → Nat) (candidates : List (Candidate α))
    (candidate : Candidate α) :
    offered origin count (candidates ++ [candidate]) =
      offered origin count candidates + share origin candidate.origin (count candidate.value) := by
  simp [offered]

theorem Passed.nil (start : Compiling) (count : α → Nat) : Passed start [] count (start, []) :=
  ⟨fun _ => by simp, rfl, fun _ _ _ h => h⟩

theorem Passed.next (h : Passed start candidates count state) {candidate : Candidate α}
    {compiling : Compiling} {seen : List α}
    (hseen : ∀ value, value ∈ seen ↔ value = candidate.value ∨ value ∈ state.2)
    (hsources : compiling.sources.map ContextReceiptSource.origin =
      state.1.sources.map ContextReceiptSource.origin)
    (haccounts : ∀ origin items scalars, Accounted state.1 origin items scalars →
      Accounted compiling origin (items + share origin candidate.origin 1)
        (scalars + share origin candidate.origin (count candidate.value))) :
    Passed start (candidates ++ [candidate]) count (compiling, seen) := by
  constructor
  · intro value
    rw [hseen, h.seen, List.map_append, List.mem_append, List.map_singleton, List.mem_singleton]
    exact or_comm
  · rw [hsources, h.sources]
  · intro origin items scalars hstart
    have hnext := haccounts origin _ _ (h.accounts origin items scalars hstart)
    rw [offered_concat, offered_concat, ← Nat.add_assoc, ← Nat.add_assoc]
    exact hnext

end

/-! ## A pass over a list -/

section
variable {α : Type} [DecidableEq α] {list : EntryList α} {limit : Nat} {start : Compiling}

/-- After some candidates, the list holds those that fitted. -/
structure ListPassed (list : EntryList α) (limit : Nat) (start : Compiling) (candidates : List (Candidate α))
    (state : Compiling × List α) : Prop extends Passed start candidates list.scalars state where
  picks : Picks (fun taken => serializedScalarCount (list.withEntries start.context taken) ≤ limit)
    (candidates.map Candidate.value) (list.entries state.1.context)
  context : state.1.context = list.withEntries start.context (list.entries state.1.context)

theorem ListPassed.try {candidates : List (Candidate α)} {state : Compiling × List α}
    (h : ListPassed list limit start candidates state) {candidate : Candidate α}
    (hknown : candidate.origin ∈ start.sources.map ContextReceiptSource.origin) :
    ListPassed list limit start (candidates ++ [candidate]) (tryCandidate list limit state candidate) := by
  have horigin : candidate.origin ∈ state.1.sources.map ContextReceiptSource.origin := h.sources ▸ hknown
  have hwith : ∀ taken, list.withEntries state.1.context taken = list.withEntries start.context taken := by
    intro taken
    rw [h.context, list.withEntries_twice]
  have hpicks := h.picks
  simp only [tryCandidate]
  split
  · next hseen =>
    have hpassed : Passed start (candidates ++ [candidate]) list.scalars
        (state.1.omitted candidate.origin list.kind .duplicate (list.scalars candidate.value), state.2) :=
      h.toPassed.next (by grind) rfl
        fun origin items scalars ha => ha.omitted state.1.context list.kind (by decide) _
    refine { hpassed with picks := ?_, context := h.context }
    rw [List.map_append]
    exact hpicks.again ((h.seen _).mp hseen)
  · next hseen =>
    have hnew : candidate.value ∉ candidates.map Candidate.value := fun hmem => hseen ((h.seen _).mpr hmem)
    split
    · next hlarge =>
      have hpassed : Passed start (candidates ++ [candidate]) list.scalars
          (state.1.omitted candidate.origin list.kind .budgetExceeded (list.scalars candidate.value),
            candidate.value :: state.2) :=
        h.toPassed.next (by simp) rfl
          fun origin items scalars ha => ha.omitted state.1.context list.kind (by decide) _
      refine { hpassed with picks := ?_, context := h.context }
      rw [List.map_append]
      apply hpicks.skip
      rw [← hwith]
      omega
    · next hsmall =>
      have hpassed : Passed start (candidates ++ [candidate]) list.scalars
          (Compiling.included { state.1 with
            context := list.withEntries state.1.context (list.entries state.1.context ++ [candidate.value]) }
            candidate.origin (list.scalars candidate.value), candidate.value :: state.2) :=
        h.toPassed.next (by simp) (map_origin_recordIncluded _ _ _ _)
          fun origin items scalars ha => ha.included _ _ horigin
      refine { hpassed with picks := ?_, context := ?_ }
      · simp only [Compiling.included, list.entries_withEntries, List.map_append]
        apply hpicks.take hnew
        rw [← hwith]
        omega
      · simp only [Compiling.included, list.entries_withEntries]
        exact hwith _

theorem compileList_passed (candidates : List (Candidate α)) (hempty : list.entries start.context = [])
    (hknown : ∀ candidate ∈ candidates, candidate.origin ∈ start.sources.map ContextReceiptSource.origin) :
    ListPassed list limit start candidates (candidates.foldl (tryCandidate list limit) (start, [])) := by
  induction candidates using List.reverseRecOn with
  | nil =>
    refine { Passed.nil start list.scalars with picks := ?_, context := ?_ }
    · rw [List.foldl_nil, hempty]
      exact .nil
    · exact (list.withEntries_self start.context).symm
  | append_singleton candidates candidate ih =>
    have hbefore := ih fun other hother => hknown other (List.mem_append_left _ hother)
    rw [List.foldl_append]
    exact hbefore.try (hknown candidate (by simp))

end

/-! ## The pass over the texts -/

/-- The texts behind each other. -/
def joined (pieces : List (List Char)) : String := String.ofList ("\n\n".toList.intercalate pieces)

theorem joined_eq_empty {pieces : List (List Char)} (h : ∀ piece ∈ pieces, piece ≠ []) :
    joined pieces = "" ↔ pieces = [] := by
  constructor
  · intro hjoined
    cases pieces with
    | nil => rfl
    | cons piece pieces =>
      have hpiece := h piece (by simp)
      cases pieces with
      | nil => simp [joined, hpiece] at hjoined
      | cons next pieces => simp [joined, List.intercalate_cons_cons] at hjoined
  · rintro rfl
    rfl

theorem joined_concat {pieces : List (List Char)} (h : ∀ piece ∈ pieces, piece ≠ []) (piece : List Char) :
    joined (pieces ++ [piece]) = joined pieces ++ textSeparator (joined pieces) ++ String.ofList piece := by
  have hconcat : pieces ≠ [] → "\n\n".toList.intercalate (pieces ++ [piece]) =
      "\n\n".toList.intercalate pieces ++ "\n\n".toList ++ piece := by
    intro hne
    induction pieces with
    | nil => exact absurd rfl hne
    | cons first pieces ih =>
      cases pieces with
      | nil => simp [List.intercalate_cons_cons]
      | cons second pieces =>
        have hrest := ih (fun piece hpiece => h piece (List.mem_cons_of_mem _ hpiece)) (by simp)
        simp only [List.cons_append] at hrest
        simp only [List.cons_append, List.intercalate_cons_cons, hrest, List.append_assoc]
  by_cases hnil : pieces = []
  · subst hnil
    simp [joined, textSeparator]
  · have hne : joined pieces ≠ "" := fun hempty => hnil ((joined_eq_empty h).mp hempty)
    rw [textSeparator, if_neg hne, joined, hconcat hnil, joined, String.ofList_append, String.ofList_append,
      String.ofList_toList]

section
variable {limit : Nat} {start : Compiling}

/-- After some texts, the Context holds the pieces that fitted. -/
structure TextPassed (limit : Nat) (start : Compiling) (candidates : List (Candidate String))
    (state : Compiling × List String) (pieces : List (List Char)) : Prop
    extends Passed start candidates String.length state where
  picks : PicksCut (fun taken => serializedScalarCount { start.context with text := joined taken } ≤ limit)
    (candidates.map fun candidate => candidate.value.toList) pieces
  context : state.1.context = { start.context with text := joined pieces }
  filled : ∀ piece ∈ pieces, piece ≠ []

theorem appendText_joined {context : SonioxContext} {pieces : List (List Char)}
    (h : ∀ piece ∈ pieces, piece ≠ []) (piece : List Char) :
    SonioxContext.appendText { context with text := joined pieces } (textSeparator (joined pieces))
      (String.ofList piece) = { context with text := joined (pieces ++ [piece]) } := by
  rw [joined_concat h]
  rfl

/-- A shorter piece takes no more. -/
theorem serializedScalarCount_take_le (context : SonioxContext) {pieces : List (List Char)}
    (h : ∀ piece ∈ pieces, piece ≠ []) (piece : List Char) {m n : Nat} (hm : 0 < m) (hmn : m ≤ n) :
    serializedScalarCount { context with text := joined (pieces ++ [piece.take m]) } ≤
      serializedScalarCount { context with text := joined (pieces ++ [piece.take n]) } := by
  by_cases hpiece : piece = []
  · simp [hpiece]
  · have hne : joined (pieces ++ [piece.take m]) ≠ "" := by
      rw [joined_concat h]
      have htake : piece.take m ≠ [] := by
        simp only [ne_eq, List.take_eq_nil_iff, hpiece, or_false]
        omega
      simp [htake]
    have hlonger : joined (pieces ++ [piece.take n]) =
        joined (pieces ++ [piece.take m]) ++ String.ofList ((piece.take n).drop m) := by
      have hsplit : piece.take n = piece.take m ++ (piece.take n).drop m := by
        have htakes := List.take_append_drop m (piece.take n)
        rw [List.take_take, Nat.min_eq_left hmn] at htakes
        exact htakes.symm
      rw [joined_concat h, joined_concat h, String.append_assoc, String.append_assoc, String.append_assoc,
        ← String.ofList_append, ← hsplit]
    have hfront : (joined (pieces ++ [piece.take m])).toList ≠ [] := by simpa using hne
    have hmono := @serializedScalarCount_mono context _ ((piece.take n).drop m) hfront
    rw [String.ofList_append, String.ofList_toList, ← hlonger] at hmono
    exact hmono

/-- Where the whole text does not fit, its longest part that fits is found. -/
theorem largestTextPrefixThatFits_spec {context : SonioxContext} {pieces : List (List Char)}
    (h : ∀ piece ∈ pieces, piece ≠ []) {candidate : String} (hcandidate : candidate ≠ "")
    (hlarge : ¬ serializedScalarCount { context with text := joined (pieces ++ [candidate.toList]) } ≤ limit) :
    ∃ n, n < candidate.length ∧
      largestTextPrefixThatFits { context with text := joined pieces } (textSeparator (joined pieces)) candidate
        limit = (if n = 0 then { context with text := joined pieces }
          else { context with text := joined (pieces ++ [candidate.toList.take n]) }, n) ∧
      (n = 0 ∨ serializedScalarCount { context with text := joined (pieces ++ [candidate.toList.take n]) } ≤ limit) ∧
      ∀ m, n < m → m ≤ candidate.toList.length →
        ¬ serializedScalarCount { context with text := joined (pieces ++ [candidate.toList.take m]) } ≤ limit := by
  let fits : Nat → Bool := fun m =>
    serializedScalarCount { context with text := joined (pieces ++ [candidate.toList.take m]) } ≤ limit
  have hfits : (fun middle => decide (serializedScalarCount
      (SonioxContext.appendText { context with text := joined pieces } (textSeparator (joined pieces))
        (prefixChars candidate middle)) ≤ limit)) = fits := by
    funext middle
    simp only [fits, prefixChars, appendText_joined h]
  have hsmaller : ∀ m n, 0 < m → m ≤ n → fits n = true → fits m = true := by
    intro m n hm hmn hn
    have hle := serializedScalarCount_take_le context h candidate.toList hm hmn
    simp only [fits, decide_eq_true_eq] at hn ⊢
    omega
  have hbeyond : ∀ m, candidate.length ≤ m → fits m = false := by
    intro m hm
    have htake : candidate.toList.take m = candidate.toList := List.take_of_length_le hm
    simpa [fits, htake] using hlarge
  obtain ⟨-, hupper, hfound, hlarger⟩ :=
    bisect_spec hsmaller (Nat.zero_le candidate.length) (.inl rfl) fun m hm => hbeyond m (Nat.le_of_lt hm)
  refine ⟨bisect fits 0 candidate.length, ?_, ?_, ?_, ?_⟩
  · rcases hfound with hzero | hfound
    · have hpositive : 0 < candidate.length := by
        rw [← String.length_toList, List.length_pos_iff]
        simpa using hcandidate
      omega
    · by_contra hnot
      rw [hbeyond _ (Nat.le_of_not_lt hnot)] at hfound
      cases hfound
  · simp only [largestTextPrefixThatFits, hfits]
    simp only [prefixChars, appendText_joined h]
    split
    · next hzero => simp [hzero]
    · rfl
  · simpa [fits] using hfound
  · intro m hm _
    simpa [fits] using hlarger m hm

theorem TextPassed.try {candidates : List (Candidate String)} {state : Compiling × List String}
    {pieces : List (List Char)} (h : TextPassed limit start candidates state pieces) {candidate : Candidate String}
    (hknown : candidate.origin ∈ start.sources.map ContextReceiptSource.origin) (hvalue : candidate.value ≠ "") :
    ∃ pieces', TextPassed limit start (candidates ++ [candidate]) (tryText limit state candidate) pieces' := by
  have horigin : candidate.origin ∈ state.1.sources.map ContextReceiptSource.origin := h.sources ▸ hknown
  have hmem : candidate.value.toList ∈ candidates.map (fun candidate => candidate.value.toList) ↔
      candidate.value ∈ candidates.map Candidate.value := by
    simp [String.toList_inj]
  have hwhole : SonioxContext.appendText { start.context with text := joined pieces }
      (textSeparator (joined pieces)) candidate.value =
      { start.context with text := joined (pieces ++ [candidate.value.toList]) } := by
    rw [← appendText_joined h.filled, String.ofList_toList]
  have hlength : candidate.value.toList.length = candidate.value.length := String.length_toList
  have htoList : candidate.value.toList ≠ [] := by simpa using hvalue
  have hfilled : ∀ last : List Char, last ≠ [] → ∀ piece ∈ pieces ++ [last], piece ≠ [] := by
    intro last hlast piece hpiece
    rcases List.mem_append.mp hpiece with hpiece | hpiece
    · exact h.filled piece hpiece
    · rw [List.mem_singleton.mp hpiece]
      exact hlast
  simp only [tryText, if_neg hvalue, h.context, hwhole]
  split
  · next hseen =>
    have hpassed : Passed start (candidates ++ [candidate]) String.length
        (state.1.omitted candidate.origin .text .duplicate candidate.value.length, state.2) :=
      h.toPassed.next (by grind) rfl fun origin items scalars ha => ha.omitted state.1.context .text (by decide) _
    refine ⟨pieces, { hpassed with picks := ?_, context := h.context, filled := h.filled }⟩
    rw [List.map_append]
    exact h.picks.again (hmem.mpr ((h.seen _).mp hseen))
  · next hseen =>
    have hnew : candidate.value.toList ∉ candidates.map (fun candidate => candidate.value.toList) :=
      fun hold => hseen ((h.seen _).mpr (hmem.mp hold))
    split
    · next hsmall =>
      have hpassed : Passed start (candidates ++ [candidate]) String.length
          (Compiling.included { state.1 with
            context := { start.context with text := joined (pieces ++ [candidate.value.toList]) } }
            candidate.origin candidate.value.length, candidate.value :: state.2) :=
        h.toPassed.next (by simp) (map_origin_recordIncluded _ _ _ _)
          fun origin items scalars ha => ha.included _ _ horigin
      refine ⟨_, { hpassed with picks := ?_, context := rfl, filled := hfilled _ htoList }⟩
      rw [List.map_append]
      exact h.picks.take hnew hsmall
    · next hlarge =>
      obtain ⟨n, hn, hcut, hfits, hlonger⟩ := largestTextPrefixThatFits_spec h.filled hvalue hlarge
      rw [hcut]
      by_cases hzero : n = 0
      · subst hzero
        simp only [if_true]
        have hpassed : Passed start (candidates ++ [candidate]) String.length
            (Compiling.omitted { state.1 with context := { start.context with text := joined pieces } }
              candidate.origin .text .budgetExceeded candidate.value.length, candidate.value :: state.2) :=
          h.toPassed.next (by simp) rfl fun origin items scalars ha => ha.omitted _ .text (by decide) _
        refine ⟨pieces, { hpassed with picks := ?_, context := rfl, filled := h.filled }⟩
        rw [List.map_append]
        exact h.picks.skip hlonger
      · simp only [if_neg hzero, if_pos hn]
        have htotal : n + (candidate.value.length - n) = candidate.value.length := by omega
        have hpassed : Passed start (candidates ++ [candidate]) String.length
            ((Compiling.included { state.1 with
              context := { start.context with text := joined (pieces ++ [candidate.value.toList.take n]) } }
              candidate.origin n).omitted candidate.origin .text .truncated (candidate.value.length - n),
              candidate.value :: state.2) := by
          apply h.toPassed.next (by simp) (map_origin_recordIncluded _ _ _ _)
          intro origin items scalars ha
          have hcutAccounts := ha.cut { start.context with text := joined (pieces ++ [candidate.value.toList.take n]) }
            .text n (candidate.value.length - n) horigin
          rw [htotal] at hcutAccounts
          exact hcutAccounts
        refine ⟨_, { hpassed with picks := ?_, context := rfl, filled := hfilled _ (by simp [hzero, hvalue]) }⟩
        rw [List.map_append]
        exact h.picks.cut hnew (by omega) (hlength ▸ hn) (hfits.resolve_left hzero) hlonger

theorem compileTexts_passed (candidates : List (Candidate String)) (hempty : start.context.text = "")
    (hknown : ∀ candidate ∈ candidates, candidate.origin ∈ start.sources.map ContextReceiptSource.origin)
    (hvalue : ∀ candidate ∈ candidates, candidate.value ≠ "") :
    ∃ pieces, TextPassed limit start candidates (candidates.foldl (tryText limit) (start, [])) pieces := by
  induction candidates using List.reverseRecOn with
  | nil =>
    have hjoined : joined [] = start.context.text := hempty.symm
    refine ⟨[], { Passed.nil start String.length with picks := .nil, context := ?_, filled := by simp }⟩
    rw [hjoined]
    rfl
  | append_singleton candidates candidate ih =>
    obtain ⟨pieces, hbefore⟩ := ih (fun other hother => hknown other (List.mem_append_left _ hother))
      fun other hother => hvalue other (List.mem_append_left _ hother)
    rw [List.foldl_append]
    exact hbefore.try (hknown candidate (by simp)) (hvalue candidate (by simp))

end

end Zulangue.Context
