import Mathlib.Data.List.NodupEquivFin
import Zulangue.VtMirror.Lis

/-!
# The chain that is found

The slots sort the indices into piles: along a pile the elements never ascend, and the slot of an
element is above that of each smaller one before it. So a chain takes at most one index of each pile,
and the chain that is found takes one of every pile.
-/

namespace Zulangue.VtMirror

/-- The search ends at its start or behind an index that it found below. -/
theorem lowerBound_spec (below : Nat → Bool) (fuel : Nat) {low high : Nat} (h : low ≤ high)
    (hfuel : high - low ≤ fuel) (hdown : ∀ j k, j ≤ k → k < high → below k = true → below j = true) :
    low ≤ lowerBound below fuel low high ∧ lowerBound below fuel low high ≤ high ∧
      (∀ j, low ≤ j → j < lowerBound below fuel low high → below j = true) ∧
        ∀ j, lowerBound below fuel low high ≤ j → j < high → below j = false := by
  induction fuel generalizing low high with
  | zero =>
    unfold lowerBound
    exact ⟨Nat.le_refl low, h, fun j hlow hlt => absurd hlt (by omega), fun j hlow hlt => absurd hlt (by omega)⟩
  | succ fuel ih =>
    unfold lowerBound
    by_cases hlt : low < high
    · rw [if_pos hlt]
      dsimp only
      cases hmid : below ((low + high) / 2) with
      | true =>
        obtain ⟨hlow, hhigh, hbelow, habove⟩ := @ih ((low + high) / 2 + 1) high (by omega) (by omega) hdown
        rw [if_pos rfl]
        refine ⟨by omega, hhigh, fun j hj hlast => ?_, habove⟩
        by_cases hfirst : j ≤ (low + high) / 2
        · exact hdown j _ hfirst (by omega) hmid
        · exact hbelow j (by omega) hlast
      | false =>
        obtain ⟨hlow, hhigh, hbelow, habove⟩ := @ih low ((low + high) / 2) (by omega) (by omega)
          (fun j k hjk hk => hdown j k hjk (by omega))
        rw [if_neg Bool.false_ne_true]
        refine ⟨hlow, by omega, hbelow, fun j hj hlast => ?_⟩
        by_cases hfirst : j < (low + high) / 2
        · exact habove j hj hfirst
        · apply Bool.eq_false_iff.mpr
          intro hj
          rw [hdown _ j (by omega) hlast hj] at hmid
          cases hmid
    · rw [if_neg hlt]
      exact ⟨Nat.le_refl low, h, fun j hj hlast => absurd hlast (by omega), fun j hj hlast => absurd hlast (by omega)⟩

section
variable {α : Type} [LinearOrder α] {sequence : List α} {i j k : Nat} {x : α}

/-! ## Comparing by index -/

/-- The element at `i` is below the one at `j`. -/
def Below (sequence : List α) (i j : Nat) : Prop :=
  ∃ x y, sequence[i]? = some x ∧ sequence[j]? = some y ∧ x < y

/-- The element at `i` is not above the one at `j`. -/
def AtMost (sequence : List α) (i j : Nat) : Prop :=
  ∃ x y, sequence[i]? = some x ∧ sequence[j]? = some y ∧ x ≤ y

theorem Below.trans (h : Below sequence i j) (h' : Below sequence j k) : Below sequence i k := by
  obtain ⟨x, y, hx, hy, hlt⟩ := h
  obtain ⟨y', z, hy', hz, hlt'⟩ := h'
  obtain rfl := Option.some.inj (hy.symm.trans hy')
  exact ⟨x, z, hx, hz, hlt.trans hlt'⟩

theorem AtMost.trans_below (h : AtMost sequence i j) (h' : Below sequence j k) : Below sequence i k := by
  obtain ⟨x, y, hx, hy, hle⟩ := h
  obtain ⟨y', z, hy', hz, hlt⟩ := h'
  obtain rfl := Option.some.inj (hy.symm.trans hy')
  exact ⟨x, z, hx, hz, lt_of_le_of_lt hle hlt⟩

theorem AtMost.trans (h : AtMost sequence i j) (h' : AtMost sequence j k) : AtMost sequence i k := by
  obtain ⟨x, y, hx, hy, hle⟩ := h
  obtain ⟨y', z, hy', hz, hle'⟩ := h'
  obtain rfl := Option.some.inj (hy.symm.trans hy')
  exact ⟨x, z, hx, hz, hle.trans hle'⟩

theorem atMost_of_not_below (hi : i < sequence.length) (hj : j < sequence.length) (h : ¬ Below sequence i j) :
    AtMost sequence j i := by
  refine ⟨_, _, List.getElem?_eq_getElem hj, List.getElem?_eq_getElem hi, ?_⟩
  by_contra hle
  exact h ⟨_, _, List.getElem?_eq_getElem hi, List.getElem?_eq_getElem hj, lt_of_not_ge hle⟩

/-- Indices in ascending order whose elements ascend too. -/
def Rising (sequence : List α) (indices : List Nat) : Prop :=
  indices.Pairwise fun i j => i < j ∧ Below sequence i j

theorem Rising.lt {indices : List Nat} (h : Rising sequence indices) {x y : α} (hi : i ∈ indices) (hj : j ∈ indices)
    (hlt : i < j) (hx : sequence[i]? = some x) (hy : sequence[j]? = some y) : x < y := by
  induction h with
  | nil => cases hi
  | @cons first rest hfirst _ ih =>
    rcases List.mem_cons.mp hi with rfl | hiRest
    · rcases List.mem_cons.mp hj with rfl | hjRest
      · omega
      · obtain ⟨x', y', hx', hy', hbelow⟩ := (hfirst j hjRest).2
        obtain rfl := Option.some.inj (hx.symm.trans hx')
        obtain rfl := Option.some.inj (hy.symm.trans hy')
        exact hbelow
    · rcases List.mem_cons.mp hj with rfl | hjRest
      · have := (hfirst i hiRest).1
        omega
      · exact ih hiRest hjRest

/-- The elements at rising indices. -/
theorem Rising.values {indices : List Nat} (h : Rising sequence indices) (hbound : ∀ i ∈ indices, i < sequence.length) :
    ∃ values : List α, indices.map (sequence[·]?) = values.map some ∧ values.Pairwise (· < ·) := by
  induction indices with
  | nil => exact ⟨[], rfl, List.Pairwise.nil⟩
  | cons i rest ih =>
    obtain ⟨hfirst, hrest⟩ := List.pairwise_cons.mp h
    obtain ⟨values, hvalues, hpairwise⟩ := ih hrest fun j hj => hbound j (List.mem_cons_of_mem i hj)
    have hi := hbound i List.mem_cons_self
    refine ⟨sequence[i] :: values, ?_, List.pairwise_cons.mpr ⟨fun v hv => ?_, hpairwise⟩⟩
    · rw [List.map_cons, List.map_cons, hvalues, List.getElem?_eq_getElem hi]
    · have hmem : some v ∈ rest.map (sequence[·]?) := by
        rw [hvalues]
        exact List.mem_map_of_mem hv
      obtain ⟨j, hj, hget⟩ := List.mem_map.mp hmem
      obtain ⟨x, y, hx, hy, hlt⟩ := (hfirst j hj).2
      rw [List.getElem?_eq_getElem hi] at hx
      obtain rfl := Option.some.inj hx
      obtain rfl := Option.some.inj (hget.symm.trans hy)
      exact hlt

/-! ## The run -/

/-- The state after the first `count` elements. -/
def lisRun (sequence : List α) : (count : Nat) → LisState
  | 0 => { predecessor := List.replicate sequence.length noPredecessor, tails := [] }
  | count + 1 =>
    match sequence[count]? with
    | some x => lisStep sequence (lisRun sequence count) count x
    | none => lisRun sequence count

/-- Where the search for the `i`-th element ends. -/
def lisSlot (sequence : List α) (i : Nat) : Nat :=
  match sequence[i]? with
  | some x =>
    lowerBound (tailBelow sequence (lisRun sequence i).tails x) ((lisRun sequence i).tails.length + 1) 0
      (lisRun sequence i).tails.length
  | none => 0

/-- The `i`-th element is given a predecessor. -/
def PredecessorSet (sequence : List α) (i : Nat) : Prop :=
  0 < lisSlot sequence i

/-- The one place that writes `predecessor[i]`. -/
theorem lisRun_predecessor (hx : sequence[i]? = some x) :
    (lisRun sequence (i + 1)).predecessor =
      if 0 < lisSlot sequence i then
        (lisRun sequence i).predecessor.set i ((lisRun sequence (i + 1)).tails.getD (lisSlot sequence i - 1) noPredecessor)
      else (lisRun sequence i).predecessor := by
  rw [lisRun, hx]
  dsimp only
  rw [lisStep, lisSlot, hx]

theorem foldl_lisStep (rest : List α) {done : List α} (h : done ++ rest = sequence) :
    (rest.zipIdx done.length).foldl (fun state entry => lisStep sequence state entry.2 entry.1)
      (lisRun sequence done.length) = lisRun sequence sequence.length := by
  induction rest generalizing done with
  | nil =>
    rw [List.append_nil] at h
    rw [h]
    rfl
  | cons x rest ih =>
    have hrest := @ih (done ++ [x]) (by simpa using h)
    have hx : sequence[done.length]? = some x := by simp [← h]
    have hstep : lisRun sequence (done ++ [x]).length = lisStep sequence (lisRun sequence done.length) done.length x := by
      rw [List.length_append, List.length_singleton, lisRun, hx]
    rw [List.length_append, List.length_singleton] at hrest hstep
    rw [hstep] at hrest
    exact hrest

/-- What the state holds after the first `count` elements. -/
structure LisInv (sequence : List α) (state : LisState) (count : Nat) : Prop where
  length : state.predecessor.length = sequence.length
  /-- A tail lies in its own slot. -/
  tails : ∀ t k, state.tails[t]? = some k → k < count ∧ lisSlot sequence k = t
  ascending : ∀ (t u j k : Nat), t < u → state.tails[t]? = some j → state.tails[u]? = some k → Below sequence j k
  /-- The tail of a pile is its smallest element. -/
  smallest : ∀ k < count, ∃ j, state.tails[lisSlot sequence k]? = some j ∧ AtMost sequence j k
  /-- A predecessor lies one pile below and is smaller. -/
  linked : ∀ k < count, 0 < lisSlot sequence k → ∃ previous, state.predecessor[k]? = some previous ∧ previous < k ∧
    lisSlot sequence previous + 1 = lisSlot sequence k ∧ Below sequence previous k

variable {state : LisState} {count : Nat}

theorem tailBelow_iff (hx : sequence[i]? = some x) (tails : List Nat) (t : Nat) :
    tailBelow sequence tails x t = true ↔ ∃ k, tails[t]? = some k ∧ Below sequence k i := by
  unfold tailBelow Below
  cases htail : tails[t]? with
  | none => simp
  | some k =>
    cases hk : sequence[k]? with
    | none => simp [hk]
    | some y => simp [hk, hx]

/-- A new tail lies in its slot, the others where they were. -/
theorem getElem?_place {tails : List Nat} {low : Nat} (hlow : low ≤ tails.length) (t k : Nat) :
    (if tails.length ≤ low then tails ++ [i] else tails.set low i)[t]? = some k ↔
      t = low ∧ k = i ∨ t ≠ low ∧ tails[t]? = some k := by
  split
  next hend =>
    obtain rfl : low = tails.length := by omega
    grind
  next hinside => grind

/-- The slot splits the tails at the new element. -/
theorem LisInv.slot (h : LisInv sequence (lisRun sequence i) i) (hx : sequence[i]? = some x) :
    lisSlot sequence i ≤ (lisRun sequence i).tails.length ∧
      (∀ t < lisSlot sequence i, ∃ k, (lisRun sequence i).tails[t]? = some k ∧ Below sequence k i) ∧
        ∀ t k, lisSlot sequence i ≤ t → (lisRun sequence i).tails[t]? = some k → ¬ Below sequence k i := by
  have hdown : ∀ t u, t ≤ u → u < (lisRun sequence i).tails.length →
      tailBelow sequence (lisRun sequence i).tails x u = true →
        tailBelow sequence (lisRun sequence i).tails x t = true := by
    intro t u htu hu hbelow
    rw [tailBelow_iff hx] at hbelow ⊢
    obtain ⟨k, hk, hki⟩ := hbelow
    rcases Nat.lt_or_eq_of_le htu with hlt | rfl
    · have ht : t < (lisRun sequence i).tails.length := by omega
      exact ⟨_, List.getElem?_eq_getElem ht, (h.ascending t u _ k hlt (List.getElem?_eq_getElem ht) hk).trans hki⟩
    · exact ⟨k, hk, hki⟩
  obtain ⟨-, hhigh, hbelow, habove⟩ := lowerBound_spec (tailBelow sequence (lisRun sequence i).tails x)
    ((lisRun sequence i).tails.length + 1) (Nat.zero_le _) (by omega) hdown
  have hslot : lisSlot sequence i = lowerBound (tailBelow sequence (lisRun sequence i).tails x)
      ((lisRun sequence i).tails.length + 1) 0 (lisRun sequence i).tails.length := by
    simp only [lisSlot, hx]
  rw [← hslot] at hhigh hbelow habove
  refine ⟨hhigh, fun t ht => (tailBelow_iff hx _ t).mp (hbelow t (Nat.zero_le t) ht), fun t k ht hk hki => ?_⟩
  have htail := (tailBelow_iff hx (lisRun sequence i).tails t).mpr ⟨k, hk, hki⟩
  rw [habove t ht (List.getElem?_eq_some_iff.mp hk).1] at htail
  cases htail

theorem LisInv.step (h : LisInv sequence (lisRun sequence i) i) (hx : sequence[i]? = some x) :
    LisInv sequence (lisRun sequence (i + 1)) (i + 1) := by
  obtain ⟨hle, hbelow, habove⟩ := h.slot hx
  have hi : i < sequence.length := (List.getElem?_eq_some_iff.mp hx).1
  have hrun : lisRun sequence (i + 1) = lisStep sequence (lisRun sequence i) i x := by
    rw [lisRun, hx]
  have htails : ∀ t k, (lisRun sequence (i + 1)).tails[t]? = some k ↔
      t = lisSlot sequence i ∧ k = i ∨ t ≠ lisSlot sequence i ∧ (lisRun sequence i).tails[t]? = some k := by
    intro t k
    rw [← getElem?_place hle, hrun, lisStep, lisSlot, hx]
  have hpredecessor := lisRun_predecessor hx
  have hlater : ∀ k < i, (lisRun sequence (i + 1)).predecessor[k]? = (lisRun sequence i).predecessor[k]? := by
    intro k hk
    rw [hpredecessor]
    split
    · rw [List.getElem?_set_ne (by omega)]
    · rfl
  constructor
  · rw [hpredecessor]
    split
    · rw [List.length_set]
      exact h.length
    · exact h.length
  · intro t k hget
    obtain ⟨rfl, rfl⟩ | ⟨-, hget⟩ := (htails t k).mp hget
    · exact ⟨Nat.lt_succ_self k, rfl⟩
    · obtain ⟨hlt, hslot⟩ := h.tails t k hget
      exact ⟨by omega, hslot⟩
  · intro t u j k hlt hj hk
    obtain ⟨rfl, rfl⟩ | ⟨hne, hj⟩ := (htails t j).mp hj
    · -- What lies above the slot is not below the new element, but above its slot's old tail.
      obtain ⟨rfl, rfl⟩ | ⟨hne, hk⟩ := (htails u k).mp hk
      · omega
      have hold : lisSlot sequence j < (lisRun sequence j).tails.length := by
        have := (List.getElem?_eq_some_iff.mp hk).1
        omega
      have htail := List.getElem?_eq_getElem hold
      have hkept := habove _ _ (Nat.le_refl _) htail
      have hupper := (h.tails _ _ htail).1
      exact (atMost_of_not_below (by omega) hi hkept).trans_below (h.ascending _ u _ k hlt htail hk)
    · obtain ⟨rfl, rfl⟩ | ⟨hne', hk⟩ := (htails u k).mp hk
      · obtain ⟨j', hj', hbelow⟩ := hbelow t hlt
        obtain rfl := Option.some.inj (hj.symm.trans hj')
        exact hbelow
      · exact h.ascending t u j k hlt hj hk
  · intro k hk
    by_cases hsame : lisSlot sequence k = lisSlot sequence i
    · refine ⟨i, (htails _ i).mpr (.inl ⟨hsame, rfl⟩), ?_⟩
      rcases Nat.lt_succ_iff_lt_or_eq.mp hk with hlt | rfl
      · obtain ⟨j, hj, hjk⟩ := h.smallest k hlt
        have hkept := habove _ j (by omega) hj
        have hupper := (h.tails _ j hj).1
        exact (atMost_of_not_below (by omega) hi hkept).trans hjk
      · exact ⟨x, x, hx, hx, le_refl x⟩
    · have hlt : k < i := by
        rcases Nat.lt_succ_iff_lt_or_eq.mp hk with hlt | rfl
        · exact hlt
        · exact absurd rfl hsame
      obtain ⟨j, hj, hjk⟩ := h.smallest k hlt
      exact ⟨j, (htails _ j).mpr (.inr ⟨hsame, hj⟩), hjk⟩
  · intro k hk hpos
    rcases Nat.lt_succ_iff_lt_or_eq.mp hk with hlt | rfl
    · rw [hlater k hlt]
      exact h.linked k hlt hpos
    · -- The element goes behind the tail in front of its slot.
      obtain ⟨previous, hprevious, hpk⟩ := hbelow (lisSlot sequence k - 1) (by omega)
      obtain ⟨hlt, hslot⟩ := h.tails _ previous hprevious
      have hplaced := (htails (lisSlot sequence k - 1) previous).mpr (.inr ⟨by omega, hprevious⟩)
      refine ⟨previous, ?_, hlt, by omega, hpk⟩
      rw [hpredecessor, if_pos hpos, List.getD_eq_getElem?_getD, hplaced, Option.getD_some,
        List.getElem?_set_self (by rw [h.length]; exact hi)]

theorem lisInv_run (h : count ≤ sequence.length) : LisInv sequence (lisRun sequence count) count := by
  induction count with
  | zero =>
    constructor
    · exact List.length_replicate
    · intro t k hget
      cases hget
    · intro t u j k _ hget
      cases hget
    · intro k hk
      omega
    · intro k hk
      omega
  | succ count ih => exact (ih (by omega)).step (List.getElem?_eq_getElem h)

/-! ## The walk back -/

/-- Where the walk reads a predecessor: at every slot but the first one. -/
def lisReads (predecessor : List Nat) : (slots k : Nat) → List Nat
  | 0, _ => []
  | slot + 1, k =>
    if 0 < slot then k :: lisReads predecessor slot (predecessor.getD k noPredecessor) else []

/-- The indices whose predecessor is read for `sequence`. -/
def predecessorReads (sequence : List α) : List Nat :=
  match (lisRun sequence sequence.length).tails.getLast? with
  | none => []
  | some k =>
    lisReads (lisRun sequence sequence.length).predecessor (lisRun sequence sequence.length).tails.length k

/-- The walk from the pile at `slot` finds one index of each pile up to there. -/
theorem LisInv.walk (h : LisInv sequence state count) (slot : Nat) {k : Nat} (hk : k < count)
    (hslot : lisSlot sequence k = slot) (hx : k < sequence.length) (lis : List Nat) :
    ∃ front, lisWalk state.predecessor (slot + 1) k lis = front ++ k :: lis ∧ front.length = slot ∧
      Rising sequence (front ++ [k]) ∧ ∀ read ∈ lisReads state.predecessor (slot + 1) k, 0 < lisSlot sequence read := by
  induction slot generalizing k lis with
  | zero =>
    refine ⟨[], rfl, rfl, List.pairwise_singleton _ _, ?_⟩
    intro read hread
    cases hread
  | succ slot ih =>
    obtain ⟨previous, hprevious, hlt, hbefore, hbelow⟩ := h.linked k hk (by omega)
    obtain ⟨front, hwalk, hlength, hrising, hreads⟩ := ih (k := previous) (by omega) (by omega) (by omega) (k :: lis)
    have hread : state.predecessor.getD k noPredecessor = previous := by
      rw [List.getD_eq_getElem?_getD, hprevious, Option.getD_some]
    refine ⟨front ++ [previous], ?_, by simp [hlength], ?_, ?_⟩
    · rw [lisWalk, hread, hwalk, List.append_assoc]
      rfl
    · unfold Rising at hrising ⊢
      rw [List.pairwise_append]
      refine ⟨hrising, List.pairwise_singleton _ _, ?_⟩
      intro i hi j hj
      obtain rfl := List.mem_singleton.mp hj
      rcases List.mem_append.mp hi with hfront | hend
      · obtain ⟨hi, hip⟩ := (List.pairwise_append.mp hrising).2.2 i hfront previous (by simp)
        exact ⟨by omega, hip.trans hbelow⟩
      · obtain rfl := List.mem_singleton.mp hend
        exact ⟨hlt, hbelow⟩
    · intro read hmem
      rw [lisReads, if_pos (Nat.succ_pos slot), hread] at hmem
      rcases List.mem_cons.mp hmem with rfl | hmem
      · omega
      · exact hreads read hmem

theorem longestIncreasingSubsequence_eq (sequence : List α) :
    longestIncreasingSubsequence sequence =
      match (lisRun sequence sequence.length).tails.getLast? with
      | none => []
      | some k =>
        lisWalk (lisRun sequence sequence.length).predecessor (lisRun sequence sequence.length).tails.length k [] := by
  have hrun := foldl_lisStep sequence (List.nil_append sequence)
  unfold longestIncreasingSubsequence
  rw [← hrun]
  rfl

/-- What is found is a rising chain with one index of every pile. -/
theorem longestIncreasingSubsequence_spec (sequence : List α) :
    Rising sequence (longestIncreasingSubsequence sequence) ∧
      (∀ i ∈ longestIncreasingSubsequence sequence, i < sequence.length) ∧
      (longestIncreasingSubsequence sequence).length = (lisRun sequence sequence.length).tails.length ∧
      ∀ read ∈ predecessorReads sequence, 0 < lisSlot sequence read := by
  have h := lisInv_run (Nat.le_refl sequence.length)
  rw [longestIncreasingSubsequence_eq]
  unfold predecessorReads
  cases hlast : (lisRun sequence sequence.length).tails.getLast? with
  | none =>
    rw [List.getLast?_eq_none_iff.mp hlast]
    refine ⟨List.Pairwise.nil, ?_, rfl, ?_⟩
    · intro i hi
      cases hi
    · intro read hread
      cases hread
  | some k =>
    rw [List.getLast?_eq_getElem?] at hlast
    obtain ⟨hslots, -⟩ := List.getElem?_eq_some_iff.mp hlast
    obtain ⟨hk, hslot⟩ := h.tails _ k hlast
    obtain ⟨front, hwalk, hlength, hrising, hreads⟩ := h.walk _ hk hslot hk []
    rw [Nat.sub_add_cancel (by omega)] at hwalk hreads
    dsimp only
    rw [hwalk]
    refine ⟨hrising, ?_, ?_, hreads⟩
    · intro i hi
      rcases List.mem_append.mp hi with hfront | hend
      · have := ((List.pairwise_append.mp hrising).2.2 i hfront k List.mem_cons_self).1
        omega
      · obtain rfl := List.mem_singleton.mp hend
        exact hk
    · rw [List.length_append, List.length_singleton]
      omega

theorem longestIncreasingSubsequence_rising (sequence : List α) :
    Rising sequence (longestIncreasingSubsequence sequence) :=
  (longestIncreasingSubsequence_spec sequence).1

/-! ## No chain is longer -/

/-- A larger element behind lies in a later slot. -/
theorem lisSlot_lt (hlt : i < j) (h : Below sequence i j) : lisSlot sequence i < lisSlot sequence j := by
  obtain ⟨-, y, -, hy, -⟩ := id h
  have hj : j < sequence.length := (List.getElem?_eq_some_iff.mp hy).1
  have hinv := lisInv_run (Nat.le_of_lt hj)
  obtain ⟨-, -, habove⟩ := hinv.slot hy
  obtain ⟨k, hk, hki⟩ := hinv.smallest i hlt
  by_contra hge
  exact habove _ k (by omega) hk (hki.trans_below h)

/-- Every slot has its tail in the end. -/
theorem lisSlot_lt_length (hi : i < sequence.length) :
    lisSlot sequence i < (lisRun sequence sequence.length).tails.length := by
  obtain ⟨k, hk, -⟩ := (lisInv_run (Nat.le_refl sequence.length)).smallest i hi
  exact (List.getElem?_eq_some_iff.mp hk).1

/-- An increasing subsequence takes an element of a later slot each time. -/
theorem length_le_tails {sub : List α} (hsub : sub.Sublist sequence) (hincreasing : sub.Pairwise (· < ·)) :
    sub.length ≤ (lisRun sequence sequence.length).tails.length := by
  obtain ⟨position, hposition⟩ := List.sublist_iff_exists_orderEmbedding_getElem?_eq.mp hsub
  have hslot : ∀ n < sub.length, n ≤ lisSlot sequence (position n) := by
    intro n hn
    induction n with
    | zero => exact Nat.zero_le _
    | succ n ih =>
      have hbelow : Below sequence (position n) (position (n + 1)) := by
        refine ⟨sub[n], sub[n + 1], ?_, ?_, List.pairwise_iff_getElem.mp hincreasing n (n + 1) (by omega) hn (by omega)⟩
        · rw [← hposition, List.getElem?_eq_getElem]
        · rw [← hposition, List.getElem?_eq_getElem]
      have hlater := lisSlot_lt (position.strictMono (Nat.lt_add_one n)) hbelow
      have hearlier := ih (by omega)
      omega
  rcases Nat.eq_zero_or_pos sub.length with hnone | hpos
  · omega
  · have hlast := hslot (sub.length - 1) (by omega)
    have hget : sequence[position (sub.length - 1)]? = some sub[sub.length - 1] := by
      rw [← hposition, List.getElem?_eq_getElem]
    have hbound := lisSlot_lt_length (List.getElem?_eq_some_iff.mp hget).1
    omega

/-- The indices ascend, so do the elements there, no increasing subsequence is longer, and a predecessor is
read only where one was set. -/
theorem longestIncreasingSubsequence_optimal (sequence : List α) :
    (longestIncreasingSubsequence sequence).Pairwise (· < ·) ∧
      (∃ values : List α, (longestIncreasingSubsequence sequence).map (sequence[·]?) = values.map some ∧
        values.Pairwise (· < ·)) ∧
      (∀ sub : List α, sub.Sublist sequence → sub.Pairwise (· < ·) →
        sub.length ≤ (longestIncreasingSubsequence sequence).length) ∧
      ∀ k ∈ predecessorReads sequence, PredecessorSet sequence k := by
  obtain ⟨hrising, hbound, hlength, hreads⟩ := longestIncreasingSubsequence_spec sequence
  refine ⟨hrising.imp fun h => h.1, hrising.values hbound, fun sub hsub hincreasing => ?_, hreads⟩
  rw [hlength]
  exact length_le_tails hsub hincreasing

end

end Zulangue.VtMirror
