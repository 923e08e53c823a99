import Mathlib.Tactic.Common

/-!
# Longest increasing subsequence

`vt-mirror/src/lis.rs`: the indices of a strictly increasing chain, by binary search over
the smallest chain ends.
-/

namespace Zulangue.VtMirror

section
variable {α : Type} [LT α] [DecidableLT α]

/-- The value at the end of the `slot`-th chain is below `x`. -/
def tailBelow (sequence : List α) (tails : List Nat) (x : α) (slot : Nat) : Bool :=
  match tails[slot]?.bind (sequence[·]?) with
  | some y => decide (y < x)
  | none => false

/-- The binary search between `low` and `high`; `fuel` bounds the number of halvings. -/
def lowerBound (below : Nat → Bool) : (fuel low high : Nat) → Nat
  | 0, low, _ => low
  | fuel + 1, low, high =>
    if low < high then
      let mid := (low + high) / 2
      if below mid then lowerBound below fuel (mid + 1) high else lowerBound below fuel low mid
    else low

structure LisState where
  /-- `predecessor[i]` is the index before `i` in the chain that ends at `i`. -/
  predecessor : List Nat
  /-- `tails[len]` ends the chain of `len + 1` elements with the smallest end. -/
  tails : List Nat

/-- `usize::MAX`, where an index has no predecessor. -/
def noPredecessor : Nat := 18446744073709551615

def lisStep (sequence : List α) (state : LisState) (i : Nat) (x : α) : LisState :=
  let low := lowerBound (tailBelow sequence state.tails x) (state.tails.length + 1) 0
    state.tails.length
  let tails :=
    if state.tails.length ≤ low then state.tails ++ [i] else state.tails.set low i
  let predecessor :=
    if 0 < low then state.predecessor.set i (tails.getD (low - 1) noPredecessor)
    else state.predecessor
  { predecessor, tails }

/-- Fills `slots` slots from the last one back, following the predecessors from `k`. -/
def lisWalk (predecessor : List Nat) : (slots k : Nat) → List Nat → List Nat
  | 0, _, lis => lis
  | slot + 1, k, lis =>
    lisWalk predecessor slot (predecessor.getD k noPredecessor) (k :: lis)

def longestIncreasingSubsequence (sequence : List α) : List Nat :=
  let state := sequence.zipIdx.foldl (fun state (x, i) => lisStep sequence state i x)
    { predecessor := List.replicate sequence.length noPredecessor, tails := [] }
  match state.tails.getLast? with
  | none => []
  | some k => lisWalk state.predecessor state.tails.length k []

end

example : longestIncreasingSubsequence [3, 1, 8, 2, 5] = [1, 3, 4] := by decide

end Zulangue.VtMirror
