import Mathlib.Data.List.AList
import Mathlib.Algebra.BigOperators.Group.List.Basic
import Mathlib.Algebra.GroupWithZero.Nat

/-!
# Sums over the entries of a map

A `HashMap` is an `AList`, whose order nothing here depends on. `total` adds a value up over
its entries; `rest` is what the entries of all other keys add, so one write is followed at one
key.
-/

namespace Zulangue.Lib.Tally

/-- A map with plain values. -/
abbrev Map (κ α : Type) := AList fun _ : κ => α

variable {κ α : Type}

def total (f : κ → α → Nat) (m : Map κ α) : Nat := (m.entries.map fun e => f e.1 e.2).sum

@[simp] theorem total_empty (f : κ → α → Nat) : total f (∅ : Map κ α) = 0 := rfl

theorem total_mono {f g : κ → α → Nat} (h : ∀ k v, f k v ≤ g k v) (m : Map κ α) :
    total f m ≤ total g m := by
  unfold total
  induction m.entries with
  | nil => simp
  | cons e entries ih =>
    have he := h e.1 e.2
    simp only [List.map_cons, List.sum_cons]
    omega

variable [DecidableEq κ]

/-- What all entries but that of `k` add. -/
def rest (f : κ → α → Nat) (k : κ) (m : Map κ α) : Nat :=
  ((m.erase k).entries.map fun e => f e.1 e.2).sum

/-- What the entry of `k` adds, if there is one. -/
def part (f : κ → α → Nat) (k : κ) (m : Map κ α) : Nat := ((m.lookup k).map (f k)).getD 0

theorem total_split (f : κ → α → Nat) (k : κ) (m : Map κ α) :
    total f m = part f k m + rest f k m := by
  cases hk : m.lookup k with
  | none =>
    have hnot : k ∉ m.keys := AList.lookup_eq_none.mp hk
    have hsame : (m.erase k).entries = m.entries := List.kerase_of_notMem_keys hnot
    simp [total, part, rest, hk, hsame]
  | some v =>
    have hmem : k ∈ m.keys := by
      apply AList.lookup_isSome.mp
      simp [hk]
    obtain ⟨w, before, after, -, hentries, herase⟩ := List.exists_of_kerase hmem
    have hw : v = w := by
      have hlookup : m.lookup k = some w := by
        apply AList.mem_lookup_iff.mpr
        simp [hentries]
      simpa [hk] using hlookup
    have hrest : (m.erase k).entries = before ++ after := herase
    simp only [total, part, rest, hk, hentries, hrest, hw, List.map_append, List.map_cons,
      List.sum_append, List.sum_cons, Option.map_some, Option.getD_some]
    omega

@[simp] theorem part_insert (f : κ → α → Nat) (k : κ) (v : α) (m : Map κ α) :
    part f k (m.insert k v) = f k v := by
  simp [part]

@[simp] theorem rest_insert (f : κ → α → Nat) (k : κ) (v : α) (m : Map κ α) :
    rest f k (m.insert k v) = rest f k m := by
  have hsame : ((m.insert k v).erase k).entries = (m.erase k).entries := by
    change List.kerase k (List.kinsert k v m.entries) = List.kerase k m.entries
    exact List.kerase_cons_eq (s := (⟨k, v⟩ : Sigma fun _ : κ => α)) rfl
  rw [rest, rest, hsame]

theorem total_insert (f : κ → α → Nat) (k : κ) (v : α) (m : Map κ α) :
    total f (m.insert k v) = f k v + rest f k m := by
  rw [total_split f k, part_insert, rest_insert]

/-- One entry is no more than all of them. -/
theorem part_le_total (f : κ → α → Nat) (k : κ) (m : Map κ α) : part f k m ≤ total f m := by
  have hsplit := total_split f k m
  omega

/-- The other entries add the same where the values differ at one key only. -/
theorem rest_congr {f g : κ → α → Nat} {k : κ} (h : ∀ j, j ≠ k → f j = g j) (m : Map κ α) :
    rest f k m = rest g k m := by
  have hkeys : ∀ e ∈ (m.erase k).entries, e.1 ≠ k := by
    intro e he heq
    have hin : e.1 ∈ (m.erase k).keys := List.mem_keys_of_mem he
    have hout : e.1 ∉ (m.erase k).keys := by
      rw [heq]
      exact List.notMem_keys_kerase k m.nodupKeys
    exact hout hin
  unfold rest
  congr 1
  apply List.map_congr_left
  intro e he
  rw [h e.1 (hkeys e he)]

end Zulangue.Lib.Tally
