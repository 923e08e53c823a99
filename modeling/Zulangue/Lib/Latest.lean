import Mathlib.Data.List.Perm.Basic

/-!
# The last entry of each kind

A list in which an entry takes the place of the one of its kind, and the entries that are
left when all have been put in.
-/

namespace Zulangue.Lib.Latest

section
variable {α : Type*} (same : α → α → Bool)

/-- `entry` takes the place of the first of its kind, else it stands at the end. -/
def put (entry : α) : List α → List α
  | [] => [entry]
  | old :: rest => if same old entry then entry :: rest else old :: put entry rest

/-- The entries that no later one of their kind replaces. -/
def latest : List α → List α
  | [] => []
  | entry :: rest => if rest.any (same entry) then latest rest else entry :: latest rest

/-- What entries of one kind have in common can be compared. -/
structure Kinds : Prop where
  symm : ∀ {a b}, same a b = true → same b a = true
  trans : ∀ {a b c}, same a b = true → same b c = true → same a c = true

/-- No two entries are of one kind. -/
def Apart (entries : List α) : Prop := entries.Pairwise fun a b => same a b = false

variable {same}

theorem latest_subset (entries : List α) : latest same entries ⊆ entries := by
  induction entries with
  | nil => simp [latest]
  | cons entry rest ih =>
    rw [latest]
    split
    · exact fun e he => List.mem_cons_of_mem entry (ih he)
    · exact List.cons_subset_cons entry ih

theorem apart_latest (entries : List α) : Apart same (latest same entries) := by
  induction entries with
  | nil => simp [latest, Apart]
  | cons entry rest ih =>
    rw [latest]
    split
    · exact ih
    · next hlast =>
      apply List.Pairwise.cons
      · intro later hlater
        simp only [List.any_eq_true, not_exists, not_and, Bool.not_eq_true] at hlast
        exact hlast later (latest_subset rest hlater)
      · exact ih

theorem apart_iff_of_perm (hkinds : Kinds same) {entries others : List α}
    (h : entries.Perm others) : Apart same entries ↔ Apart same others := by
  apply h.pairwise_iff
  intro a b hab
  cases hba : same b a with
  | false => rfl
  | true => rw [hkinds.symm hba] at hab; cases hab

/-- The others stay, and the new entry is there once. -/
theorem put_perm (hkinds : Kinds same) (entry : α) {entries : List α} (h : Apart same entries) :
    (put same entry entries).Perm ((entries.filter fun e => !same e entry) ++ [entry]) := by
  induction entries with
  | nil => simp [put]
  | cons old rest ih =>
    obtain ⟨hold, hrest⟩ := List.pairwise_cons.mp h
    rw [put]
    split
    · next hsame =>
      have hkeep : (rest.filter fun e => !same e entry) = rest := by
        rw [List.filter_eq_self]
        intro e he
        cases hother : same e entry with
        | false => rfl
        | true =>
          have hkind := hkinds.trans hsame (hkinds.symm hother)
          rw [hold e he] at hkind
          cases hkind
      rw [List.filter_cons_of_neg (by simp [hsame]), hkeep]
      exact (List.perm_append_singleton entry rest).symm
    · next hother =>
      rw [List.filter_cons_of_pos (by simp [hother])]
      exact (ih hrest).cons old

theorem apart_put (hkinds : Kinds same) (entry : α) {entries : List α} (h : Apart same entries) :
    Apart same (put same entry entries) := by
  rw [apart_iff_of_perm hkinds (put_perm hkinds entry h)]
  apply List.pairwise_append.mpr
  refine ⟨h.filter _, List.pairwise_singleton _ entry, ?_⟩
  intro e he last hlast
  obtain rfl := List.mem_singleton.mp hlast
  simpa using (List.mem_filter.mp he).2

/-- Of all that was put in, the last of each kind is left. -/
theorem foldl_put_perm (hkinds : Kinds same) (news : List α)
    {entries : List α} (h : Apart same entries) :
    (news.foldl (fun entries entry => put same entry entries) entries).Perm
      ((entries.filter fun e => !news.any (same e)) ++ latest same news) := by
  induction news generalizing entries with
  | nil => simp [latest]
  | cons entry news ih =>
    have hput := (put_perm hkinds entry h).filter fun e => !news.any (same e)
    rw [List.filter_append, List.filter_filter] at hput
    have hlast : ((entries.filter fun e => !(entry :: news).any (same e)) ++ latest same (entry :: news)).Perm
        (((entries.filter fun e => !news.any (same e) && !same e entry) ++
          [entry].filter fun e => !news.any (same e)) ++ latest same news) := by
      have hfilter : (entries.filter fun e => !(entry :: news).any (same e)) =
          entries.filter fun e => !news.any (same e) && !same e entry := by
        congr 1
        funext e
        rw [List.any_cons, Bool.not_or, Bool.and_comm]
      rw [hfilter, latest]
      cases hlater : news.any (same entry) <;> simp [hlater]
    rw [List.foldl_cons]
    exact (ih (apart_put hkinds entry h)).trans ((hput.append_right _).trans hlast.symm)

end

end Zulangue.Lib.Latest
