import Mathlib.Data.List.Nodup
import Mathlib.Algebra.Order.Ring.Int

/-!
# Tables

Rows with a primary key, as `UPDATE … WHERE key = k` changes them, and sums over their rows.
-/

namespace Zulangue.Lib.Table

section
variable {Row Key : Type} [DecidableEq Key] {key : Row → Key}

/-- `UPDATE … WHERE key = k`. -/
def update (key : Row → Key) (k : Key) (g : Row → Row) (rows : List Row) : List Row :=
  rows.map fun r => if key r = k then g r else r

def total (f : Row → Int) (rows : List Row) : Int := rows.foldr (fun r sum => f r + sum) 0

theorem total_cons (f : Row → Int) (r : Row) (rows : List Row) : total f (r :: rows) = f r + total f rows := rfl

theorem total_append (f : Row → Int) (rows more : List Row) : total f (rows ++ more) = total f rows + total f more := by
  induction rows with
  | nil => exact (Int.zero_add _).symm
  | cons r rows ih => rw [List.cons_append, total_cons, total_cons, ih, Int.add_assoc]

/-- A row that counts nothing. -/
theorem total_snoc (f : Row → Int) {r : Row} (hr : f r = 0) (rows : List Row) : total f (rows ++ [r]) = total f rows := by
  rw [total_append, total_cons, hr]
  exact Int.add_zero _

theorem total_nonneg {f : Row → Int} {rows : List Row} (h : ∀ r ∈ rows, 0 ≤ f r) : 0 ≤ total f rows := by
  induction rows with
  | nil => exact Int.le_refl 0
  | cons r rows ih =>
    rw [List.forall_mem_cons] at h
    rw [total_cons]
    exact Int.add_nonneg h.1 (ih h.2)

theorem le_total {f : Row → Int} {rows : List Row} (h : ∀ r ∈ rows, 0 ≤ f r) {r : Row} (hr : r ∈ rows) :
    f r ≤ total f rows := by
  induction rows with
  | nil => cases hr
  | cons s rows ih =>
    rw [List.forall_mem_cons] at h
    rw [total_cons]
    have hrest := total_nonneg h.2
    obtain rfl | hr := List.mem_cons.mp hr
    · omega
    · have hle := ih h.2 hr
      omega

theorem total_eq_zero {f : Row → Int} {rows : List Row} (h : ∀ r ∈ rows, f r = 0) : total f rows = 0 := by
  induction rows with
  | nil => rfl
  | cons r rows ih =>
    rw [List.forall_mem_cons] at h
    rw [total_cons, h.1, ih h.2, Int.add_zero]

theorem update_of_not_mem {k : Key} {g : Row → Row} {rows : List Row} (h : k ∉ rows.map key) :
    update key k g rows = rows := by
  have hsame : update key k g rows = rows.map id := by
    refine List.map_congr_left fun r hr => if_neg ?_
    rintro rfl
    exact h (List.mem_map_of_mem hr)
  rw [hsame, List.map_id]

theorem keys_update {k : Key} {g : Row → Row} (hg : ∀ r, key (g r) = key r) (rows : List Row) :
    (update key k g rows).map key = rows.map key := by
  rw [update, List.map_map]
  refine List.map_congr_left fun r _ => ?_
  rw [Function.comp_apply]
  split
  · exact hg r
  · rfl

theorem mem_update {k : Key} {g : Row → Row} {rows : List Row} {r : Row} (h : r ∈ update key k g rows) :
    ∃ old ∈ rows, r = if key old = k then g old else old := by
  obtain ⟨old, hold, rfl⟩ := List.mem_map.mp h
  exact ⟨old, hold, rfl⟩

theorem countP_update_le {p : Row → Bool} {k : Key} {g : Row → Row} (hg : ∀ r, p (g r) = true → p r = true)
    (rows : List Row) : (update key k g rows).countP p ≤ rows.countP p := by
  rw [update, List.countP_map]
  refine List.countP_mono_left fun r _ hr => ?_
  rw [Function.comp_apply] at hr
  split at hr
  · exact hg r hr
  · exact hr

/-- The row of a key alone changes a sum. -/
theorem total_update {f : Row → Int} {g : Row → Row} {rows : List Row} (h : (rows.map key).Nodup) {r : Row}
    (hr : r ∈ rows) : total f (update key (key r) g rows) = total f rows - f r + f (g r) := by
  induction rows with
  | nil => cases hr
  | cons s rows ih =>
    obtain ⟨hs, hrest⟩ := List.nodup_cons.mp h
    have hcons : update key (key r) g (s :: rows) =
        (if key s = key r then g s else s) :: update key (key r) g rows := rfl
    rw [hcons, total_cons, total_cons]
    obtain rfl | hr := List.mem_cons.mp hr
    · rw [if_pos rfl, update_of_not_mem hs]
      omega
    · have hne : key s ≠ key r := fun heq => hs (heq ▸ List.mem_map_of_mem hr)
      rw [if_neg hne, ih hrest hr]
      omega

end

end Zulangue.Lib.Table
