import Zulangue.Lib.Table

/-!
# Threads

A list of threads of which one goes on, or ends.
-/

namespace Zulangue.Lib

section
variable {α : Type}

/-- The thread `a` goes on as `b`, or ends. -/
def Turns (threads : List α) (a : α) (b : Option α) (threads' : List α) : Prop :=
  ∃ before after, threads = before ++ a :: after ∧ threads' = before ++ b.toList ++ after

variable {threads threads' : List α} {a : α} {b : Option α}

theorem Turns.mem (h : Turns threads a b threads') : a ∈ threads := by
  obtain ⟨before, after, rfl, -⟩ := h
  exact List.mem_append_right _ List.mem_cons_self

theorem Turns.mem_of_mem (h : Turns threads a b threads') {c : α} (hmem : c ∈ threads') :
    c ∈ threads ∨ b = some c := by
  obtain ⟨before, after, rfl, rfl⟩ := h
  rw [List.mem_append, List.mem_append] at hmem
  obtain (hbefore | hnew) | hafter := hmem
  · exact .inl (List.mem_append_left _ hbefore)
  · exact .inr (Option.mem_toList.mp hnew)
  · exact .inl (List.mem_append_right _ (List.mem_cons_of_mem _ hafter))

theorem Turns.total (h : Turns threads a b threads') (f : α → Int) :
    Table.total f threads' = Table.total f threads - f a + (b.map f).getD 0 := by
  obtain ⟨before, after, rfl, rfl⟩ := h
  rw [Table.total_append, Table.total_append, Table.total_append, Table.total_cons]
  cases b with
  | none =>
    change _ + 0 + _ = _ + 0
    omega
  | some c =>
    change _ + (f c + 0) + _ = _ + f c
    omega

section
variable {β : Type} {c d : α} {next : Option α} {key : α → β}

theorem Turns.eq_or_mem (h : Turns threads a next threads') (hmem : c ∈ threads) : c = a ∨ c ∈ threads' := by
  obtain ⟨before, after, rfl, rfl⟩ := h
  obtain hbefore | hrest := List.mem_append.mp hmem
  · exact .inr (List.mem_append_left _ (List.mem_append_left _ hbefore))
  · obtain hsame | hafter := List.mem_cons.mp hrest
    · exact .inl hsame
    · exact .inr (List.mem_append_right _ hafter)

theorem Turns.mem_next (h : Turns threads a (some d) threads') : d ∈ threads' := by
  obtain ⟨before, after, rfl, rfl⟩ := h
  exact List.mem_append_left _ (List.mem_append_right _ (List.mem_singleton_self d))

theorem Turns.map_eq (h : Turns threads a (some d) threads') (hkey : key d = key a) : threads'.map key = threads.map key := by
  obtain ⟨before, after, rfl, rfl⟩ := h
  rw [List.append_assoc, List.map_append, List.map_append, List.map_append]
  change _ ++ key d :: after.map key = _ ++ key a :: after.map key
  rw [hkey]

theorem Turns.nodup (h : Turns threads a none threads') (hnodup : (threads.map key).Nodup) : (threads'.map key).Nodup := by
  obtain ⟨before, after, rfl, rfl⟩ := h
  refine hnodup.sublist (List.Sublist.map key ?_)
  rw [List.append_assoc]
  exact List.Sublist.append_left (List.sublist_cons_self a after) before

/-- With keys of their own, the others are not the thread that went on. -/
theorem Turns.mem_of_nodup (h : Turns threads a next threads') (hnodup : (threads.map key).Nodup) (hmem : c ∈ threads') :
    next = some c ∨ c ∈ threads ∧ key c ≠ key a := by
  obtain ⟨before, after, rfl, rfl⟩ := h
  rw [List.map_append, List.map_cons] at hnodup
  have hmiddle := List.nodup_middle.mp hnodup
  obtain ⟨hfresh, -⟩ := List.nodup_cons.mp hmiddle
  obtain (hbefore | hnew) | hafter := (List.mem_append.mp hmem).imp_left List.mem_append.mp
  · refine .inr ⟨List.mem_append_left _ hbefore, fun hcontra => hfresh ?_⟩
    exact List.mem_append_left _ (hcontra ▸ List.mem_map_of_mem hbefore)
  · exact .inl (Option.mem_toList.mp hnew)
  · refine .inr ⟨List.mem_append_right _ (List.mem_cons_of_mem _ hafter), fun hcontra => hfresh ?_⟩
    exact List.mem_append_right _ (hcontra ▸ List.mem_map_of_mem hafter)

end

/-- The only thread. -/
theorem Turns.single (a : α) (b : Option α) : Turns [a] a b b.toList :=
  ⟨[], [], rfl, by rw [List.nil_append, List.append_nil]⟩

end

end Zulangue.Lib
