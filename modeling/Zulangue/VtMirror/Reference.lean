import Mathlib.Data.List.Flatten
import Zulangue.VtMirror.Loro

/-!
# A document that meets the assumptions on Loro

One replica, with containers numbered in the order they are made. It shows that the
assumptions of `Loro` hold together, and runs the concrete inputs of the development.
-/

namespace Zulangue.VtMirror

open Zulangue.Lib

theorem idsItems_eq_flatMap (items : List Tree) :
    IdTree.idsItems items = items.flatMap IdTree.ids := by
  induction items with
  | nil => rfl
  | cons item items ih => simp [IdTree.idsItems, ih]

theorem idsEntries_eq_flatMap (entries : List (String × Tree)) :
    IdTree.idsEntries entries = entries.flatMap fun entry => entry.2.ids := by
  induction entries with
  | nil => rfl
  | cons entry entries ih => simp [IdTree.idsEntries, ih]

theorem insert_perm (key : String) (t : Tree) (entries : List (String × Tree)) :
    ∃ rest, rest.Sublist entries ∧ (KeyMap.insert key t entries).Perm ((key, t) :: rest) := by
  induction entries with
  | nil => exact ⟨[], .slnil, .refl _⟩
  | cons entry entries ih =>
    obtain ⟨k, value⟩ := entry
    by_cases hkey : key = k
    · exact ⟨entries, .cons _ (.refl _), by simp [KeyMap.insert, hkey]⟩
    · by_cases hlt : key < k
      · exact ⟨(k, value) :: entries, .refl _, by simp [KeyMap.insert, hkey, hlt]⟩
      · obtain ⟨rest, hsub, hperm⟩ := ih
        refine ⟨(k, value) :: rest, hsub.cons_cons _, ?_⟩
        simp only [KeyMap.insert, if_neg hkey, if_neg hlt]
        exact (hperm.cons _).trans (.swap _ _ _)

theorem erase_sublist (key : String) (entries : List (String × Tree)) :
    (KeyMap.erase key entries).Sublist entries := by
  induction entries with
  | nil => exact .slnil
  | cons entry entries ih =>
    obtain ⟨k, value⟩ := entry
    by_cases hkey : key = k
    · simp [KeyMap.erase, hkey]
    · simpa [KeyMap.erase, hkey] using ih

namespace Op

/-- The ids below a container after a call: old ones, and at most one new one. -/
def KeepsIds (nextId : ContainerType → ContainerID) (old new : List ContainerID) : Prop :=
  new.Nodup ∧ ∀ d ∈ new, d ∈ old ∨ ∃ type, d = nextId type

theorem KeepsIds.of_sublist {nextId : ContainerType → ContainerID} {old new : List ContainerID}
    (h : new.Sublist old) (hnodup : old.Nodup) : KeepsIds nextId old new :=
  ⟨hnodup.sublist h, fun _ hd => .inl (h.subset hd)⟩

theorem KeepsIds.of_perm {nextId : ContainerType → ContainerID}
    {old new child rest : List ContainerID} (hperm : new.Perm (child ++ rest))
    (hsub : rest.Sublist old) (hnodup : old.Nodup) (hfresh : ∀ type, nextId type ∉ old)
    (hchild : child = [] ∨ ∃ type, child = [nextId type]) : KeepsIds nextId old new := by
  constructor
  · rw [hperm.nodup_iff]
    rcases hchild with rfl | ⟨type, rfl⟩
    · exact hnodup.sublist hsub
    · exact List.nodup_cons.mpr ⟨fun h => hfresh type (hsub.subset h), hnodup.sublist hsub⟩
  · intro d hd
    rcases List.mem_append.mp (hperm.mem_iff.mp hd) with hc | hr
    · rcases hchild with rfl | ⟨type, rfl⟩
      · cases hc
      · exact .inr ⟨type, List.mem_singleton.mp hc⟩
    · exact .inl (hsub.subset hr)

section
variable {nextId : ContainerType → ContainerID} {items : List Tree}
  {entries : List (String × Tree)}

theorem keepsIds_insertIdx {t : Tree} {index : Nat} (hle : index ≤ items.length)
    (hnodup : (IdTree.idsItems items).Nodup)
    (hfresh : ∀ type, nextId type ∉ IdTree.idsItems items)
    (ht : t.ids = [] ∨ ∃ type, t.ids = [nextId type]) :
    KeepsIds nextId (IdTree.idsItems items) (IdTree.idsItems (items.insertIdx index t)) := by
  have hperm := (List.perm_insertIdx t items hle).flatMap_right IdTree.ids
  rw [List.flatMap_cons, ← idsItems_eq_flatMap, ← idsItems_eq_flatMap] at hperm
  exact .of_perm hperm (.refl _) hnodup hfresh ht

theorem keepsIds_insert {t : Tree} (key : String) (hnodup : (IdTree.idsEntries entries).Nodup)
    (hfresh : ∀ type, nextId type ∉ IdTree.idsEntries entries)
    (ht : t.ids = [] ∨ ∃ type, t.ids = [nextId type]) :
    KeepsIds nextId (IdTree.idsEntries entries)
      (IdTree.idsEntries (KeyMap.insert key t entries)) := by
  obtain ⟨rest, hsub, hperm⟩ := insert_perm key t entries
  have hperm := hperm.flatMap_right fun entry => entry.2.ids
  have hsub := hsub.flatMap fun entry => entry.2.ids
  rw [List.flatMap_cons, ← idsEntries_eq_flatMap] at hperm
  rw [← idsEntries_eq_flatMap entries] at hsub
  exact .of_perm hperm hsub hnodup hfresh ht

theorem KeepsIds.cons {id : ContainerID} {old new : List ContainerID}
    (h : KeepsIds nextId old new) (hid : id ∉ old) (hfresh : ∀ type, nextId type ≠ id) :
    KeepsIds nextId (id :: old) (id :: new) := by
  constructor
  · refine List.nodup_cons.mpr ⟨fun hmem => ?_, h.1⟩
    rcases h.2 id hmem with hold | ⟨type, rfl⟩
    · exact hid hold
    · exact hfresh type rfl
  · intro d hd
    rcases List.mem_cons.mp hd with rfl | hnew
    · exact .inl List.mem_cons_self
    · exact (h.2 d hnew).imp_left (List.mem_cons_of_mem _)

theorem ids_of_empty {type : ContainerType} {child : Tree}
    (h : (nextId type).empty = some child) : ∃ type, child.ids = [nextId type] :=
  ⟨type, (id?_of_empty h).2⟩

/-- A call keeps the id of its container and every id unique. -/
theorem effect_keepsIds {op : Op} {t t' : Tree} (h : op.effect nextId t = some t')
    (hnodup : t.ids.Nodup) (hfresh : ∀ type, nextId type ∉ t.ids) :
    t'.id? = t.id? ∧ KeepsIds nextId t.ids t'.ids := by
  have hsplit (id : ContainerID) (below : List ContainerID) (hids : t.ids = id :: below) :
      (id ∉ below ∧ below.Nodup) ∧ (∀ type, nextId type ≠ id) ∧
        ∀ type, nextId type ∉ below := by
    rw [hids] at hnodup hfresh
    refine ⟨List.nodup_cons.mp hnodup, fun type heq => ?_, fun type hmem => ?_⟩
    · exact hfresh type (heq ▸ List.mem_cons_self)
    · exact hfresh type (List.mem_cons_of_mem _ hmem)
  unfold effect at h
  split at h
  case h_1 key value id entries =>
    obtain rfl := Option.some.inj h
    obtain ⟨⟨hid, hn⟩, hne, hf⟩ := hsplit id (IdTree.idsEntries entries) rfl
    exact ⟨rfl, (keepsIds_insert key hn hf (.inl rfl)).cons hid hne⟩
  case h_2 key type id entries =>
    obtain ⟨child, hchild, rfl⟩ := Option.map_eq_some_iff.mp h
    obtain ⟨⟨hid, hn⟩, hne, hf⟩ := hsplit id (IdTree.idsEntries entries) rfl
    exact ⟨rfl, (keepsIds_insert key hn hf (.inr (ids_of_empty hchild))).cons hid hne⟩
  case h_3 key id entries =>
    obtain rfl := Option.some.inj h
    obtain ⟨⟨hid, hn⟩, hne, hf⟩ := hsplit id (IdTree.idsEntries entries) rfl
    have hsub := (erase_sublist key entries).flatMap fun entry => entry.2.ids
    rw [← idsEntries_eq_flatMap, ← idsEntries_eq_flatMap] at hsub
    exact ⟨rfl, (KeepsIds.of_sublist hsub hn).cons hid hne⟩
  case h_4 index value id items =>
    obtain ⟨hle, h⟩ := Option.ite_none_right_eq_some.mp h
    obtain rfl := Option.some.inj h
    obtain ⟨⟨hid, hn⟩, hne, hf⟩ := hsplit id (IdTree.idsItems items) rfl
    exact ⟨rfl, (keepsIds_insertIdx hle hn hf (.inl rfl)).cons hid hne⟩
  case h_5 index type id items =>
    obtain ⟨hle, h⟩ := Option.ite_none_right_eq_some.mp h
    obtain ⟨child, hchild, rfl⟩ := Option.map_eq_some_iff.mp h
    obtain ⟨⟨hid, hn⟩, hne, hf⟩ := hsplit id (IdTree.idsItems items) rfl
    exact ⟨rfl, (keepsIds_insertIdx hle hn hf (.inr (ids_of_empty hchild))).cons hid hne⟩
  case h_6 index len id items =>
    obtain ⟨_, h⟩ := Option.ite_none_right_eq_some.mp h
    obtain rfl := Option.some.inj h
    obtain ⟨⟨hid, hn⟩, hne, hf⟩ := hsplit id (IdTree.idsItems items) rfl
    have hsub : (items.take index ++ items.drop (index + len)).Sublist items := by
      conv_rhs => rw [← List.take_append_drop index items]
      rw [← List.drop_drop]
      exact (List.Sublist.refl _).append (List.drop_sublist _ _)
    have hsub := hsub.flatMap IdTree.ids
    rw [← idsItems_eq_flatMap, ← idsItems_eq_flatMap] at hsub
    exact ⟨rfl, (KeepsIds.of_sublist hsub hn).cons hid hne⟩
  case h_7 fromIndex toIndex id items =>
    obtain ⟨hto, h⟩ := Option.ite_none_right_eq_some.mp h
    obtain ⟨item, hitem, rfl⟩ := Option.map_eq_some_iff.mp h
    obtain ⟨⟨hid, hn⟩, hne, hf⟩ := hsplit id (IdTree.idsItems items) rfl
    obtain ⟨hfrom, rfl⟩ := List.getElem?_eq_some_iff.mp hitem
    have hlen : toIndex ≤ (items.eraseIdx fromIndex).length := by
      rw [List.length_eraseIdx_of_lt hfrom]
      omega
    have hperm := ((List.perm_insertIdx _ _ hlen).trans
      (List.getElem_cons_eraseIdx_perm hfrom)).flatMap_right IdTree.ids
    rw [← idsItems_eq_flatMap, ← idsItems_eq_flatMap] at hperm
    have hperm' : List.Perm _ ([] ++ IdTree.idsItems items) := hperm
    have hkeeps := KeepsIds.of_perm hperm' (.refl _) hn hf (.inl rfl)
    exact ⟨rfl, hkeeps.cons hid hne⟩
  case h_8 text id _ =>
    obtain rfl := Option.some.inj h
    exact ⟨rfl, .of_sublist (.refl _) hnodup⟩
  case h_9 => cases h

end

end Op

/-- A call keeps every id of the document unique. -/
theorem View.apply_nodup {nextId : ContainerType → ContainerID} {view next : View} {op : Op}
    (h : view.apply nextId op = some next) (hnodup : view.ids.Nodup)
    (hfresh : ∀ type, nextId type ∉ view.ids) (hnormal : ∀ type, (nextId type).isRoot = false) :
    next.ids.Nodup := by
  obtain ⟨t', ht', rfl⟩ := Option.map_eq_some_iff.mp h
  obtain ⟨t, ht, heffect⟩ := Option.bind_eq_some_iff.mp ht'
  unfold put
  by_cases hmem : op.target ∈ view.ids
  · obtain ⟨o, ho⟩ := IdTree.exists_findItems hmem
    obtain rfl : o = t := by simpa [container, ho] using ht
    have hsub := IdTree.findItems_subset ho
    have hon : o.ids.Nodup := by
      obtain ⟨o', before, after, hfind, hold, _⟩ := IdTree.splitsItems hnodup hmem
      obtain rfl : o = o' := Option.some.inj (ho.symm.trans hfind)
      rw [ids, hold] at hnodup
      exact (List.nodup_append.mp (List.nodup_append.mp hnodup).1).2.1
    obtain ⟨hid, hkeeps, hown⟩ :=
      Op.effect_keepsIds heffect hon fun type hc => hfresh type (hsub _ hc)
    rw [if_pos hmem]
    refine IdTree.nodup_replaceItems hnodup ho (hid.trans (IdTree.id?_of_findItems ho)) hkeeps ?_
    rintro d hd
    rcases hown d hd with hold | ⟨type, rfl⟩
    · exact .inl hold
    · exact .inr (hfresh type)
  · rw [if_neg hmem]
    have hnone : IdTree.findItems op.target view = none := IdTree.findItems_of_notMem hmem
    obtain ⟨hroot, hempty⟩ : op.target.isRoot = true ∧ op.target.empty = some t := by
      simpa [container, hnone, Option.ite_none_right_eq_some] using ht
    obtain ⟨_, hids⟩ := Op.id?_of_empty hempty
    have hne : ∀ type, nextId type ∉ t.ids := by
      intro type hc
      rw [hids, List.mem_singleton] at hc
      rw [← hc, hnormal] at hroot
      cases hroot
    obtain ⟨_, hkeeps, hown⟩ := Op.effect_keepsIds heffect (by simp [hids]) hne
    simp only [ids, idsItems_eq_flatMap, List.flatMap_append, List.flatMap_singleton] at hnodup ⊢
    refine List.nodup_append.mpr ⟨hnodup, hkeeps, ?_⟩
    rintro d hd d' hd' rfl
    rw [← idsItems_eq_flatMap] at hd
    rcases hown d hd' with hold | ⟨type, rfl⟩
    · rw [hids, List.mem_singleton] at hold
      exact hmem (hold ▸ hd)
    · exact hfresh type hd

/-! ## The document -/

def ContainerID.counterOf : ContainerID → Nat
  | .root .. => 0
  | .normal _ counter _ => counter + 1

/-- Above the number of every container in the list. -/
def nextCounter : List ContainerID → Nat
  | [] => 0
  | id :: ids => max id.counterOf (nextCounter ids)

theorem counterOf_le_nextCounter {ids : List ContainerID} {id : ContainerID} (h : id ∈ ids) :
    id.counterOf ≤ nextCounter ids := by
  induction ids with
  | nil => cases h
  | cons first rest ih =>
    rcases List.mem_cons.mp h with rfl | hrest
    · exact Nat.le_max_left _ _
    · exact Nat.le_trans (ih hrest) (Nat.le_max_right _ _)

structure ReferenceDoc where
  view : View
  ids_nodup : view.ids.Nodup

namespace ReferenceDoc

def nextId (doc : ReferenceDoc) (type : ContainerType) : ContainerID :=
  .normal 0 (nextCounter doc.view.ids) type

theorem nextId_fresh (doc : ReferenceDoc) (type : ContainerType) :
    doc.nextId type ∉ doc.view.ids := by
  intro hmem
  have hle := counterOf_le_nextCounter hmem
  simp [nextId, ContainerID.counterOf] at hle

def apply (doc : ReferenceDoc) (op : Op) : Except String ReferenceDoc :=
  match h : doc.view.apply doc.nextId op with
  | some next => .ok ⟨next, View.apply_nodup h doc.ids_nodup doc.nextId_fresh fun _ => rfl⟩
  | none => .error "refused"

theorem apply_view {doc : ReferenceDoc} {op : Op} {next : View}
    (h : doc.view.apply doc.nextId op = some next) :
    ∃ doc', doc.apply op = .ok doc' ∧ doc'.view = next := by
  unfold apply
  split
  case h_1 next' h' => exact ⟨_, rfl, Option.some.inj (h'.symm.trans h)⟩
  case h_2 h' => cases h'.symm.trans h

end ReferenceDoc

def referenceLoro : Loro where
  Doc := ReferenceDoc
  view := ReferenceDoc.view
  nextId := ReferenceDoc.nextId
  apply := ReferenceDoc.apply
  ids_nodup := ReferenceDoc.ids_nodup
  nextId_fresh := ReferenceDoc.nextId_fresh
  nextId_normal _ _ := rfl
  nextId_type _ _ := rfl
  apply_view _ _ _ h := ReferenceDoc.apply_view h

end Zulangue.VtMirror
