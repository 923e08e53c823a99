import Zulangue.Shared.Block
import Zulangue.Transcript.Convergence

/-!
# A refresh, utterance by utterance

The loop changes nothing but the blocks of its utterances. Each of them is as its own refresh
leaves it, whatever the other utterances did.
-/

namespace Zulangue.Shared

open Zulangue.Capture Zulangue.Transcript

def lookup (blocks : List UtteranceBlock) (id : String) : Option UtteranceBlock := blocks.find? (·.id = id)

theorem lookup_id {blocks : List UtteranceBlock} {id : String} {b : UtteranceBlock}
    (h : lookup blocks id = some b) : b.id = id := of_decide_eq_true (List.find?_some h :)

theorem mem_of_lookup {blocks : List UtteranceBlock} {id : String} {b : UtteranceBlock}
    (h : lookup blocks id = some b) : b ∈ blocks := List.mem_of_find?_eq_some h

theorem lookup_eq_none {blocks : List UtteranceBlock} {id : String} :
    lookup blocks id = none ↔ ∀ b ∈ blocks, b.id ≠ id := by
  rw [lookup, List.find?_eq_none]
  simp

theorem lookup_of_mem {blocks : List UtteranceBlock} (hids : (blocks.map (·.id)).Nodup) {b : UtteranceBlock}
    (hb : b ∈ blocks) : lookup blocks b.id = some b := by
  cases hfind : lookup blocks b.id with
  | none => exact absurd rfl (lookup_eq_none.mp hfind b hb)
  | some c => rw [List.inj_on_of_nodup_map hids (mem_of_lookup hfind) hb (lookup_id hfind)]

/-- Blocks that change in place. -/
theorem lookup_map {blocks : List UtteranceBlock} {edit : UtteranceBlock → UtteranceBlock}
    (hid : ∀ b, (edit b).id = b.id) (id : String) :
    lookup (blocks.map edit) id = (lookup blocks id).map edit := by
  rw [lookup, List.find?_map, lookup]
  have hsame : (fun b : UtteranceBlock => decide (b.id = id)) ∘ edit = fun b => decide (b.id = id) := by
    funext b
    rw [Function.comp_apply, hid]
  rw [hsame]

theorem lookup_editAt {blocks : List UtteranceBlock} {edit : UtteranceBlock → UtteranceBlock}
    (hid : ∀ b, (edit b).id = b.id) (id other : String) :
    lookup (blocks.map fun b => if b.id = id then edit b else b) other =
      if other = id then (lookup blocks other).map edit else lookup blocks other := by
  rw [lookup_map (fun b => by split; exacts [hid b, rfl])]
  cases hfind : lookup blocks other with
  | none => simp
  | some b =>
    have hb := lookup_id hfind
    by_cases hother : other = id
    · simp [hb, hother]
    · simp [hb, hother]

theorem lookup_insert {before after : List UtteranceBlock} {w : UtteranceBlock}
    (hfresh : lookup (before ++ after) w.id = none) (id : String) :
    lookup (before ++ w :: after) id = if id = w.id then some w else lookup (before ++ after) id := by
  rw [lookup, lookup, List.find?_append, List.find?_cons, List.find?_append]
  by_cases hid : id = w.id
  · subst hid
    rw [lookup, List.find?_append, Option.or_eq_none_iff] at hfresh
    simp [hfresh.1]
  · have hne : ¬ w.id = id := fun heq => hid heq.symm
    simp [hid, hne]

/-! ## One upsert -/

section
variable {blocks next : List UtteranceBlock} {write current : UtteranceBlock} {frozen : Finset String}
variable {anchor : Option String}

theorem exists_of_lookup {id : String} (h : lookup blocks id = some current) :
    ∃ b ∈ blocks, b.id = id := ⟨current, mem_of_lookup h, lookup_id h⟩

theorem upsert_edits (hcurrent : lookup blocks write.id = some current)
    (h : Model.step blocks (.machineUpsert write frozen anchor) = .ok next) :
    next = blocks.map fun b => if b.id = write.id then Model.machineWrite write frozen b else b := by
  rw [Model.step] at h
  split at h
  · cases h
  · split at h
    · cases h
    · rw [if_pos (exists_of_lookup hcurrent), Model.editBlock, if_pos (exists_of_lookup hcurrent)] at h
      exact (Except.ok.inj h).symm

theorem upsert_inserts (hcurrent : lookup blocks write.id = none)
    (h : Model.step blocks (.machineUpsert write frozen anchor) = .ok next) :
    Model.insertBlock write blocks anchor = .ok next := by
  have hnone : ¬ ∃ b ∈ blocks, b.id = write.id := by
    rintro ⟨b, hb, hid⟩
    exact lookup_eq_none.mp hcurrent b hb hid
  rw [Model.step] at h
  split at h
  · cases h
  · split at h
    · cases h
    · simpa only [if_neg hnone] using h

/-- A write that can be shown is only refused for its anchor. -/
theorem upsert_error {error : TranscriptProjectionError} (hvalid : WriteValid write)
    (h : Model.step blocks (.machineUpsert write frozen anchor) = .error error) :
    lookup blocks write.id = none ∧ Model.insertBlock write blocks anchor = .error error := by
  rw [Model.step, hvalid.1, hvalid.2] at h
  cases hcurrent : lookup blocks write.id with
  | some current =>
    simp only [Bool.false_eq_true, if_false, if_pos (exists_of_lookup hcurrent), Model.editBlock] at h
    cases h
  | none =>
    have hnone : ¬ ∃ b ∈ blocks, b.id = write.id := by
      rintro ⟨b, hb, hid⟩
      exact lookup_eq_none.mp hcurrent b hb hid
    simp only [Bool.false_eq_true, if_false, if_neg hnone] at h
    exact ⟨rfl, h⟩

theorem exists_insert_split (h : Model.insertBlock write blocks anchor = .ok next) :
    ∃ before after, blocks = before ++ after ∧ next = before ++ write :: after := by
  cases anchor with
  | none =>
    rw [Model.insertBlock] at h
    exact ⟨blocks, [], (List.append_nil _).symm, (Except.ok.inj h).symm⟩
  | some anchor =>
    rw [Model.insertBlock] at h
    split at h
    · exact ⟨_, _, List.takeWhile_append_dropWhile.symm, (Except.ok.inj h).symm⟩
    · cases h

end

/-! ## One utterance -/

theorem refreshPlan_of_none {before blocks : List UtteranceBlock} {shadow : LaneShadow} {s : String}
    {sequences : String → Option Nat} {u : RealtimeUtterance} (h : machineBlockWrite u = none) :
    refreshPlan before blocks shadow s sequences u = ⟨shadow, none⟩ := by
  rw [refreshPlan, h]

section
variable {before : List UtteranceBlock} {s : String} {sequences : String → Option Nat}
variable {u : RealtimeUtterance} {write : MachineBlockWrite} {blocks : List UtteranceBlock} {shadow : LaneShadow}

theorem refreshPlan_new (hwrite : machineBlockWrite u = some write) (hcurrent : lookup blocks write.id = none) :
    refreshPlan before blocks shadow s sequences u =
      ⟨recordWrite shadow ∅ write, some (write, ∅, insertAnchor before s sequences u.sequence)⟩ := by
  have hfind : blocks.find? (·.id = write.id) = none := hcurrent
  rw [refreshPlan, hwrite]
  dsimp only
  rw [hfind]

theorem refreshPlan_current {current : UtteranceBlock} (hwrite : machineBlockWrite u = some write)
    (hcurrent : lookup blocks write.id = some current) :
    refreshPlan before blocks shadow s sequences u =
      ⟨(refreshBlock shadow current write).2,
        if differs (freezeLanes shadow current write).1 current (yielded shadow current write) = true then
          some (yielded shadow current write, (freezeLanes shadow current write).1, none)
        else none⟩ := by
  have hfind : blocks.find? (·.id = write.id) = some current := hcurrent
  rw [refreshPlan, hwrite]
  dsimp only
  rw [hfind, refreshBlock, yielded]
  dsimp only
  split <;> rfl

/-- What the loop does with one utterance. -/
inductive RefreshOne (before : List UtteranceBlock) (s : String) (sequences : String → Option Nat)
    (u : RealtimeUtterance) (write : MachineBlockWrite) (shared : SharedSession) : Bool → SharedSession → Prop
  | quiet (current : UtteranceBlock) (hcurrent : lookup shared.blocks write.id = some current)
      (hquiet : Quiet shared.shadow current write) :
      RefreshOne before s sequences u write shared false
        ⟨shared.blocks, (refreshBlock shared.shadow current write).2⟩
  | edited (current : UtteranceBlock) (hcurrent : lookup shared.blocks write.id = some current)
      (hloud : ¬ Quiet shared.shadow current write) (next : List UtteranceBlock)
      (hnext : next = shared.blocks.map fun b => if b.id = write.id then
        Model.machineWrite (yielded shared.shadow current write) (freezeLanes shared.shadow current write).1 b else b) :
      RefreshOne before s sequences u write shared true
        ⟨next, (refreshBlock shared.shadow current write).2⟩
  | created (hcurrent : lookup shared.blocks write.id = none) (next : List UtteranceBlock)
      (hnext : Model.insertBlock write shared.blocks (insertAnchor before s sequences u.sequence) = .ok next) :
      RefreshOne before s sequences u write shared true ⟨next, recordWrite shared.shadow ∅ write⟩

variable {rest : List RealtimeUtterance} {changed : Bool} {shared : SharedSession}

theorem refreshUtterances_skip (hwrite : machineBlockWrite u = none) :
    refreshUtterances before s sequences (u :: rest) changed shared =
      refreshUtterances before s sequences rest changed shared := by
  rw [refreshUtterances, refreshPlan_of_none hwrite]

theorem refreshUtterances_quiet {current : UtteranceBlock} (hwrite : machineBlockWrite u = some write)
    (hcurrent : lookup shared.blocks write.id = some current) (hquiet : Quiet shared.shadow current write) :
    refreshUtterances before s sequences (u :: rest) changed shared =
      refreshUtterances before s sequences rest changed
        ⟨shared.blocks, (refreshBlock shared.shadow current write).2⟩ := by
  rw [refreshUtterances, refreshPlan_current hwrite hcurrent, (differs_eq_false _ _ _).mpr hquiet]
  rfl

/-- The loop goes on from one utterance to the next, or stops without a change. -/
theorem refreshUtterances_cons (hwrite : machineBlockWrite u = some write) :
    (∃ wrote after, RefreshOne before s sequences u write shared wrote after ∧
      refreshUtterances before s sequences (u :: rest) changed shared =
        refreshUtterances before s sequences rest (changed || wrote) after) ∨
    ∃ error shadow, refreshUtterances before s sequences (u :: rest) changed shared =
        (.error error, ⟨shared.blocks, shadow⟩) ∧
      (∀ id, id ≠ write.id → shadow id = shared.shadow id) ∧
      (WriteValid write → lookup shared.blocks write.id = none ∧
        Model.insertBlock write shared.blocks (insertAnchor before s sequences u.sequence) = .error error) := by
  cases hcurrent : lookup shared.blocks write.id with
  | none =>
    rw [refreshUtterances, refreshPlan_new hwrite hcurrent]
    dsimp only
    cases hstep : Model.step shared.blocks
        (.machineUpsert write ∅ (insertAnchor before s sequences u.sequence)) with
    | error error =>
      refine .inr ⟨error, _, rfl, fun id hid => ?_, fun hvalid => ⟨rfl, (upsert_error hvalid hstep).2⟩⟩
      funext field
      exact recordWrite_of_ne _ _ _ hid field
    | ok next =>
      refine .inl ⟨true, _, .created hcurrent next (upsert_inserts hcurrent hstep), ?_⟩
      rw [Bool.or_true]
  | some current =>
    by_cases hquiet : Quiet shared.shadow current write
    · refine .inl ⟨false, _, .quiet current hcurrent hquiet, ?_⟩
      rw [refreshUtterances_quiet hwrite hcurrent hquiet, Bool.or_false]
    · have hdiffers : differs (freezeLanes shared.shadow current write).1 current
          (yielded shared.shadow current write) = true := by
        rw [← differs_eq_false] at hquiet
        simpa using hquiet
      obtain ⟨hid, -, hlanes⟩ := yielded_rest shared.shadow current write
      rw [refreshUtterances, refreshPlan_current hwrite hcurrent, if_pos hdiffers]
      dsimp only
      cases hstep : Model.step shared.blocks (.machineUpsert (yielded shared.shadow current write)
          (freezeLanes shared.shadow current write).1 none) with
      | error error =>
        refine .inr ⟨error, _, rfl, fun id hne => funext fun field => refreshBlock_of_ne _ _ _ hne field, fun hvalid => ?_⟩
        have hvalid' : WriteValid (yielded shared.shadow current write) := by
          rw [WriteValid, hid, hlanes]
          exact hvalid
        obtain ⟨-, hinsert⟩ := upsert_error hvalid' hstep
        rw [Model.insertBlock] at hinsert
        cases hinsert
      | ok next =>
        have hnext := upsert_edits (by rw [hid]; exact hcurrent) hstep
        rw [hid] at hnext
        refine .inl ⟨true, _, .edited current hcurrent hquiet next hnext, ?_⟩
        rw [Bool.or_true]

end

/-! ## The whole loop -/

def AgreeAt (id : String) (a b : SharedSession) : Prop :=
  lookup a.blocks id = lookup b.blocks id ∧ a.shadow id = b.shadow id

theorem AgreeAt.refl (id : String) (a : SharedSession) : AgreeAt id a a := ⟨rfl, rfl⟩

theorem AgreeAt.trans {id : String} {a b c : SharedSession} (h : AgreeAt id a b) (h' : AgreeAt id b c) :
    AgreeAt id a c := ⟨h.1.trans h'.1, h.2.trans h'.2⟩

theorem taken_congr {shadow shadow' : LaneShadow} {write : MachineBlockWrite} (h : shadow write.id = shadow' write.id)
    (current : UtteranceBlock) : taken shadow current write = taken shadow' current write := by
  funext field
  rw [taken, taken, h]

theorem quiet_congr {shadow shadow' : LaneShadow} {write : MachineBlockWrite} (h : shadow write.id = shadow' write.id)
    (current : UtteranceBlock) : Quiet shadow current write ↔ Quiet shadow' current write := by
  rw [Quiet, Quiet, taken_congr h]

/-- The block of a write after its refresh, against what was there before. -/
inductive Outcome (shared after : SharedSession) (write : MachineBlockWrite) : Prop
  | refreshed (current r : UtteranceBlock) (hcurrent : lookup shared.blocks write.id = some current)
      (hafter : lookup after.blocks write.id = some r)
      (hget : ∀ field, field ≠ .owner → r.get field =
        if taken shared.shadow current write field = true then current.get field
        else (write.get field).or (current.get field))
      (hagain : Quiet after.shadow r write ↔
        (∀ lane, taken shared.shadow current write (.lane lane) = true →
          (shared.shadow write.id (.lane lane)).isSome) ∧
        (taken shared.shadow current write .text = true → current.text ≠ write.text →
          Quiet shared.shadow current write))
  | created (hcurrent : lookup shared.blocks write.id = none)
      (hafter : lookup after.blocks write.id = some write) (hagain : Quiet after.shadow write write)

theorem Outcome.congr {shared shared' after after' : SharedSession} {write : MachineBlockWrite}
    (h : Outcome shared after write) (hshared : AgreeAt write.id shared shared')
    (hafter : AgreeAt write.id after after') : Outcome shared' after' write := by
  cases h with
  | refreshed current r hcurrent hr hget hagain =>
    rw [quiet_congr hafter.2, quiet_congr hshared.2, taken_congr hshared.2, hshared.2] at hagain
    rw [taken_congr hshared.2] at hget
    exact .refreshed current r (hshared.1.symm.trans hcurrent) (hafter.1.symm.trans hr) hget hagain
  | created hcurrent hr hagain =>
    exact .created (hshared.1.symm.trans hcurrent) (hafter.1.symm.trans hr) ((quiet_congr hafter.2 _).mp hagain)

section
variable {before : List UtteranceBlock} {s : String} {sequences : String → Option Nat}
variable {u : RealtimeUtterance} {write : MachineBlockWrite} {shared after : SharedSession} {wrote : Bool}

theorem write_id (h : machineBlockWrite u = some write) : write.id = u.id := by
  rw [machineBlockWrite_eq h]

theorem RefreshOne.outcome (h : RefreshOne before s sequences u write shared wrote after) :
    Outcome shared after write ∧ ∀ id, id ≠ write.id → AgreeAt id shared after := by
  cases h with
  | quiet current hcurrent hquiet =>
    have hsame : (refreshBlock shared.shadow current write).1 = current := by
      rw [refreshBlock, (differs_eq_false _ _ _).mpr hquiet]
      rfl
    have hget := refreshBlock_get shared.shadow current write
    have hagain := quiet_refreshBlock shared.shadow current write
    rw [hsame] at hget hagain
    refine ⟨.refreshed current current hcurrent hcurrent hget hagain, fun id hid => ⟨rfl, ?_⟩⟩
    exact funext fun field => (refreshBlock_of_ne _ _ _ hid field).symm
  | edited current hcurrent hloud next hnext =>
    have hdiffers : differs (freezeLanes shared.shadow current write).1 current
        (yielded shared.shadow current write) = true := by
      rw [← differs_eq_false] at hloud
      simpa using hloud
    have hsame : (refreshBlock shared.shadow current write).1 = Model.machineWrite
        (yielded shared.shadow current write) (freezeLanes shared.shadow current write).1 current := by
      rw [refreshBlock, if_pos hdiffers]
    have hlookup := fun id => @lookup_editAt shared.blocks (Model.machineWrite
      (yielded shared.shadow current write) (freezeLanes shared.shadow current write).1)
      (fun _ => rfl) write.id id
    rw [← hnext] at hlookup
    refine ⟨.refreshed current _ hcurrent ?_ (refreshBlock_get _ _ _) (quiet_refreshBlock _ _ _),
      fun id hid => ⟨?_, ?_⟩⟩
    · rw [hlookup, if_pos rfl, hcurrent, hsame]
      rfl
    · rw [hlookup, if_neg hid]
    · exact funext fun field => (refreshBlock_of_ne _ _ _ hid field).symm
  | created hcurrent next hnext =>
    obtain ⟨front, back, hsplit, rfl⟩ := exists_insert_split hnext
    have hfresh : lookup (front ++ back) write.id = none := hsplit ▸ hcurrent
    refine ⟨.created hcurrent ?_ ?_, fun id hid => ⟨?_, ?_⟩⟩
    · rw [lookup_insert hfresh, if_pos rfl]
    · exact fun field new _ hnew _ => hnew
    · rw [lookup_insert hfresh, if_neg hid, ← hsplit]
    · exact funext fun field => (recordWrite_of_ne _ _ _ hid field).symm

/-- **The loop**, also where it stops at a write that the document refuses. -/
theorem refreshUtterances_outcome {us : List RealtimeUtterance} (hids : (us.map (·.id)).Nodup) (changed : Bool)
    (shared : SharedSession) :
    (∀ id, (∀ u ∈ us, u.id = id → machineBlockWrite u = none) →
      AgreeAt id shared (refreshUtterances before s sequences us changed shared).2) ∧
    ∀ u ∈ us, ∀ write, machineBlockWrite u = some write →
      Outcome shared (refreshUtterances before s sequences us changed shared).2 write ∨
      (∃ error, (refreshUtterances before s sequences us changed shared).1 = .error error) ∧
        lookup (refreshUtterances before s sequences us changed shared).2.blocks write.id =
          lookup shared.blocks write.id := by
  induction us generalizing changed shared with
  | nil => exact ⟨fun id _ => .refl id shared, fun u hu => absurd hu List.not_mem_nil⟩
  | cons u rest ih =>
    rw [List.map_cons, List.nodup_cons] at hids
    have hne : ∀ v ∈ rest, v.id ≠ u.id := by
      intro v hv heq
      exact hids.1 (heq ▸ List.mem_map_of_mem hv)
    cases hwrite : machineBlockWrite u with
    | none =>
      obtain ⟨hagree, houtcome⟩ := ih hids.2 changed shared
      rw [refreshUtterances_skip hwrite]
      refine ⟨fun id hid => hagree id fun v hv => hid v (List.mem_cons_of_mem _ hv), ?_⟩
      intro v hv write hvwrite
      cases List.mem_cons.mp hv with
      | inl heq =>
        rw [heq, hwrite] at hvwrite
        cases hvwrite
      | inr hv => exact houtcome v hv write hvwrite
    | some write =>
      have hid := write_id hwrite
      have hother : ∀ id, (∀ v ∈ u :: rest, v.id = id → machineBlockWrite v = none) → id ≠ write.id := by
        intro id hnone heq
        have hsome := hnone u List.mem_cons_self (hid.symm.trans heq.symm)
        rw [hwrite] at hsome
        cases hsome
      cases @refreshUtterances_cons before s sequences u write rest changed shared hwrite with
      | inl hone =>
        obtain ⟨wrote, after, hone, heq⟩ := hone
        obtain ⟨hagree, houtcome⟩ := ih hids.2 (changed || wrote) after
        obtain ⟨hblock, hothers⟩ := hone.outcome
        rw [heq]
        constructor
        · intro id hnone
          exact (hothers id (hother id hnone)).trans
            (hagree id fun v hv => hnone v (List.mem_cons_of_mem _ hv))
        · intro v hv write' hvwrite
          cases List.mem_cons.mp hv with
          | inl hsame =>
            rw [hsame, hwrite] at hvwrite
            obtain rfl := Option.some.inj hvwrite
            refine .inl (hblock.congr (.refl _ _) (hagree _ fun w hw hwid => ?_))
            exact absurd (hwid.trans hid) (hne w hw)
          | inr hv =>
            have hvid : write'.id ≠ write.id := by
              rw [write_id hvwrite, hid]
              exact hne v hv
            have hagreev := hothers _ hvid
            cases houtcome v hv write' hvwrite with
            | inl hdone => exact .inl (hdone.congr ⟨hagreev.1.symm, hagreev.2.symm⟩ (.refl _ _))
            | inr hstopped => exact .inr ⟨hstopped.1, hstopped.2.trans hagreev.1.symm⟩
      | inr hstop =>
        obtain ⟨error, shadow, heq, hshadow, -⟩ := hstop
        rw [heq]
        exact ⟨fun id hnone => ⟨rfl, (hshadow id (hother id hnone)).symm⟩,
          fun v _ write' _ => .inr ⟨⟨error, rfl⟩, rfl⟩⟩

/-! ## Once more -/

theorem refreshUtterances_changed (us : List RealtimeUtterance) (shared : SharedSession) :
    (refreshUtterances before s sequences us true shared).1 ≠ .ok false := by
  induction us generalizing shared with
  | nil => simp [refreshUtterances]
  | cons u rest ih =>
    cases hwrite : machineBlockWrite u with
    | none =>
      rw [refreshUtterances_skip hwrite]
      exact ih shared
    | some write =>
      cases @refreshUtterances_cons before s sequences u write rest true shared hwrite with
      | inl hone =>
        obtain ⟨wrote, after, -, heq⟩ := hone
        rw [heq, Bool.true_or]
        exact ih after
      | inr hstop =>
        obtain ⟨error, shadow, heq, -⟩ := hstop
        rw [heq]
        simp

/-- A refresh that finds nothing to write changes nothing and reports it, and only then. -/
theorem refreshUtterances_quiet_iff {us : List RealtimeUtterance} (hids : (us.map (·.id)).Nodup)
    (shared : SharedSession) :
    ((refreshUtterances before s sequences us false shared).1 = .ok false ∧
      (refreshUtterances before s sequences us false shared).2.blocks = shared.blocks) ↔
    ∀ u ∈ us, ∀ write, machineBlockWrite u = some write →
      ∃ current, lookup shared.blocks write.id = some current ∧ Quiet shared.shadow current write := by
  induction us generalizing shared with
  | nil => simp [refreshUtterances]
  | cons u rest ih =>
    rw [List.map_cons, List.nodup_cons] at hids
    have hne : ∀ v ∈ rest, v.id ≠ u.id := by
      intro v hv heq
      exact hids.1 (heq ▸ List.mem_map_of_mem hv)
    rw [List.forall_mem_cons]
    cases hwrite : machineBlockWrite u with
    | none =>
      rw [refreshUtterances_skip hwrite, ih hids.2 shared]
      simp
    | some write =>
      constructor
      · rintro ⟨hreport, hblocks⟩
        cases @refreshUtterances_cons before s sequences u write rest false shared hwrite with
        | inr hstop =>
          obtain ⟨error, shadow, heq, -⟩ := hstop
          rw [heq] at hreport
          cases hreport
        | inl hone =>
          obtain ⟨wrote, after, hone, heq⟩ := hone
          rw [heq] at hreport hblocks
          cases hone with
          | edited => exact absurd hreport (refreshUtterances_changed _ _)
          | created => exact absurd hreport (refreshUtterances_changed _ _)
          | quiet current hcurrent hquiet =>
            have hrest := (ih hids.2 ⟨shared.blocks, _⟩).mp ⟨hreport, hblocks⟩
            refine ⟨fun write' heq' => ?_, fun v hv write' hvwrite => ?_⟩
            · obtain rfl := Option.some.inj heq'
              exact ⟨current, hcurrent, hquiet⟩
            · obtain ⟨current', hcurrent', hquiet'⟩ := hrest v hv write' hvwrite
              refine ⟨current', hcurrent', (quiet_congr (funext fun field => ?_) _).mp hquiet'⟩
              refine refreshBlock_of_ne _ _ _ ?_ field
              rw [write_id hvwrite, write_id hwrite]
              exact hne v hv
      · rintro ⟨hfirst, hrest⟩
        obtain ⟨current, hcurrent, hquiet⟩ := hfirst write rfl
        rw [refreshUtterances_quiet hwrite hcurrent hquiet]
        refine (ih hids.2 ⟨shared.blocks, _⟩).mpr fun v hv write' hvwrite => ?_
        obtain ⟨current', hcurrent', hquiet'⟩ := hrest v hv write' hvwrite
        refine ⟨current', hcurrent', (quiet_congr (funext fun field => ?_) _).mpr hquiet'⟩
        refine refreshBlock_of_ne _ _ _ ?_ field
        rw [write_id hvwrite, write_id hwrite]
        exact hne v hv

end

end Zulangue.Shared
