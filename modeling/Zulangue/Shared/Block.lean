import Zulangue.Shared.Refresh

/-!
# A refresh, block by block

A refresh treats each block on its own: a text that is no longer the shadow stays, every other
one becomes that of the facts. When it writes nothing, and when the next refresh with the same
facts writes nothing.
-/

namespace Zulangue.Shared

open Zulangue.Lib Zulangue.Transcript

/-! ## The lanes left alone -/

/-- The document has a text that is not the shadow or, without a shadow, not that of the facts. -/
def differsFromShadow (docText shadowed incoming : Option String) : Bool :=
  docText.any fun docText => incoming.any fun incoming => decide (docText ≠ shadowed.getD incoming)

@[simp] theorem differsFromShadow_none (docText shadowed : Option String) :
    differsFromShadow docText shadowed none = false := by
  cases docText <;> rfl

theorem differsFromShadow_iff {docText shadowed incoming : Option String} :
    differsFromShadow docText shadowed incoming = true ↔
      ∃ text new, docText = some text ∧ incoming = some new ∧ text ≠ shadowed.getD new := by
  cases docText <;> cases incoming <;> simp [differsFromShadow]

/-- The text of a block was taken over by a person, as far as the shadow tells. -/
def taken (shadow : LaneShadow) (current : UtteranceBlock) (write : MachineBlockWrite) (field : Field) : Bool :=
  differsFromShadow (current.get field) (shadow write.id field) (write.get field)

section
variable {id : String} {current : UtteranceBlock} {lane incoming : String}

theorem freezeLane_lanes (state : Finset String × LaneShadow) (other : String) :
    other ∈ (freezeLane id current state (lane, incoming)).1 ↔ other ∈ state.1 ∨ other = lane ∧
      differsFromShadow (KeyMap.get lane current.lanes.1) (state.2 id (.lane lane)) (some incoming) = true := by
  rw [freezeLane]
  cases hdoc : KeyMap.get lane current.lanes.1 with
  | none => simp [differsFromShadow]
  | some docText =>
    cases hshadow : state.2 id (.lane lane) with
    | none => by_cases hsame : docText = incoming <;> simp [differsFromShadow, hsame, or_comm]
    | some shadowed => by_cases hsame : docText = shadowed <;> simp [differsFromShadow, hsame, or_comm]

theorem freezeLane_shadow (state : Finset String × LaneShadow) (other : String) (field : Field) :
    (freezeLane id current state (lane, incoming)).2 other field =
      if other = id ∧ field = .lane lane ∧
          differsFromShadow (KeyMap.get lane current.lanes.1) (state.2 id (.lane lane)) (some incoming) = true
      then (state.2 other field).or (current.get field) else state.2 other field := by
  rw [freezeLane]
  cases hdoc : KeyMap.get lane current.lanes.1 with
  | none => simp [differsFromShadow]
  | some docText =>
    cases hshadow : state.2 id (.lane lane) with
    | some shadowed =>
      by_cases hsame : docText = shadowed
      · simp [differsFromShadow, hsame]
      · by_cases hkey : other = id ∧ field = .lane lane
        · obtain ⟨rfl, rfl⟩ := hkey
          simp [hsame, hshadow]
        · simp only [hsame, ne_eq, not_false_eq_true, if_true]
          rw [if_neg fun hall => hkey ⟨hall.1, hall.2.1⟩]
    | none =>
      by_cases hsame : docText = incoming
      · simp [differsFromShadow, hsame]
      · by_cases hkey : other = id ∧ field = .lane lane
        · obtain ⟨rfl, rfl⟩ := hkey
          simp [hsame, hshadow, differsFromShadow, LaneShadow.record_self, UtteranceBlock.get, hdoc]
        · simp only [hsame, ne_eq, not_false_eq_true, if_true]
          rw [if_neg fun hall => hkey ⟨hall.1, hall.2.1⟩]
          exact if_neg hkey

variable (id current) in
theorem freezeLanes_fold {entries : List (String × String)} (hsorted : KeyMap.Sorted entries)
    (state : Finset String × LaneShadow) :
    (∀ lane, lane ∈ (entries.foldl (freezeLane id current) state).1 ↔ lane ∈ state.1 ∨
      differsFromShadow (KeyMap.get lane current.lanes.1) (state.2 id (.lane lane)) (KeyMap.get lane entries) = true) ∧
    (∀ lane, (entries.foldl (freezeLane id current) state).2 id (.lane lane) =
      if differsFromShadow (KeyMap.get lane current.lanes.1) (state.2 id (.lane lane)) (KeyMap.get lane entries) = true
      then (state.2 id (.lane lane)).or (KeyMap.get lane current.lanes.1) else state.2 id (.lane lane)) ∧
    ∀ other field, (other ≠ id ∨ ∀ lane, field ≠ .lane lane) →
      (entries.foldl (freezeLane id current) state).2 other field = state.2 other field := by
  induction entries generalizing state with
  | nil => exact ⟨fun lane => by simp, fun lane => by simp, fun other field _ => rfl⟩
  | cons entry rest ih =>
    obtain ⟨lane₀, incoming₀⟩ := entry
    obtain ⟨hlanes, hshadow, hothers⟩ := ih hsorted.tail (freezeLane id current state (lane₀, incoming₀))
    have hhead := hsorted.get_head
    rw [List.foldl_cons]
    refine ⟨fun lane => ?_, fun lane => ?_, fun other field hkey => ?_⟩
    · rw [hlanes, freezeLane_lanes, freezeLane_shadow, KeyMap.get_cons]
      by_cases hlane : lane = lane₀
      · subst hlane
        simp [hhead]
      · simp [hlane]
    · rw [hshadow, freezeLane_shadow, KeyMap.get_cons]
      by_cases hlane : lane = lane₀
      · subst hlane
        simp [hhead, UtteranceBlock.get]
      · simp [hlane]
    · rw [hothers other field hkey, freezeLane_shadow, if_neg]
      intro hall
      cases hkey with
      | inl hne => exact hne hall.1
      | inr hne => exact hne lane₀ hall.2.1

end

section
variable (shadow : LaneShadow) (current : UtteranceBlock) (write : MachineBlockWrite)

theorem mem_freezeLanes (lane : String) :
    lane ∈ (freezeLanes shadow current write).1 ↔ taken shadow current write (.lane lane) = true := by
  have h := (freezeLanes_fold write.id current write.lanes.2 (∅, shadow)).1 lane
  rw [freezeLanes, h]
  simp [taken, UtteranceBlock.get]

theorem freezeLanes_lane (lane : String) :
    (freezeLanes shadow current write).2 write.id (.lane lane) =
      if taken shadow current write (.lane lane) = true
      then (shadow write.id (.lane lane)).or (current.get (.lane lane)) else shadow write.id (.lane lane) :=
  (freezeLanes_fold write.id current write.lanes.2 (∅, shadow)).2.1 lane

theorem freezeLanes_of_ne {other : String} (h : other ≠ write.id) (field : Field) :
    (freezeLanes shadow current write).2 other field = shadow other field :=
  (freezeLanes_fold write.id current write.lanes.2 (∅, shadow)).2.2 other field (.inl h)

theorem freezeLanes_text : (freezeLanes shadow current write).2 write.id .text = shadow write.id .text :=
  (freezeLanes_fold write.id current write.lanes.2 (∅, shadow)).2.2 write.id .text
    (.inr fun _ heq => by cases heq)

theorem textTaken_eq : textTaken (freezeLanes shadow current write).2 current write = taken shadow current write .text := by
  rw [textTaken, freezeLanes_text]
  cases h : shadow write.id .text <;> simp [taken, differsFromShadow, UtteranceBlock.get, h]

/-! ## The write -/

/-- The write without the texts that were taken over. -/
def yielded : MachineBlockWrite := yieldText (freezeLanes shadow current write).2 current write

theorem yielded_text :
    (yielded shadow current write).text = if taken shadow current write .text = true then current.text else write.text := by
  rw [yielded, yieldText, textTaken_eq]
  split <;> rfl

theorem yielded_rest : (yielded shadow current write).id = write.id ∧
    (yielded shadow current write).owner = write.owner ∧ (yielded shadow current write).lanes = write.lanes := by
  rw [yielded, yieldText]
  split <;> exact ⟨rfl, rfl, rfl⟩

/-- A refresh has nothing to write into the block. -/
def Quiet : Prop :=
  ∀ field new, field ≠ .owner → write.get field = some new → taken shadow current write field = false →
    current.get field = some new

theorem differs_eq_false :
    differs (freezeLanes shadow current write).1 current (yielded shadow current write) = false ↔
      Quiet shadow current write := by
  rw [differs, yielded_text, (yielded_rest shadow current write).2.2, Bool.or_eq_false_iff]
  constructor
  · rintro ⟨htext, hlanes⟩ field new hfield hnew htaken
    cases field with
    | owner => exact absurd rfl hfield
    | text =>
      rw [htaken] at htext
      have hsame : current.text = write.text := by simpa using htext
      rw [← hnew]
      exact congrArg some hsame
    | lane lane =>
      rw [List.any_eq_false] at hlanes
      have hlane := hlanes (lane, new) (KeyMap.mem_of_get hnew)
      rw [decide_eq_true_eq, mem_freezeLanes, htaken] at hlane
      have hsame : KeyMap.get lane current.lanes.1 = some new := by simpa using hlane
      exact hsame
  · intro hquiet
    constructor
    · cases htaken : taken shadow current write .text with
      | true => simp
      | false =>
        have hsame := hquiet .text write.text (by simp) rfl htaken
        simpa using Option.some.inj hsame
    · rw [List.any_eq_false]
      rintro ⟨lane, new⟩ hmem
      rw [decide_eq_true_eq, mem_freezeLanes]
      rintro ⟨htaken, hne⟩
      have hget : write.get (.lane lane) = some new := write.lanes.2.get_of_mem hmem
      exact hne (hquiet (.lane lane) new (by simp) hget (by simpa using htaken))

/-! ## The shadow of a write -/

theorem recordLanes_fold {entries : List (String × String)} (hsorted : KeyMap.Sorted entries) (id : String)
    (frozen : Finset String) (shadow : LaneShadow) :
    (∀ lane, (entries.foldl
      (fun shadow entry => if entry.1 ∈ frozen then shadow else shadow.record id (.lane entry.1) entry.2) shadow)
        id (.lane lane) =
      if lane ∈ frozen then shadow id (.lane lane) else (KeyMap.get lane entries).or (shadow id (.lane lane))) ∧
    ∀ other field, (other ≠ id ∨ ∀ lane, field ≠ .lane lane) → (entries.foldl
      (fun shadow entry => if entry.1 ∈ frozen then shadow else shadow.record id (.lane entry.1) entry.2) shadow)
        other field = shadow other field := by
  induction entries generalizing shadow with
  | nil => exact ⟨fun lane => by simp, fun other field _ => rfl⟩
  | cons entry rest ih =>
    obtain ⟨lane₀, new⟩ := entry
    have hhead := hsorted.get_head
    rw [List.foldl_cons]
    by_cases hfrozen : lane₀ ∈ frozen
    · obtain ⟨hlanes, hothers⟩ := ih hsorted.tail shadow
      simp only [hfrozen, if_true]
      refine ⟨fun lane => ?_, hothers⟩
      rw [hlanes, KeyMap.get_cons]
      by_cases hlane : lane = lane₀
      · rw [hlane, if_pos hfrozen, if_pos hfrozen]
      · rw [if_neg hlane]
    · obtain ⟨hlanes, hothers⟩ := ih hsorted.tail (shadow.record id (.lane lane₀) new)
      simp only [hfrozen, if_false]
      refine ⟨fun lane => ?_, fun other field hkey => ?_⟩
      · rw [hlanes, KeyMap.get_cons]
        by_cases hlane : lane = lane₀
        · subst hlane
          simp [hfrozen, hhead, LaneShadow.record_self]
        · rw [if_neg hlane, LaneShadow.record_of_ne_field _ (by simpa using hlane)]
      · rw [hothers other field hkey]
        cases hkey with
        | inl hne => exact LaneShadow.record_of_ne_id _ hne _ _ _
        | inr hne => exact LaneShadow.record_of_ne_field _ (hne lane₀) _ _ _

theorem recordWrite_text (frozen : Finset String) :
    recordWrite shadow frozen write write.id .text = some write.text := by
  rw [recordWrite, (recordLanes_fold write.lanes.2 write.id frozen _).2 write.id .text
    (.inr fun _ heq => by cases heq)]
  exact LaneShadow.record_self _ _ _ _

theorem recordWrite_lane (frozen : Finset String) (lane : String) :
    recordWrite shadow frozen write write.id (.lane lane) =
      if lane ∈ frozen then shadow write.id (.lane lane)
      else (write.get (.lane lane)).or (shadow write.id (.lane lane)) := by
  rw [recordWrite, (recordLanes_fold write.lanes.2 write.id frozen _).1 lane,
    LaneShadow.record_of_ne_field _ (by simp)]
  rfl

theorem recordWrite_of_ne (frozen : Finset String) {other : String} (h : other ≠ write.id) (field : Field) :
    recordWrite shadow frozen write other field = shadow other field := by
  rw [recordWrite, (recordLanes_fold write.lanes.2 write.id frozen _).2 other field (.inl h)]
  exact LaneShadow.record_of_ne_id _ h _ _ _

/-! ## One block -/

/-- The block and the shadow that a refresh leaves. -/
def refreshBlock : UtteranceBlock × LaneShadow :=
  if differs (freezeLanes shadow current write).1 current (yielded shadow current write) = true then
    (Model.machineWrite (yielded shadow current write) (freezeLanes shadow current write).1 current,
      recordWrite (freezeLanes shadow current write).2 (freezeLanes shadow current write).1
        (yielded shadow current write))
  else (current, (freezeLanes shadow current write).2)

/-- A text that was taken over stays, every other one is that of the facts. -/
theorem refreshBlock_get (field : Field) (hfield : field ≠ .owner) :
    (refreshBlock shadow current write).1.get field =
      if taken shadow current write field = true then current.get field
      else (write.get field).or (current.get field) := by
  rw [refreshBlock]
  split
  · cases field with
    | owner => exact absurd rfl hfield
    | text =>
      have htext : (Model.machineWrite (yielded shadow current write) (freezeLanes shadow current write).1 current).get
          .text = some (yielded shadow current write).text := rfl
      rw [htext, yielded_text]
      split <;> rfl
    | lane lane =>
      have hlane := @Model.get_writeLanes (freezeLanes shadow current write).1 _
        (yielded shadow current write).lanes.2 current.lanes lane
      rw [(yielded_rest shadow current write).2.2] at hlane
      rw [Model.machineWrite, (yielded_rest shadow current write).2.2]
      refine Eq.trans hlane ?_
      simp only [mem_freezeLanes]
      rfl
  · next hquiet =>
    have hquiet := (differs_eq_false shadow current write).mp (Bool.eq_false_iff.mpr hquiet)
    cases htaken : taken shadow current write field with
    | true => rfl
    | false =>
      cases hnew : write.get field with
      | none => rfl
      | some new => exact hquiet field new hfield hnew htaken

theorem refreshBlock_of_ne {other : String} (h : other ≠ write.id) (field : Field) :
    (refreshBlock shadow current write).2 other field = shadow other field := by
  rw [refreshBlock]
  split
  · have hne : other ≠ (yielded shadow current write).id := by rwa [(yielded_rest shadow current write).1]
    exact (recordWrite_of_ne _ _ _ hne field).trans (freezeLanes_of_ne shadow current write h field)
  · exact freezeLanes_of_ne shadow current write h field

/-- A lane that was taken over keeps its shadow, or gets one. -/
theorem refreshBlock_lane {lane : String} (htaken : taken shadow current write (.lane lane) = true) :
    (refreshBlock shadow current write).2 write.id (.lane lane) =
      (shadow write.id (.lane lane)).or (current.get (.lane lane)) := by
  have hlane := freezeLanes_lane shadow current write lane
  rw [if_pos htaken] at hlane
  rw [refreshBlock]
  split
  · have hrecord := recordWrite_lane (freezeLanes shadow current write).2 (yielded shadow current write)
      (freezeLanes shadow current write).1 lane
    rw [(yielded_rest shadow current write).1, if_pos ((mem_freezeLanes shadow current write lane).mpr htaken)] at hrecord
    exact hrecord.trans hlane
  · exact hlane

/-- A source text that was taken over becomes its own shadow where anything is written. -/
theorem refreshBlock_text (htaken : taken shadow current write .text = true) :
    (Quiet shadow current write → (refreshBlock shadow current write).2 write.id .text = shadow write.id .text) ∧
      (¬ Quiet shadow current write →
        (refreshBlock shadow current write).2 write.id .text = some current.text) := by
  rw [← differs_eq_false, refreshBlock]
  constructor
  · intro hquiet
    rw [if_neg (by rw [hquiet]; exact Bool.false_ne_true)]
    exact freezeLanes_text shadow current write
  · intro hdiffers
    rw [if_pos (by simpa using hdiffers)]
    have hrecord := recordWrite_text (freezeLanes shadow current write).2 (yielded shadow current write)
      (freezeLanes shadow current write).1
    rw [(yielded_rest shadow current write).1, yielded_text, if_pos htaken] at hrecord
    exact hrecord

/-- **The next refresh with the same facts** writes nothing into the block, just where no lane
was taken over for want of a shadow, and no source text that was taken over written back. -/
theorem quiet_refreshBlock :
    Quiet (refreshBlock shadow current write).2 (refreshBlock shadow current write).1 write ↔
      (∀ lane, taken shadow current write (.lane lane) = true → (shadow write.id (.lane lane)).isSome) ∧
        (taken shadow current write .text = true → current.text ≠ write.text → Quiet shadow current write) := by
  constructor
  · intro hquiet
    constructor
    · intro lane htaken
      obtain ⟨docText, new, hdoc, hnew, hne⟩ := differsFromShadow_iff.mp htaken
      cases hshadow : shadow write.id (.lane lane) with
      | some shadowed => rfl
      | none =>
        rw [hshadow] at hne
        have hget := refreshBlock_get shadow current write (.lane lane) (by simp)
        have hafter := refreshBlock_lane shadow current write htaken
        rw [if_pos htaken, hdoc] at hget
        rw [hshadow, hdoc] at hafter
        have hsame := hquiet (.lane lane) new (by simp) hnew
          (by simp [taken, differsFromShadow, hget, hafter])
        rw [hget] at hsame
        exact absurd (Option.some.inj hsame) hne
    · intro htaken hne
      by_contra hloud
      have hget := refreshBlock_get shadow current write .text (by simp)
      have hafter := (refreshBlock_text shadow current write htaken).2 hloud
      rw [if_pos htaken] at hget
      have htext : (refreshBlock shadow current write).1.text = current.text := Option.some.inj hget
      have hsame := hquiet .text write.text (by simp) rfl
        (by simp [taken, differsFromShadow, htext, hafter, UtteranceBlock.get])
      rw [hget] at hsame
      exact hne (Option.some.inj hsame)
  · rintro ⟨hlanes, htext⟩ field new hfield hnew hfree
    have hget := refreshBlock_get shadow current write field hfield
    cases htaken : taken shadow current write field with
    | false =>
      rw [htaken, hnew] at hget
      exact hget
    | true =>
      rw [htaken, if_pos rfl] at hget
      obtain ⟨docText, new', hdoc, hnew', hne⟩ := differsFromShadow_iff.mp htaken
      obtain rfl := Option.some.inj (hnew.symm.trans hnew')
      -- The text is not taken over any more, so that its shadow must have changed.
      cases field with
      | owner => exact absurd rfl hfield
      | lane lane =>
        obtain ⟨shadowed, hshadow⟩ := Option.isSome_iff_exists.mp (hlanes lane htaken)
        have hafter := refreshBlock_lane shadow current write htaken
        rw [hshadow, Option.some_or] at hafter
        rw [hshadow] at hne
        have htaken' : taken (refreshBlock shadow current write).2 (refreshBlock shadow current write).1 write
            (.lane lane) = true :=
          differsFromShadow_iff.mpr ⟨docText, new, hget.trans hdoc, hnew, by rw [hafter]; exact hne⟩
        rw [htaken'] at hfree
        cases hfree
      | text =>
        obtain rfl := Option.some.inj (hdoc : some current.text = _)
        obtain rfl := Option.some.inj (hnew : some write.text = _)
        by_cases hsame : current.text = write.text
        · rw [hget]
          exact congrArg some hsame
        · have hafter := (refreshBlock_text shadow current write htaken).1 (htext htaken hsame)
          have htaken' : taken (refreshBlock shadow current write).2 (refreshBlock shadow current write).1 write
              .text = true :=
            differsFromShadow_iff.mpr ⟨_, _, hget.trans hdoc, hnew, by rw [hafter]; exact hne⟩
          rw [htaken'] at hfree
          cases hfree

end

/-! ## Telling people and machine apart -/

/-- Where document and facts differ, there is a shadow for each lane, the document differs
from the shadow just where a person wrote last, and no other lane is written into a block
whose source text is a person's. -/
structure TellsApart (person : Field → Bool) (shadow : LaneShadow) (current : UtteranceBlock)
    (write : MachineBlockWrite) : Prop where
  lanes : ∀ lane docText incoming, current.get (.lane lane) = some docText →
    write.get (.lane lane) = some incoming → docText ≠ incoming →
    ∃ shadowed, shadow write.id (.lane lane) = some shadowed ∧ (docText ≠ shadowed ↔ person (.lane lane) = true)
  text : current.text ≠ write.text →
    (current.text ≠ (shadow write.id .text).getD write.text ↔ person .text = true)
  alone : current.text ≠ write.text → person .text = true →
    ∀ lane incoming, write.get (.lane lane) = some incoming →
      ∃ docText, current.get (.lane lane) = some docText ∧ (docText = incoming ∨ person (.lane lane) = true)

section
variable {person : Field → Bool} {shadow : LaneShadow} {current after : UtteranceBlock} {write : MachineBlockWrite}

theorem taken_iff {field : Field} {docText incoming : String} (hdoc : current.get field = some docText)
    (hnew : write.get field = some incoming) :
    taken shadow current write field = true ↔ docText ≠ (shadow write.id field).getD incoming := by
  rw [taken, hdoc, hnew]
  simp [differsFromShadow]

theorem TellsApart.taken_iff_person (h : TellsApart person shadow current write) {field : Field}
    {docText incoming : String} (hfield : field ≠ .owner) (hdoc : current.get field = some docText)
    (hnew : write.get field = some incoming) (hne : docText ≠ incoming) :
    taken shadow current write field = true ↔ person field = true := by
  rw [taken_iff hdoc hnew]
  cases field with
  | owner => exact absurd rfl hfield
  | text =>
    obtain rfl := Option.some.inj (hdoc : some current.text = _)
    obtain rfl := Option.some.inj (hnew : some write.text = _)
    exact h.text hne
  | lane lane =>
    obtain ⟨shadowed, hshadow, hiff⟩ := h.lanes lane docText incoming hdoc hnew hne
    rw [hshadow]
    exact hiff

/-- **One block of a refresh**: a person's texts stay, the others become those of the facts and
the next refresh writes nothing, just where the shadow tells people and machine apart. -/
theorem tellsApart_iff (hperson : ∀ field, person field = true → field ≠ .owner ∧ (current.get field).isSome)
    (hafter : ∀ field, field ≠ .owner → after.get field =
      if taken shadow current write field = true then current.get field
      else (write.get field).or (current.get field)) :
    ((∀ field, person field = true → after.get field = current.get field) ∧
      (∀ field incoming, field ≠ .owner → write.get field = some incoming →
        person field = true ∨ after.get field = some incoming) ∧
      (∀ lane, taken shadow current write (.lane lane) = true → (shadow write.id (.lane lane)).isSome) ∧
      (taken shadow current write .text = true → current.text ≠ write.text → Quiet shadow current write)) ↔
    TellsApart person shadow current write := by
  constructor
  · rintro ⟨hyields, hconverges, hlanes, htext⟩
    have hkey : ∀ field docText incoming, field ≠ .owner → current.get field = some docText →
        write.get field = some incoming → docText ≠ incoming →
        (taken shadow current write field = true ↔ person field = true) := by
      intro field docText incoming hfield hdoc hnew hne
      have hget := hafter field hfield
      constructor
      · intro htaken
        rw [if_pos htaken, hdoc] at hget
        cases hconverges field incoming hfield hnew with
        | inl hp => exact hp
        | inr hsame =>
          rw [hget] at hsame
          exact absurd (Option.some.inj hsame) hne
      · intro hp
        by_contra htaken
        rw [if_neg htaken, hyields field hp, hdoc, hnew, Option.some_or] at hget
        exact hne (Option.some.inj hget)
    refine ⟨?_, ?_, ?_⟩
    · intro lane docText incoming hdoc hnew hne
      have hiff := hkey (.lane lane) docText incoming (by simp) hdoc hnew hne
      rw [taken_iff hdoc hnew] at hiff
      cases hshadow : shadow write.id (.lane lane) with
      | some shadowed =>
        rw [hshadow] at hiff
        exact ⟨shadowed, rfl, hiff⟩
      | none =>
        have htaken : taken shadow current write (.lane lane) = true := by
          rw [taken_iff hdoc hnew, hshadow]
          exact hne
        have hsome := hlanes lane htaken
        rw [hshadow] at hsome
        cases hsome
    · intro hne
      have hiff := hkey .text current.text write.text (by simp) rfl rfl hne
      rwa [taken_iff rfl rfl] at hiff
    · intro hne hp lane incoming hnew
      have hquiet := htext ((hkey .text current.text write.text (by simp) rfl rfl hne).mpr hp) hne
      cases htaken : taken shadow current write (.lane lane) with
      | false => exact ⟨incoming, hquiet (.lane lane) incoming (by simp) hnew htaken, .inl rfl⟩
      | true =>
        obtain ⟨docText, new, hdoc, hnew', -⟩ := differsFromShadow_iff.mp htaken
        obtain rfl := Option.some.inj (hnew.symm.trans hnew')
        refine ⟨docText, hdoc, ?_⟩
        by_cases hsame : docText = incoming
        · exact .inl hsame
        · exact .inr ((hkey (.lane lane) docText incoming (by simp) hdoc hnew hsame).mp htaken)
  · intro h
    refine ⟨?_, ?_, ?_, ?_⟩
    · intro field hp
      obtain ⟨hfield, hsome⟩ := hperson field hp
      obtain ⟨docText, hdoc⟩ := Option.isSome_iff_exists.mp hsome
      rw [hafter field hfield]
      cases hnew : write.get field with
      | none => simp
      | some incoming =>
        by_cases hsame : docText = incoming
        · rw [hdoc, hsame, Option.some_or, ite_self]
        · rw [if_pos ((h.taken_iff_person hfield hdoc hnew hsame).mpr hp)]
    · intro field incoming hfield hnew
      rw [hafter field hfield, hnew, Option.some_or]
      cases htaken : taken shadow current write field with
      | false => exact .inr (if_neg Bool.false_ne_true)
      | true =>
        obtain ⟨docText, new, hdoc, hnew', -⟩ := differsFromShadow_iff.mp htaken
        obtain rfl := Option.some.inj (hnew.symm.trans hnew')
        by_cases hsame : docText = incoming
        · rw [if_pos rfl, hdoc, hsame]
          exact .inr rfl
        · exact .inl ((h.taken_iff_person hfield hdoc hnew hsame).mp htaken)
    · intro lane htaken
      obtain ⟨docText, incoming, hdoc, hnew, hne⟩ := differsFromShadow_iff.mp htaken
      by_cases hsame : docText = incoming
      · cases hshadow : shadow write.id (.lane lane) with
        | some shadowed => rfl
        | none =>
          rw [hshadow] at hne
          exact absurd hsame hne
      · obtain ⟨shadowed, hshadow, -⟩ := h.lanes lane docText incoming hdoc hnew hsame
        rw [hshadow]
        rfl
    · intro htaken hne field incoming hfield hnew hfree
      have hp := (h.taken_iff_person (by simp) rfl rfl hne).mp htaken
      cases field with
      | owner => exact absurd rfl hfield
      | text =>
        rw [htaken] at hfree
        cases hfree
      | lane lane =>
        obtain ⟨docText, hdoc, hsame⟩ := h.alone hne hp lane incoming hnew
        by_cases heq : docText = incoming
        · rw [hdoc, heq]
        · have hplane := hsame.resolve_left heq
          rw [(h.taken_iff_person hfield hdoc hnew heq).mpr hplane] at hfree
          cases hfree

end

end Zulangue.Shared
