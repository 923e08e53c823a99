import Zulangue.Shared.Loop
import Zulangue.Transcript.SpokenOrder

/-!
# New blocks of a refresh

The anchors of a refresh come from the blocks before its loop. New blocks still stand in the
order of their sequence numbers, however many one refresh creates: the utterances come in that
order, so that what was created before stands in front.
-/

namespace Zulangue.Shared

open Zulangue.Capture Zulangue.Transcript

section
variable (sessionOf : String → Option String) (sequenceOf : String → Nat) (s : String)

def Ordered (blocks : List UtteranceBlock) : Prop :=
  (blocks.filter (·.owner = captureOwner s)).Pairwise fun b c => sequenceOf b.id < sequenceOf c.id

/-- The blocks of the document of a session: those of its utterances in order, and annotations. -/
structure Placed (facts : List RealtimeUtterance) (blocks : List UtteranceBlock) : Prop where
  ids : (blocks.map (·.id)).Nodup
  owned : ∀ b ∈ blocks, (b.owner = captureOwner s ∧ ∃ u ∈ facts, u.id = b.id ∧ HasFinalLane u) ∨
    (b.owner = userOwner ∧ sessionOf b.id = none)
  ordered : Ordered sequenceOf s blocks

end

section
variable {sessionOf : String → Option String} {sequenceOf : String → Nat} {s : String}
variable {facts : List RealtimeUtterance} {blocks : List UtteranceBlock}

theorem Ordered.map (h : Ordered sequenceOf s blocks) {edit : UtteranceBlock → UtteranceBlock}
    (hid : ∀ b, (edit b).id = b.id) (howner : ∀ b, (edit b).owner = b.owner) :
    Ordered sequenceOf s (blocks.map edit) := by
  have hfilter : (blocks.map edit).filter (·.owner = captureOwner s) =
      (blocks.filter (·.owner = captureOwner s)).map edit := by
    rw [List.filter_map]
    congr 1
    apply List.filter_congr
    intro b _
    rw [Function.comp_apply, howner b]
  rw [Ordered, hfilter, List.pairwise_map]
  apply List.Pairwise.imp _ h
  intro b c hlt
  rwa [hid b, hid c]

/-- The blocks that are not of the session do not count. -/
theorem Ordered.insert_other {front back : List UtteranceBlock} {w : UtteranceBlock}
    (h : Ordered sequenceOf s (front ++ back)) (hw : w.owner ≠ captureOwner s) :
    Ordered sequenceOf s (front ++ w :: back) := by
  rw [Ordered, List.filter_append, List.filter_cons_of_neg (by simpa using hw), ← List.filter_append]
  exact h

theorem Ordered.insert {front back : List UtteranceBlock} {w : UtteranceBlock}
    (h : Ordered sequenceOf s (front ++ back)) (hw : w.owner = captureOwner s)
    (hfront : ∀ b ∈ front, b.owner = captureOwner s → sequenceOf b.id < sequenceOf w.id)
    (hback : ∀ b ∈ back, b.owner = captureOwner s → sequenceOf w.id < sequenceOf b.id) :
    Ordered sequenceOf s (front ++ w :: back) := by
  rw [Ordered, List.filter_append, List.pairwise_append] at h
  obtain ⟨hbefore, hafter, hacross⟩ := h
  have hlow : ∀ b ∈ front.filter (·.owner = captureOwner s), sequenceOf b.id < sequenceOf w.id := by
    intro b hb
    exact hfront b (List.mem_of_mem_filter hb) (of_decide_eq_true (List.mem_filter.mp hb).2)
  rw [Ordered, List.filter_append, List.filter_cons_of_pos (by simpa using hw), List.pairwise_append,
    List.pairwise_cons]
  refine ⟨hbefore, ⟨?_, hafter⟩, ?_⟩
  · intro b hb
    exact hback b (List.mem_of_mem_filter hb) (of_decide_eq_true (List.mem_filter.mp hb).2)
  · intro b hb c hc
    cases List.mem_cons.mp hc with
    | inl heq => exact heq ▸ hlow b hb
    | inr hc => exact hacross b hb c hc

theorem nodup_insert {front back : List UtteranceBlock} {w : UtteranceBlock}
    (h : ((front ++ back).map (·.id)).Nodup) (hfresh : ∀ b ∈ front ++ back, b.id ≠ w.id) :
    ((front ++ w :: back).map (·.id)).Nodup := by
  have hmiddle : (front ++ w :: back).Perm (w :: (front ++ back)) := List.perm_middle
  have hperm : ((front ++ w :: back).map (·.id)).Perm (w.id :: (front ++ back).map (·.id)) :=
    hmiddle.map fun b => b.id
  rw [hperm.nodup_iff, List.nodup_cons]
  refine ⟨?_, h⟩
  intro hin
  obtain ⟨b, hb, hid⟩ := List.mem_map.mp hin
  exact hfresh b hb hid

theorem mem_insert {front back : List UtteranceBlock} {w b : UtteranceBlock} :
    b ∈ front ++ w :: back ↔ b = w ∨ b ∈ front ++ back := by
  simp only [List.mem_append, List.mem_cons]
  tauto

namespace Placed

theorem exists_fact (h : Placed sessionOf sequenceOf s facts blocks) {b : UtteranceBlock} (hb : b ∈ blocks)
    (howner : b.owner = captureOwner s) : ∃ u ∈ facts, u.id = b.id ∧ HasFinalLane u := by
  cases h.owned b hb with
  | inl hcapture => exact hcapture.2
  | inr huser => exact absurd (howner.symm.trans huser.1) (captureOwner_ne_userOwner s)

theorem map (h : Placed sessionOf sequenceOf s facts blocks) {edit : UtteranceBlock → UtteranceBlock}
    (hid : ∀ b, (edit b).id = b.id) (howner : ∀ b, (edit b).owner = b.owner) :
    Placed sessionOf sequenceOf s facts (blocks.map edit) := by
  refine ⟨?_, ?_, h.ordered.map hid howner⟩
  · rw [List.map_map]
    have hids : blocks.map ((·.id) ∘ edit) = blocks.map (·.id) := List.map_congr_left fun b _ => hid b
    rw [hids]
    exact h.ids
  · intro c hc
    obtain ⟨b, hb, rfl⟩ := List.mem_map.mp hc
    rw [hid b, howner b]
    exact h.owned b hb

end Placed

theorem SnapshotOk.eq_of_sequence (hs : SnapshotOk sessionOf sequenceOf s facts) {u v : RealtimeUtterance}
    (hu : u ∈ facts) (hv : v ∈ facts) (h : sequenceOf u.id = sequenceOf v.id) : u = v := by
  have hsequences : (facts.map (·.sequence)).Nodup := by
    rw [List.Nodup, List.pairwise_map]
    exact hs.ordered.imp fun hlt => hlt.ne
  rw [← (hs.fixed u hu).2, ← (hs.fixed v hv).2] at h
  exact List.inj_on_of_nodup_map hsequences hu hv h

theorem standsBehind_iff (h : Placed sessionOf sequenceOf s facts blocks)
    (hs : SnapshotOk sessionOf sequenceOf s facts) {b : UtteranceBlock} (hb : b ∈ blocks) (sequence : Nat) :
    standsBehind (captureOwner s) (sequenceById facts) sequence b = true ↔
      b.owner = captureOwner s ∧ sequence < sequenceOf b.id := by
  rw [standsBehind, Bool.and_eq_true, decide_eq_true_eq]
  apply and_congr_right
  intro howner
  obtain ⟨u, hu, hid, -⟩ := h.exists_fact hb howner
  rw [← hid, sequenceById_eq hs hu, Option.any_some, decide_eq_true_eq]

/-! ## The anchor -/

/-- The loop so far: the blocks of its start are there, and new ones stand before the rest. -/
structure Underway (sequenceOf : String → Nat) (s : String) (before blocks : List UtteranceBlock)
    (rest : List RealtimeUtterance) : Prop where
  kept : ∀ b ∈ before, ∃ c ∈ blocks, c.id = b.id
  created : ∀ c ∈ blocks, c.owner = captureOwner s →
    (∃ b ∈ before, b.id = c.id ∧ b.owner = captureOwner s) ∨ ∀ u ∈ rest, sequenceOf c.id < sequenceOf u.id

/-- Where the region of the session ends, there are annotations at most. -/
theorem insertAnchor_atEnd {before : List UtteranceBlock} (hbefore : Placed sessionOf sequenceOf s facts before)
    {sequences : String → Option Nat} {sequence : Nat}
    (hnone : before.find? (standsBehind (captureOwner s) sequences sequence) = none) :
    insertAnchor before s sequences sequence = none := by
  rw [insertAnchor, hnone]
  dsimp only
  split
  · rw [Option.map_eq_none_iff, List.find?_eq_none]
    intro b hb
    have htail := List.mem_rtakeWhile_imp hb
    have hmem : b ∈ before := (List.rtakeWhile_suffix _ _).mem hb
    cases hbefore.owned b hmem with
    | inl hcapture => exact absurd hcapture.1 (of_decide_eq_true htail)
    | inr huser => simp [huser.1]
  · rfl

/-- **A new block** stands behind the blocks of its session with lower sequence numbers and in
front of the others. -/
theorem exists_insert_ordered {before : List UtteranceBlock}
    (hbefore : Placed sessionOf sequenceOf s facts before) (hblocks : Placed sessionOf sequenceOf s facts blocks)
    (hs : SnapshotOk sessionOf sequenceOf s facts) {u : RealtimeUtterance} (hu : u ∈ facts)
    {rest : List RealtimeUtterance} (hway : Underway sequenceOf s before blocks (u :: rest))
    (hfresh : ∀ b ∈ blocks, b.id ≠ u.id) (w : UtteranceBlock) :
    ∃ front back, blocks = front ++ back ∧
      Model.insertBlock w blocks (insertAnchor before s (sequenceById facts) u.sequence) = .ok (front ++ w :: back) ∧
      (∀ b ∈ front, b.owner = captureOwner s → sequenceOf b.id < sequenceOf u.id) ∧
      ∀ b ∈ back, b.owner = captureOwner s → sequenceOf u.id < sequenceOf b.id := by
  have hsequence := (hs.fixed u hu).2
  have hne : ∀ b ∈ blocks, b.owner = captureOwner s → sequenceOf b.id ≠ sequenceOf u.id := by
    intro b hb howner heq
    obtain ⟨v, hv, hid, -⟩ := hblocks.exists_fact hb howner
    obtain rfl := SnapshotOk.eq_of_sequence hs hv hu (hid ▸ heq)
    exact hfresh b hb hid.symm
  cases hfind : before.find? (standsBehind (captureOwner s) (sequenceById facts) u.sequence) with
  | none =>
    refine ⟨blocks, [], (List.append_nil _).symm, ?_, ?_, fun b hb => absurd hb List.not_mem_nil⟩
    · rw [insertAnchor_atEnd hbefore hfind]
      rfl
    · intro b hb howner
      cases hway.created b hb howner with
      | inr hnew => exact hnew u List.mem_cons_self
      | inl hold =>
        obtain ⟨c, hc, hid, hcowner⟩ := hold
        have hnot := List.find?_eq_none.mp hfind c hc
        rw [standsBehind_iff hbefore hs hc, hid] at hnot
        have := hne b hb howner
        have : ¬ u.sequence < sequenceOf b.id := fun hlt => hnot ⟨hcowner, hlt⟩
        omega
  | some a =>
    obtain ⟨hbehind, early, late, hsplit, hearly⟩ := List.find?_eq_some_iff_append.mp hfind
    have ha : a ∈ before := List.mem_of_find?_eq_some hfind
    obtain ⟨haowner, hlt⟩ := (standsBehind_iff hbefore hs ha u.sequence).mp hbehind
    obtain ⟨c, hc, hcid⟩ := hway.kept a ha
    obtain ⟨front, back, rfl⟩ := List.append_of_mem hc
    have hcowner : c.owner = captureOwner s := by
      cases hblocks.owned c hc with
      | inl hcapture => exact hcapture.1
      | inr huser =>
        obtain ⟨v, hv, hvid, -⟩ := hbefore.exists_fact ha haowner
        have hnone := huser.2
        rw [hcid, ← hvid, (hs.fixed v hv).1] at hnone
        cases hnone
    have hids := hblocks.ids
    rw [List.map_append, List.nodup_append] at hids
    have hfront : ∀ b ∈ front, b.id ≠ c.id :=
      fun b hb heq => hids.2.2 b.id (List.mem_map_of_mem hb) c.id (List.mem_map_of_mem List.mem_cons_self) heq
    have hordered := hblocks.ordered
    rw [Ordered, List.filter_append, List.pairwise_append, List.filter_cons_of_pos (by simp [hcowner]),
      List.pairwise_cons] at hordered
    obtain ⟨-, ⟨hafter, -⟩, hacross⟩ := hordered
    refine ⟨front, c :: back, rfl, ?_, ?_, ?_⟩
    · rw [insertAnchor, hfind]
      dsimp only
      rw [← hcid]
      exact insertBlock_before hfront
    · intro b hb howner
      have hmem : b ∈ front ++ c :: back := List.mem_append_left _ hb
      have hbc := hacross b (List.mem_filter.mpr ⟨hb, decide_eq_true howner⟩) c List.mem_cons_self
      cases hway.created b hmem howner with
      | inr hnew => exact hnew u List.mem_cons_self
      | inl hold =>
        -- Were it behind the new block, the anchor would not be the first one behind it.
        obtain ⟨d, hd, hdid, hdowner⟩ := hold
        have hnotlt : ¬ u.sequence < sequenceOf b.id := by
          intro hblt
          rw [hsplit] at hd
          cases List.mem_append.mp hd with
          | inl hd =>
            have hfirst := hearly d hd
            have hbehind' := (standsBehind_iff hbefore hs (hsplit ▸ List.mem_append_left _ hd) u.sequence).mpr
              ⟨hdowner, hdid ▸ hblt⟩
            rw [hbehind'] at hfirst
            cases hfirst
          | inr hd =>
            have hbordered := hbefore.ordered
            rw [Ordered, hsplit, List.filter_append, List.pairwise_append,
              List.filter_cons_of_pos (by simp [haowner]), List.pairwise_cons] at hbordered
            cases List.mem_cons.mp hd with
            | inl heq =>
              subst heq
              rw [← hdid, hcid] at hbc
              omega
            | inr hd =>
              have had := hbordered.2.1.1 d (List.mem_filter.mpr ⟨hd, decide_eq_true hdowner⟩)
              rw [hdid, ← hcid] at had
              omega
        have := hne b hmem howner
        omega
    · intro b hb howner
      cases List.mem_cons.mp hb with
      | inl heq =>
        subst heq
        rw [hcid]
        omega
      | inr hb =>
        have := hafter b (List.mem_filter.mpr ⟨hb, decide_eq_true howner⟩)
        rw [hcid] at this
        omega

/-! ## The loop -/

theorem Underway.tail {before : List UtteranceBlock} {u : RealtimeUtterance} {rest : List RealtimeUtterance}
    (h : Underway sequenceOf s before blocks (u :: rest)) : Underway sequenceOf s before blocks rest := by
  refine ⟨h.kept, fun c hc howner => ?_⟩
  cases h.created c hc howner with
  | inl hold => exact .inl hold
  | inr hnew => exact .inr fun v hv => hnew v (List.mem_cons_of_mem _ hv)

theorem Underway.map {before : List UtteranceBlock} {rest : List RealtimeUtterance}
    (h : Underway sequenceOf s before blocks rest) {edit : UtteranceBlock → UtteranceBlock}
    (hid : ∀ b, (edit b).id = b.id) (howner : ∀ b, (edit b).owner = b.owner) :
    Underway sequenceOf s before (blocks.map edit) rest := by
  constructor
  · intro b hb
    obtain ⟨c, hc, hcid⟩ := h.kept b hb
    exact ⟨edit c, List.mem_map_of_mem hc, (hid c).trans hcid⟩
  · intro c hc hcowner
    obtain ⟨b, hb, rfl⟩ := List.mem_map.mp hc
    rw [howner b] at hcowner
    rw [hid b]
    exact h.created b hb hcowner

/-- One utterance keeps the blocks in order. -/
theorem RefreshOne.placed {before : List UtteranceBlock} {shared after : SharedSession} {wrote : Bool}
    (hbefore : Placed sessionOf sequenceOf s facts before) (hs : SnapshotOk sessionOf sequenceOf s facts)
    {u : RealtimeUtterance} {rest : List RealtimeUtterance} (hsub : List.Sublist (u :: rest) facts)
    {write : MachineBlockWrite} (hwrite : machineBlockWrite u = some write)
    (hblocks : Placed sessionOf sequenceOf s facts shared.blocks)
    (hway : Underway sequenceOf s before shared.blocks (u :: rest))
    (h : RefreshOne before s (sequenceById facts) u write shared wrote after) :
    Placed sessionOf sequenceOf s facts after.blocks ∧ Underway sequenceOf s before after.blocks rest := by
  have hu : u ∈ facts := hsub.subset List.mem_cons_self
  have hid := write_id hwrite
  cases h with
  | quiet => exact ⟨hblocks, hway.tail⟩
  | edited current hcurrent hloud next hnext =>
    subst hnext
    have hkeeps : ∀ b : UtteranceBlock,
        (if b.id = write.id then Model.machineWrite (yielded shared.shadow current write)
          (freezeLanes shared.shadow current write).1 b else b).id = b.id ∧
        (if b.id = write.id then Model.machineWrite (yielded shared.shadow current write)
          (freezeLanes shared.shadow current write).1 b else b).owner = b.owner := by
      intro b
      split <;> exact ⟨rfl, rfl⟩
    exact ⟨hblocks.map (fun b => (hkeeps b).1) fun b => (hkeeps b).2,
      hway.tail.map (fun b => (hkeeps b).1) fun b => (hkeeps b).2⟩
  | created hcurrent next hnext =>
    have hfresh : ∀ b ∈ shared.blocks, b.id ≠ u.id := by
      rw [← hid]
      exact lookup_eq_none.mp hcurrent
    obtain ⟨front, back, hsplit, hinsert, hfront, hback⟩ :=
      exists_insert_ordered hbefore hblocks hs hu hway hfresh write
    obtain rfl := Except.ok.inj (hinsert.symm.trans hnext)
    have howner : write.owner = captureOwner s := by
      rw [machineBlockWrite_eq hwrite, hs.session u hu]
    have hfinal : HasFinalLane u := (machineBlockWrite_isSome (hs.lanes u hu)).mp (by rw [hwrite]; rfl)
    rw [hsplit] at hblocks hway hfresh
    rw [← hid] at hfront hback hfresh
    refine ⟨⟨nodup_insert hblocks.ids hfresh, ?_, hblocks.ordered.insert howner hfront hback⟩, ?_, ?_⟩
    · intro b hb
      cases mem_insert.mp hb with
      | inl heq =>
        subst heq
        exact .inl ⟨howner, u, hu, hid.symm, hfinal⟩
      | inr hb => exact hblocks.owned b hb
    · intro b hb
      obtain ⟨c, hc, hcid⟩ := hway.kept b hb
      exact ⟨c, mem_insert.mpr (.inr hc), hcid⟩
    · intro c hc hcowner
      cases mem_insert.mp hc with
      | inr hc => exact hway.tail.created c hc hcowner
      | inl heq =>
        subst heq
        refine .inr fun v hv => ?_
        have hlt := (List.pairwise_cons.mp (hs.ordered.sublist hsub)).1 v hv
        rw [(hs.fixed u hu).2, (hs.fixed v (hsub.subset (List.mem_cons_of_mem _ hv))).2] at hlt
        rwa [hid]

theorem refreshUtterances_placed {before : List UtteranceBlock}
    (hbefore : Placed sessionOf sequenceOf s facts before) (hs : SnapshotOk sessionOf sequenceOf s facts)
    {us : List RealtimeUtterance} (hsub : List.Sublist us facts) (changed : Bool) {shared : SharedSession}
    (hblocks : Placed sessionOf sequenceOf s facts shared.blocks)
    (hway : Underway sequenceOf s before shared.blocks us) :
    Placed sessionOf sequenceOf s facts
        (refreshUtterances before s (sequenceById facts) us changed shared).2.blocks ∧
      ((∀ u ∈ us, ∀ write, machineBlockWrite u = some write → WriteValid write) →
        ∃ changed', (refreshUtterances before s (sequenceById facts) us changed shared).1 = .ok changed') := by
  induction us generalizing changed shared with
  | nil => exact ⟨hblocks, fun _ => ⟨changed, rfl⟩⟩
  | cons u rest ih =>
    have hrest : List.Sublist rest facts := List.Sublist.trans (List.sublist_cons_self u rest) hsub
    cases hwrite : machineBlockWrite u with
    | none =>
      obtain ⟨hplaced, hdone⟩ := ih hrest changed hblocks hway.tail
      rw [refreshUtterances_skip hwrite]
      exact ⟨hplaced, fun hvalid => hdone fun v hv => hvalid v (List.mem_cons_of_mem _ hv)⟩
    | some write =>
      cases @refreshUtterances_cons before s (sequenceById facts) u write rest changed shared hwrite with
      | inl hone =>
        obtain ⟨wrote, after, hone, heq⟩ := hone
        obtain ⟨hafter, hway'⟩ := hone.placed hbefore hs hsub hwrite hblocks hway
        obtain ⟨hplaced, hdone⟩ := ih hrest (changed || wrote) hafter hway'
        rw [heq]
        exact ⟨hplaced, fun hvalid => hdone fun v hv => hvalid v (List.mem_cons_of_mem _ hv)⟩
      | inr hstop =>
        obtain ⟨error, shadow, heq, -, hrefused⟩ := hstop
        rw [heq]
        refine ⟨hblocks, fun hvalid => ?_⟩
        obtain ⟨hcurrent, hinsert⟩ := hrefused (hvalid u List.mem_cons_self write hwrite)
        have hfresh : ∀ b ∈ shared.blocks, b.id ≠ u.id := by
          rw [← write_id hwrite]
          exact lookup_eq_none.mp hcurrent
        obtain ⟨front, back, -, hok, -⟩ :=
          exists_insert_ordered hbefore hblocks hs (hsub.subset List.mem_cons_self) hway hfresh write
        rw [hok] at hinsert
        cases hinsert

/-- **One refresh** keeps the blocks in order, and completes where the document accepts the writes. -/
theorem refreshFromFacts_placed {shared : SharedSession}
    (hblocks : Placed sessionOf sequenceOf s facts shared.blocks) (hs : SnapshotOk sessionOf sequenceOf s facts) :
    Placed sessionOf sequenceOf s facts (refreshFromFacts s facts shared).2.blocks ∧
      ((∀ u ∈ facts, ∀ write, machineBlockWrite u = some write → WriteValid write) →
        ∃ changed, (refreshFromFacts s facts shared).1 = .ok changed) := by
  refine refreshUtterances_placed hblocks hs (List.Sublist.refl facts) false hblocks ⟨?_, ?_⟩
  · exact fun b hb => ⟨b, hb, rfl⟩
  · exact fun c hc howner => .inl ⟨c, hc, rfl, howner⟩

end

end Zulangue.Shared
