import Zulangue.Transcript.Finalized

/-!
# The projection converges in spoken order

Whatever the order in which facts become Final, the blocks of a session are those of its
Final utterances in the order of their sequence numbers. One upsert keeps this; a run of
projections, annotations and edits does too.
-/

namespace Zulangue.Transcript

open Zulangue.Lib Zulangue.Capture

/-! ## Where a new block goes -/

theorem insertBlock_before {w c : UtteranceBlock} {before after : List UtteranceBlock}
    (hfresh : ∀ b ∈ before, b.id ≠ c.id) :
    Model.insertBlock w (before ++ c :: after) (some c.id) = .ok (before ++ w :: c :: after) := by
  have hexists : ∃ other ∈ before ++ c :: after, other.id = c.id :=
    ⟨c, List.mem_append_right _ List.mem_cons_self, rfl⟩
  have htake : (before ++ c :: after).takeWhile (fun b => decide (b.id ≠ c.id)) = before := by
    rw [List.takeWhile_append_of_pos fun b hb => decide_eq_true (hfresh b hb)]
    simp
  have hdrop : (before ++ c :: after).dropWhile (fun b => decide (b.id ≠ c.id)) = c :: after := by
    rw [List.dropWhile_append_of_pos fun b hb => decide_eq_true (hfresh b hb)]
    simp
  rw [Model.insertBlock, if_pos hexists, htake, hdrop]

/-- Where the anchor puts a block: in front of the first block of its session behind it, or,
with all of them before it, at the end of their region. -/
inductive Placement (owner : String) (behind : UtteranceBlock → Bool) (before after : List UtteranceBlock) : Prop
  | inside (c : UtteranceBlock) (rest : List UtteranceBlock) (hafter : after = c :: rest)
      (howner : c.owner = owner) (hbehind : behind c = true) (hbefore : ∀ b ∈ before, behind b = false)
  | atEnd (hnone : ∀ b ∈ before ++ after, behind b = false) (hafter : ∀ b ∈ after, b.owner ≠ owner)
      (hregion : ∀ region m others, before ++ after = region ++ m :: others → m.owner ≠ userOwner →
        (∃ b ∈ region, b.owner = owner) → (∀ b ∈ m :: others, b.owner ≠ owner) →
        ∃ trailing, after = trailing ++ m :: others)

/-- Behind the last block of a region come annotations, then the rest. -/
theorem region_end {owner : String} {front users after region others : List UtteranceBlock}
    {last m : UtteranceBlock} (hlast : last.owner = owner) (husers : ∀ b ∈ users, b.owner = userOwner)
    (hsplit : (front ++ [last] ++ users) ++ after = region ++ m :: others) (hm : m.owner ≠ userOwner)
    (hothers : ∀ b ∈ m :: others, b.owner ≠ owner) : ∃ trailing, after = trailing ++ m :: others := by
  cases List.append_eq_append_iff.mp hsplit with
  | inl hlate =>
    obtain ⟨trailing, -, hafter⟩ := hlate
    exact ⟨trailing, hafter⟩
  | inr hearly =>
    obtain ⟨rest, hfront, hrest⟩ := hearly
    cases rest with
    | nil => exact ⟨[], hrest.symm⟩
    | cons x rest =>
      -- Otherwise the last block of the region or one of the annotations would be behind `m`.
      obtain ⟨rfl, hrest⟩ := List.cons.inj hrest
      have hmem : last ∈ m :: rest ∨ m ∈ users := by
        cases List.append_eq_append_iff.mp hfront with
        | inl hlate =>
          obtain ⟨middle, -, husers'⟩ := hlate
          exact .inr (husers' ▸ List.mem_append_right _ List.mem_cons_self)
        | inr hearly =>
          obtain ⟨middle, hmiddle, hrest'⟩ := hearly
          cases List.eq_nil_or_concat middle with
          | inl hnil =>
            subst hnil
            rw [List.nil_append] at hrest'
            exact .inr (hrest' ▸ List.mem_cons_self)
          | inr hconcat =>
            obtain ⟨init, x, rfl⟩ := hconcat
            rw [List.concat_eq_append, ← List.append_assoc] at hmiddle
            obtain ⟨-, hx⟩ := List.append_inj' hmiddle rfl
            obtain rfl := List.singleton_inj.mp hx
            rw [hrest', List.concat_eq_append]
            exact .inl (List.mem_append_left _ (List.mem_append_right _ (List.mem_singleton.mpr rfl)))
      cases hmem with
      | inl hmem =>
        have hin : last ∈ m :: others := by
          rw [hrest]
          cases List.mem_cons.mp hmem with
          | inl heq => exact heq ▸ List.mem_cons_self
          | inr hmem => exact List.mem_cons_of_mem _ (List.mem_append_left _ hmem)
        exact absurd hlast (hothers last hin)
      | inr hmem => exact absurd (husers m hmem) hm

/-- The last block of a session, and what is behind it. -/
theorem exists_last_of_owner {owner : String} {blocks : List UtteranceBlock} (h : ∃ b ∈ blocks, b.owner = owner) :
    ∃ front last, blocks = front ++ [last] ++ blocks.rtakeWhile (·.owner ≠ owner) ∧ last.owner = owner ∧
      ∀ b ∈ blocks.rtakeWhile (·.owner ≠ owner), b.owner ≠ owner := by
  induction blocks using List.reverseRecOn with
  | nil =>
    obtain ⟨b, hb, -⟩ := h
    cases hb
  | append_singleton init x ih =>
    by_cases hx : x.owner = owner
    · rw [List.rtakeWhile_concat_neg _ _ _ (by simp [hx])]
      exact ⟨init, x, (List.append_nil _).symm, hx, fun b hb => absurd hb List.not_mem_nil⟩
    · have hinit : ∃ b ∈ init, b.owner = owner := by
        obtain ⟨b, hb, howner⟩ := h
        cases List.mem_append.mp hb with
        | inl hb => exact ⟨b, hb, howner⟩
        | inr hb => exact absurd (List.mem_singleton.mp hb ▸ howner) hx
      obtain ⟨front, last, hsplit, hlast, htail⟩ := ih hinit
      rw [List.rtakeWhile_concat_pos _ _ _ (by simp [hx])]
      refine ⟨front, last, ?_, hlast, ?_⟩
      · rw [← List.append_assoc, ← hsplit]
      · intro b hb
        cases List.mem_append.mp hb with
        | inl hb => exact htail b hb
        | inr hb =>
          obtain rfl := List.mem_singleton.mp hb
          exact hx

theorem exists_placement {blocks : List UtteranceBlock} (hdistinct : (blocks.map (·.id)).Nodup)
    (sessionId : String) (sequences : String → Option Nat) (sequence : Nat) (w : UtteranceBlock) :
    ∃ before after, blocks = before ++ after ∧
      Model.insertBlock w blocks (insertAnchor blocks sessionId sequences sequence) = .ok (before ++ w :: after) ∧
      Placement (captureOwner sessionId) (standsBehind (captureOwner sessionId) sequences sequence) before after := by
  have hfresh : ∀ {before after : List UtteranceBlock} {c : UtteranceBlock}, blocks = before ++ c :: after →
      ∀ b ∈ before, b.id ≠ c.id := by
    intro before after c hsplit b hb heq
    rw [hsplit, List.map_append, List.nodup_append] at hdistinct
    exact hdistinct.2.2 b.id (List.mem_map_of_mem hb) c.id (List.mem_map_of_mem List.mem_cons_self) heq
  rw [insertAnchor]
  cases hfind : blocks.find? (standsBehind (captureOwner sessionId) sequences sequence) with
  | some c =>
    obtain ⟨hbehind, before, rest, hsplit, hbefore⟩ := List.find?_eq_some_iff_append.mp hfind
    refine ⟨before, c :: rest, hsplit, ?_, ?_⟩
    · dsimp only
      rw [hsplit]
      exact insertBlock_before (hfresh hsplit)
    · have howner : c.owner = captureOwner sessionId := of_decide_eq_true (Bool.and_eq_true_iff.mp hbehind).1
      exact .inside c rest rfl howner hbehind fun b hb => by simpa using hbefore b hb
  | none =>
    have hnone : ∀ b ∈ blocks, standsBehind (captureOwner sessionId) sequences sequence b = false :=
      fun b hb => Bool.eq_false_iff.mpr (List.find?_eq_none.mp hfind b hb)
    by_cases hany : ∃ b ∈ blocks, b.owner = captureOwner sessionId
    · have hregion : (blocks.any (·.owner = captureOwner sessionId)) = true := by
        obtain ⟨b, hb, howner⟩ := hany
        exact List.any_eq_true.mpr ⟨b, hb, decide_eq_true howner⟩
      rw [if_pos hregion]
      obtain ⟨front, last, hsplit, hlast, htail⟩ := exists_last_of_owner hany
      generalize blocks.rtakeWhile (·.owner ≠ captureOwner sessionId) = tail at hsplit htail
      cases hnext : tail.find? (·.owner ≠ userOwner) with
      | none =>
        have husers : ∀ b ∈ tail, b.owner = userOwner := by
          intro b hb
          simpa using List.find?_eq_none.mp hnext b hb
        refine ⟨blocks, [], (List.append_nil _).symm, rfl, .atEnd ?_ (fun b hb => absurd hb List.not_mem_nil) ?_⟩
        · rwa [List.append_nil]
        · intro region m others hsplit' hm _ hothers
          rw [hsplit] at hsplit'
          exact region_end hlast husers hsplit' hm hothers
      | some c =>
        obtain ⟨hc, users, rest, htailSplit, husers⟩ := List.find?_eq_some_iff_append.mp hnext
        have husers' : ∀ b ∈ users, b.owner = userOwner := by
          intro b hb
          simpa using husers b hb
        have hsplit' : blocks = (front ++ [last] ++ users) ++ c :: rest := by
          rw [hsplit, htailSplit, List.append_assoc (front ++ [last])]
        refine ⟨front ++ [last] ++ users, c :: rest, hsplit', ?_, .atEnd ?_ ?_ ?_⟩
        · rw [Option.map_some]
          conv_lhs => rw [hsplit']
          exact insertBlock_before (hfresh hsplit')
        · rwa [← hsplit']
        · intro b hb
          exact htail b (htailSplit ▸ List.mem_append_right _ hb)
        · intro region m others hsplit'' hm _ hothers
          exact region_end hlast husers' hsplit'' hm hothers
    · have hregion : ¬(blocks.any (·.owner = captureOwner sessionId)) = true := by
        intro h
        obtain ⟨b, hb, howner⟩ := List.any_eq_true.mp h
        exact hany ⟨b, hb, of_decide_eq_true howner⟩
      rw [if_neg hregion]
      refine ⟨blocks, [], (List.append_nil _).symm, rfl, .atEnd ?_ (fun b hb => absurd hb List.not_mem_nil) ?_⟩
      · rwa [List.append_nil]
      · intro region m others hsplit _ hin _
        obtain ⟨b, hb, howner⟩ := hin
        rw [List.append_nil] at hsplit
        exact absurd ⟨b, hsplit ▸ List.mem_append_left _ hb, howner⟩ hany

/-! ## The lanes of a block -/

theorem get_finalizedLanes_of_ne (variants : List RealtimeUtteranceVariant) (lanes : BTreeMap String) {lane : String}
    (h : ∀ v ∈ variants, captureLaneId v.language ≠ lane) :
    KeyMap.get lane (variants.foldl (fun lanes v => lanes.insert (captureLaneId v.language) (v.text.getD "")) lanes).1 =
      KeyMap.get lane lanes.1 := by
  induction variants generalizing lanes with
  | nil => rfl
  | cons v rest ih =>
    rw [List.foldl_cons, ih _ fun w hw => h w (List.mem_cons_of_mem _ hw)]
    exact KeyMap.get_insert_of_ne (h v List.mem_cons_self).symm _ _

theorem get_finalizedLanes_of_mem {variants : List RealtimeUtteranceVariant} (lanes : BTreeMap String)
    (hdistinct : (variants.map fun v => captureLaneId v.language).Nodup) {v : RealtimeUtteranceVariant}
    (hv : v ∈ variants) :
    KeyMap.get (captureLaneId v.language)
      (variants.foldl (fun lanes v => lanes.insert (captureLaneId v.language) (v.text.getD "")) lanes).1 =
        some (v.text.getD "") := by
  induction variants generalizing lanes with
  | nil => cases hv
  | cons w rest ih =>
    rw [List.map_cons, List.nodup_cons] at hdistinct
    rw [List.foldl_cons]
    cases hv with
    | head =>
      rw [get_finalizedLanes_of_ne rest _ fun x hx heq => hdistinct.1 (List.mem_map.mpr ⟨x, hx, heq⟩)]
      exact KeyMap.get_insert_self _ _ _
    | tail _ hv => exact ih _ hdistinct.2 hv

/-- The lanes of an utterance have languages of their own. -/
def LanesDistinct (u : RealtimeUtterance) : Prop := (u.variants.map fun v => captureLaneId v.language).Nodup

theorem get_lanes_of_final {u : RealtimeUtterance} (h : LanesDistinct u) {v : RealtimeUtteranceVariant}
    (hv : v ∈ finalizedTranslationVariants u) :
    KeyMap.get (captureLaneId v.language) (finalizedLanes (finalizedTranslationVariants u)).1 = v.text := by
  have hdistinct : ((finalizedTranslationVariants u).map fun v => captureLaneId v.language).Nodup :=
    h.sublist (List.filter_sublist.map _)
  have htext : v.text.isSome = true := (Bool.and_eq_true_iff.mp (List.mem_filter.mp hv).2).2
  obtain ⟨text, htext⟩ := Option.isSome_iff_exists.mp htext
  rw [finalizedLanes, get_finalizedLanes_of_mem _ hdistinct hv, htext]
  rfl

theorem exists_final_of_get {u : RealtimeUtterance} {lane text : String}
    (h : KeyMap.get lane (finalizedLanes (finalizedTranslationVariants u)).1 = some text) :
    ∃ v ∈ finalizedTranslationVariants u, captureLaneId v.language = lane := by
  by_contra hnone
  push Not at hnone
  rw [finalizedLanes, get_finalizedLanes_of_ne _ _ hnone] at h
  cases h

theorem machineBlockWrite_eq {u : RealtimeUtterance} {write : MachineBlockWrite}
    (h : machineBlockWrite u = some write) :
    write = { id := u.id, owner := captureOwner u.sessionId
              text := if u.sourceLaneIsComplete then u.sourceText else ""
              lanes := finalizedLanes (finalizedTranslationVariants u) } := by
  rw [machineBlockWrite] at h
  split at h
  · cases h
  · exact (Option.some.inj h).symm

/-- A block is covered by its utterance: its lanes are Final there, and what the user took
over is as the utterance shows it. -/
structure Covers (u : RealtimeUtterance) (b : UtteranceBlock) : Prop where
  projectable : (machineBlockWrite u).isSome
  lanes : ∀ lane text, KeyMap.get lane b.lanes.1 = some text →
    ∃ v ∈ finalizedTranslationVariants u, captureLaneId v.language = lane
  edited : ∀ v ∈ u.variants, v.role = .translation → 0 < v.editRevision →
    KeyMap.get (captureLaneId v.language) b.lanes.1 = v.text

/-- The user only takes over Final lanes. -/
def EditsFinal (u : RealtimeUtterance) : Prop :=
  ∀ v ∈ u.variants, v.role = .translation → 0 < v.editRevision → v ∈ finalizedTranslationVariants u

theorem mem_frozenLanes {u : RealtimeUtterance} {lane : String} :
    lane ∈ frozenLanes u ↔
      ∃ v ∈ u.variants, v.role = .translation ∧ 0 < v.editRevision ∧ captureLaneId v.language = lane := by
  simp [frozenLanes, and_assoc]

/-- A machine write makes a covered block the block of its utterance. -/
theorem machineWrite_covered {u : RealtimeUtterance} {b write : UtteranceBlock} (hdistinct : LanesDistinct u)
    (hedits : EditsFinal u) (hcovers : Covers u b) (hwrite : machineBlockWrite u = some write)
    (hid : b.id = write.id) (howner : b.owner = write.owner) :
    Model.machineWrite write (frozenLanes u) b = write := by
  have hlanes : write.lanes = finalizedLanes (finalizedTranslationVariants u) := by
    rw [machineBlockWrite_eq hwrite]
  have hsame : Model.writeLanes (frozenLanes u) write.lanes.1 b.lanes = write.lanes := by
    refine Subtype.ext (KeyMap.Sorted.ext (Model.writeLanes _ _ _).2 write.lanes.2 fun lane => ?_)
    rw [Model.get_writeLanes write.lanes.2]
    split
    · next hfrozen =>
      obtain ⟨v, hv, hrole, hedit, rfl⟩ := mem_frozenLanes.mp hfrozen
      rw [hcovers.edited v hv hrole hedit, hlanes, get_lanes_of_final hdistinct (hedits v hv hrole hedit)]
    · cases hget : KeyMap.get lane write.lanes.1 with
      | some text => rfl
      | none =>
        cases hold : KeyMap.get lane b.lanes.1 with
        | none => rfl
        | some text =>
          obtain ⟨v, hv, rfl⟩ := hcovers.lanes lane text hold
          rw [hlanes, get_lanes_of_final hdistinct hv] at hget
          have htext := (Bool.and_eq_true_iff.mp (List.mem_filter.mp hv).2).2
          rw [hget] at htext
          cases htext
  rw [Model.machineWrite, hsame]
  cases b
  cases write
  simp_all

theorem covers_write {u : RealtimeUtterance} {write : MachineBlockWrite} (hdistinct : LanesDistinct u)
    (hedits : EditsFinal u) (hwrite : machineBlockWrite u = some write) : Covers u write := by
  have hlanes : write.lanes = finalizedLanes (finalizedTranslationVariants u) := by
    rw [machineBlockWrite_eq hwrite]
  constructor
  · rw [hwrite]
    rfl
  · intro lane text hget
    rw [hlanes] at hget
    exact exists_final_of_get hget
  · intro v hv hrole hedit
    rw [hlanes]
    exact get_lanes_of_final hdistinct (hedits v hv hrole hedit)

/-! ## The blocks of a document -/

section
variable (sessionOf : String → Option String) (sequenceOf : String → Nat)

/-- A snapshot of a session. Ids keep their session and sequence number. -/
structure SnapshotOk (s : String) (utterances : List RealtimeUtterance) : Prop where
  session : ∀ u ∈ utterances, u.sessionId = s
  fixed : ∀ u ∈ utterances, sessionOf u.id = some s ∧ u.sequence = sequenceOf u.id
  ordered : utterances.Pairwise fun u v => u.sequence < v.sequence
  lanes : ∀ u ∈ utterances, LanesDistinct u
  edits : ∀ u ∈ utterances, EditsFinal u

/-- The blocks of a document and the facts of each session. In a session that is `free` all
blocks come from its utterances, in the order of their sequence numbers. -/
structure BlocksOk (free : String → Prop) (facts : String → List RealtimeUtterance)
    (blocks : List UtteranceBlock) : Prop where
  ids : (blocks.map (·.id)).Nodup
  owned : ∀ b ∈ blocks, ∀ s, sessionOf b.id = some s → b.owner = captureOwner s
  covered : ∀ b ∈ blocks, ∀ s, sessionOf b.id = some s → ∃ u ∈ facts s, u.id = b.id ∧ Covers u b
  captured : ∀ b ∈ blocks, ∀ s, free s → b.owner = captureOwner s → sessionOf b.id = some s
  ordered : ∀ s, free s → (blocks.filter (·.owner = captureOwner s)).Pairwise fun b c =>
    sequenceOf b.id < sequenceOf c.id

end

section
variable {sessionOf : String → Option String} {sequenceOf : String → Nat} {free : String → Prop}
variable {facts : String → List RealtimeUtterance} {blocks : List UtteranceBlock} {s : String}

theorem SnapshotOk.eq_of_id {utterances : List RealtimeUtterance} (h : SnapshotOk sessionOf sequenceOf s utterances)
    {u v : RealtimeUtterance} (hu : u ∈ utterances) (hv : v ∈ utterances) (hid : u.id = v.id) : u = v := by
  have hsequences : (utterances.map (·.sequence)).Nodup := by
    rw [List.Nodup, List.pairwise_map]
    exact h.ordered.imp fun hlt => hlt.ne
  have hsequence : u.sequence = v.sequence := by
    rw [(h.fixed u hu).2, (h.fixed v hv).2, hid]
  exact List.inj_on_of_nodup_map hsequences hu hv hsequence

theorem sequenceById_eq {utterances : List RealtimeUtterance} (h : SnapshotOk sessionOf sequenceOf s utterances)
    {u : RealtimeUtterance} (hu : u ∈ utterances) : sequenceById utterances u.id = some (sequenceOf u.id) := by
  rw [sequenceById]
  cases hfind : utterances.find? (·.id = u.id) with
  | none => exact absurd (decide_eq_true rfl) (List.find?_eq_none.mp hfind u hu)
  | some v =>
    have hid : v.id = u.id := of_decide_eq_true (List.find?_some hfind :)
    rw [Option.map_some, (h.fixed v (List.mem_of_find?_eq_some hfind)).2, hid]

namespace BlocksOk

theorem eq_of_id (h : BlocksOk sessionOf sequenceOf free facts blocks) {b c : UtteranceBlock} (hb : b ∈ blocks)
    (hc : c ∈ blocks) (hid : b.id = c.id) : b = c :=
  List.inj_on_of_nodup_map h.ids hb hc hid

theorem standsBehind_iff (h : BlocksOk sessionOf sequenceOf free facts blocks) (hfree : free s)
    (hs : SnapshotOk sessionOf sequenceOf s (facts s)) {b : UtteranceBlock} (hb : b ∈ blocks) (sequence : Nat) :
    standsBehind (captureOwner s) (sequenceById (facts s)) sequence b = true ↔
      b.owner = captureOwner s ∧ sequence < sequenceOf b.id := by
  rw [standsBehind, Bool.and_eq_true, decide_eq_true_eq]
  apply and_congr_right
  intro howner
  obtain ⟨u, hu, hid, -⟩ := h.covered b hb s (h.captured b hb s hfree howner)
  rw [← hid, sequenceById_eq hs hu, Option.any_some, decide_eq_true_eq]

/-- Changing blocks in place. -/
theorem map (h : BlocksOk sessionOf sequenceOf free facts blocks) {facts' : String → List RealtimeUtterance}
    {f : UtteranceBlock → UtteranceBlock} (hid : ∀ b ∈ blocks, (f b).id = b.id)
    (howner : ∀ b ∈ blocks, (f b).owner = b.owner)
    (hcovered : ∀ b ∈ blocks, ∀ s, sessionOf b.id = some s → ∃ u ∈ facts' s, u.id = b.id ∧ Covers u (f b)) :
    BlocksOk sessionOf sequenceOf free facts' (blocks.map f) := by
  constructor
  · rw [List.map_map]
    have hids : blocks.map ((·.id) ∘ f) = blocks.map (·.id) := List.map_congr_left hid
    rw [hids]
    exact h.ids
  · intro c hc s hsession
    obtain ⟨b, hb, rfl⟩ := List.mem_map.mp hc
    rw [hid b hb] at hsession
    exact (howner b hb).trans (h.owned b hb s hsession)
  · intro c hc s hsession
    obtain ⟨b, hb, rfl⟩ := List.mem_map.mp hc
    rw [hid b hb] at hsession
    obtain ⟨u, hu, huid, hcovers⟩ := hcovered b hb s hsession
    exact ⟨u, hu, huid.trans (hid b hb).symm, hcovers⟩
  · intro c hc s hfree hcapture
    obtain ⟨b, hb, rfl⟩ := List.mem_map.mp hc
    rw [hid b hb]
    exact h.captured b hb s hfree ((howner b hb).symm.trans hcapture)
  · intro s hfree
    have hfilter : (blocks.map f).filter (·.owner = captureOwner s) =
        (blocks.filter (·.owner = captureOwner s)).map f := by
      rw [List.filter_map]
      congr 1
      apply List.filter_congr
      intro b hb
      rw [Function.comp_apply, howner b hb]
    rw [hfilter, List.pairwise_map]
    refine List.Pairwise.imp_of_mem ?_ (h.ordered s hfree)
    intro b c hb hc hlt
    rwa [hid b (List.mem_of_mem_filter hb), hid c (List.mem_of_mem_filter hc)]

/-- A new block at a place that keeps the order of its session. -/
theorem insert (h : BlocksOk sessionOf sequenceOf free facts blocks) {before after : List UtteranceBlock}
    {w : UtteranceBlock} (hsplit : blocks = before ++ after) (hfresh : ∀ b ∈ blocks, b.id ≠ w.id)
    (howned : ∀ s, sessionOf w.id = some s →
      w.owner = captureOwner s ∧ ∃ u ∈ facts s, u.id = w.id ∧ Covers u w)
    (hcaptured : ∀ s, free s → w.owner = captureOwner s → sessionOf w.id = some s ∧
      (∀ b ∈ before, b.owner = captureOwner s → sequenceOf b.id < sequenceOf w.id) ∧
      ∀ b ∈ after, b.owner = captureOwner s → sequenceOf w.id < sequenceOf b.id) :
    BlocksOk sessionOf sequenceOf free facts (before ++ w :: after) := by
  have hmem : ∀ b ∈ before ++ w :: after, b = w ∨ b ∈ blocks := by
    intro b hb
    rw [hsplit]
    cases List.mem_append.mp hb with
    | inl hb => exact .inr (List.mem_append_left _ hb)
    | inr hb =>
      cases List.mem_cons.mp hb with
      | inl heq => exact .inl heq
      | inr hb => exact .inr (List.mem_append_right _ hb)
  constructor
  · have hperm : ((before ++ w :: after).map (·.id)).Perm (w.id :: blocks.map (·.id)) := by
      have hmiddle : (before ++ w :: after).Perm (w :: (before ++ after)) := List.perm_middle
      rw [hsplit]
      exact hmiddle.map fun b => b.id
    rw [hperm.nodup_iff, List.nodup_cons]
    refine ⟨?_, h.ids⟩
    intro hin
    obtain ⟨b, hb, hid⟩ := List.mem_map.mp hin
    exact hfresh b hb hid
  · intro b hb s hsession
    cases hmem b hb with
    | inl heq =>
      subst heq
      exact (howned s hsession).1
    | inr hb => exact h.owned b hb s hsession
  · intro b hb s hsession
    cases hmem b hb with
    | inl heq =>
      subst heq
      exact (howned s hsession).2
    | inr hb => exact h.covered b hb s hsession
  · intro b hb s hfree howner
    cases hmem b hb with
    | inl heq =>
      subst heq
      exact (hcaptured s hfree howner).1
    | inr hb => exact h.captured b hb s hfree howner
  · intro s hfree
    have hordered := h.ordered s hfree
    rw [hsplit, List.filter_append, List.pairwise_append] at hordered
    obtain ⟨hbefore, hafter, hacross⟩ := hordered
    rw [List.filter_append, List.filter_cons]
    split
    · next howner =>
      obtain ⟨-, hlow, hhigh⟩ := hcaptured s hfree (of_decide_eq_true howner)
      rw [List.pairwise_append, List.pairwise_cons]
      have hlow' : ∀ b ∈ before.filter (·.owner = captureOwner s), sequenceOf b.id < sequenceOf w.id := by
        intro b hb
        exact hlow b (List.mem_of_mem_filter hb) (of_decide_eq_true (List.mem_filter.mp hb).2)
      refine ⟨hbefore, ⟨?_, hafter⟩, ?_⟩
      · intro b hb
        exact hhigh b (List.mem_of_mem_filter hb) (of_decide_eq_true (List.mem_filter.mp hb).2)
      · intro b hb c hc
        cases List.mem_cons.mp hc with
        | inl heq => exact heq ▸ hlow' b hb
        | inr hc => exact hacross b hb c hc
    · rw [List.pairwise_append]
      exact ⟨hbefore, hafter, hacross⟩

end BlocksOk

theorem captureOwner_inj {s t : String} (h : captureOwner s = captureOwner t) : s = t := by
  have hlists := congrArg String.toList h
  rw [captureOwner, captureOwner, String.toList_append, String.toList_append] at hlists
  exact String.toList_inj.mp (List.append_cancel_left hlists)

theorem captureOwner_ne_userOwner (s : String) : captureOwner s ≠ userOwner := by
  intro h
  have hlists := congrArg String.toList h
  rw [captureOwner, userOwner, String.toList_append] at hlists
  have hhead := congrArg List.head? hlists
  simp at hhead

/-! ## One upsert -/

/-- What an upsert in a session leaves alone: the order of the other blocks, and everything
from a machine block behind the region of the session on. -/
structure LeavesOthers (s : String) (blocks next : List UtteranceBlock) : Prop where
  others : next.filter (·.owner ≠ captureOwner s) = blocks.filter (·.owner ≠ captureOwner s)
  behind : ∀ region m rest, blocks = region ++ m :: rest → m.owner ≠ userOwner →
    (∃ b ∈ region, b.owner = captureOwner s) → (∀ b ∈ m :: rest, b.owner ≠ captureOwner s) →
    ∃ region', next = region' ++ m :: rest ∧ ∃ b ∈ region', b.owner = captureOwner s

theorem LeavesOthers.refl (s : String) (blocks : List UtteranceBlock) : LeavesOthers s blocks blocks :=
  ⟨rfl, fun region _ _ hsplit _ hregion _ => ⟨region, hsplit, hregion⟩⟩

theorem LeavesOthers.trans {next last : List UtteranceBlock} (h : LeavesOthers s blocks next)
    (h' : LeavesOthers s next last) : LeavesOthers s blocks last := by
  refine ⟨h'.others.trans h.others, ?_⟩
  intro region m rest hsplit hm hregion hrest
  obtain ⟨region', hsplit', hregion'⟩ := h.behind region m rest hsplit hm hregion hrest
  exact h'.behind region' m rest hsplit' hm hregion' hrest

/-- Blocks of the session change in place. -/
theorem leavesOthers_map {f : UtteranceBlock → UtteranceBlock} (howner : ∀ b ∈ blocks, (f b).owner = b.owner)
    (hsame : ∀ b ∈ blocks, b.owner ≠ captureOwner s → f b = b) : LeavesOthers s blocks (blocks.map f) := by
  constructor
  · rw [List.filter_map]
    have hfilter : blocks.filter ((fun b => decide (b.owner ≠ captureOwner s)) ∘ f) =
        blocks.filter (·.owner ≠ captureOwner s) := by
      apply List.filter_congr
      intro b hb
      rw [Function.comp_apply, howner b hb]
    rw [hfilter]
    refine (List.map_congr_left fun b hb => ?_).trans (List.map_id _)
    exact hsame b (List.mem_of_mem_filter hb) (of_decide_eq_true (List.mem_filter.mp hb).2)
  · intro region m rest hsplit _ hregion hrest
    have hback : (m :: rest).map f = m :: rest := by
      refine (List.map_congr_left fun b hb => ?_).trans (List.map_id _)
      exact hsame b (hsplit ▸ List.mem_append_right _ hb) (hrest b hb)
    refine ⟨region.map f, ?_, ?_⟩
    · rw [hsplit, List.map_append, hback]
    · obtain ⟨b, hb, hb'⟩ := hregion
      exact ⟨f b, List.mem_map_of_mem hb, (howner b (hsplit ▸ List.mem_append_left _ hb)).trans hb'⟩

/-- A new block of the session at its place. -/
theorem leavesOthers_insert {before after : List UtteranceBlock} {w : UtteranceBlock}
    {behind : UtteranceBlock → Bool} (hsplit : blocks = before ++ after) (howner : w.owner = captureOwner s)
    (hplace : Placement (captureOwner s) behind before after) : LeavesOthers s blocks (before ++ w :: after) := by
  constructor
  · rw [hsplit, List.filter_append, List.filter_append, List.filter_cons_of_neg (by simp [howner])]
  · intro region m rest hregion hm hin hrest
    rw [hregion] at hsplit
    have hafter : ∃ trailing, after = trailing ++ m :: rest := by
      cases hplace with
      | atEnd hnone hafter hregion => exact hregion region m rest hsplit.symm hm hin hrest
      | inside c others hafter hcowner hbehind hbefore =>
        subst hafter
        cases List.append_eq_append_iff.mp hsplit with
        | inl hlate =>
          obtain ⟨middle, -, hmiddle⟩ := hlate
          have hc : c ∈ m :: rest := hmiddle ▸ List.mem_append_right _ List.mem_cons_self
          exact absurd hcowner (hrest c hc)
        | inr hearly =>
          obtain ⟨middle, -, hmiddle⟩ := hearly
          exact ⟨middle, hmiddle⟩
    obtain ⟨trailing, rfl⟩ := hafter
    refine ⟨before ++ w :: trailing, by simp, w, ?_, howner⟩
    exact List.mem_append_right _ List.mem_cons_self

/-- A placement in the session keeps the order of the sequence numbers. -/
theorem Placement.ordered (h : BlocksOk sessionOf sequenceOf free facts blocks) (hfree : free s)
    (hs : SnapshotOk sessionOf sequenceOf s (facts s)) {u : RealtimeUtterance} (hu : u ∈ facts s)
    (hfresh : ∀ b ∈ blocks, b.id ≠ u.id) {before after : List UtteranceBlock} (hsplit : blocks = before ++ after)
    (hplace : Placement (captureOwner s)
      (standsBehind (captureOwner s) (sequenceById (facts s)) u.sequence) before after) :
    (∀ b ∈ before, b.owner = captureOwner s → sequenceOf b.id < sequenceOf u.id) ∧
      ∀ b ∈ after, b.owner = captureOwner s → sequenceOf u.id < sequenceOf b.id := by
  have hsequence := (hs.fixed u hu).2
  have hlow : ∀ b ∈ blocks, standsBehind (captureOwner s) (sequenceById (facts s)) u.sequence b = false →
      b.owner = captureOwner s → sequenceOf b.id < sequenceOf u.id := by
    intro b hb hnot howner
    have hle : ¬ u.sequence < sequenceOf b.id := by
      intro hlt
      rw [(h.standsBehind_iff hfree hs hb u.sequence).mpr ⟨howner, hlt⟩] at hnot
      cases hnot
    have hne : sequenceOf b.id ≠ sequenceOf u.id := by
      intro heq
      obtain ⟨v, hv, hid, -⟩ := h.covered b hb s (h.captured b hb s hfree howner)
      have hsame : v.sequence = u.sequence := by
        rw [(hs.fixed v hv).2, hid, heq, ← hsequence]
      have hsequences : ((facts s).map (·.sequence)).Nodup := by
        rw [List.Nodup, List.pairwise_map]
        exact hs.ordered.imp fun hlt => hlt.ne
      obtain rfl := List.inj_on_of_nodup_map hsequences hv hu hsame
      exact hfresh b hb hid.symm
    omega
  cases hplace with
  | atEnd hnone hafter hregion =>
    refine ⟨?_, fun b hb howner => absurd howner (hafter b hb)⟩
    intro b hb howner
    have hb' : b ∈ before ++ after := List.mem_append_left _ hb
    exact hlow b (hsplit ▸ hb') (hnone b hb') howner
  | inside c rest hafter hcowner hbehind hbefore =>
    subst hafter
    refine ⟨fun b hb howner => hlow b (hsplit ▸ List.mem_append_left _ hb) (hbefore b hb) howner, ?_⟩
    have hc : c ∈ blocks := hsplit ▸ List.mem_append_right _ List.mem_cons_self
    have hclt := ((h.standsBehind_iff hfree hs hc u.sequence).mp hbehind).2
    have hordered := h.ordered s hfree
    rw [hsplit, List.filter_append, List.pairwise_append, List.filter_cons_of_pos (by simp [hcowner]),
      List.pairwise_cons] at hordered
    intro b hb howner
    cases List.mem_cons.mp hb with
    | inl heq =>
      subst heq
      omega
    | inr hb =>
      have := hordered.2.1.1 b (List.mem_filter.mpr ⟨hb, decide_eq_true howner⟩)
      omega

/-- **One upsert.** It leaves the block of its utterance, and the other blocks alone. -/
theorem upsert_keeps (h : BlocksOk sessionOf sequenceOf free facts blocks) (hfree : free s)
    (hs : SnapshotOk sessionOf sequenceOf s (facts s)) {u : RealtimeUtterance} (hu : u ∈ facts s)
    {write : MachineBlockWrite} (hwrite : machineBlockWrite u = some write) {next : List UtteranceBlock}
    (hstep : Model.step blocks (.machineUpsert write (frozenLanes u)
      (insertAnchor blocks s (sequenceById (facts s)) u.sequence)) = .ok next) :
    BlocksOk sessionOf sequenceOf free facts next ∧ LeavesOthers s blocks next ∧ write ∈ next ∧
      ∀ b ∈ blocks, b.id ≠ u.id → b ∈ next := by
  have hid : write.id = u.id := by rw [machineBlockWrite_eq hwrite]
  have howner : write.owner = captureOwner s := by
    rw [machineBlockWrite_eq hwrite, hs.session u hu]
  have hcovers := covers_write (hs.lanes u hu) (hs.edits u hu) hwrite
  have hsession : sessionOf write.id = some s := by rw [hid, (hs.fixed u hu).1]
  rw [Model.step] at hstep
  split at hstep
  · cases hstep
  · split at hstep
    · cases hstep
    · split at hstep
      · next hexists =>
        rw [Model.editBlock, if_pos hexists] at hstep
        obtain rfl := Except.ok.inj hstep
        have hwritten : ∀ b ∈ blocks, b.id = write.id →
            b.owner = write.owner ∧ Model.machineWrite write (frozenLanes u) b = write := by
          intro b hb hbid
          have hbsession : sessionOf b.id = some s := hbid ▸ hsession
          have hbowner := (h.owned b hb s hbsession).trans howner.symm
          obtain ⟨v, hv, hvid, hvcovers⟩ := h.covered b hb s hbsession
          obtain rfl := hs.eq_of_id hv hu (hvid.trans (hbid.trans hid))
          exact ⟨hbowner, machineWrite_covered (hs.lanes v hv) (hs.edits v hv) hvcovers hwrite hbid hbowner⟩
        have hf : ∀ b ∈ blocks,
            (if b.id = write.id then Model.machineWrite write (frozenLanes u) b else b) =
              if b.id = write.id then write else b := by
          intro b hb
          by_cases hbid : b.id = write.id
          · rw [if_pos hbid, if_pos hbid, (hwritten b hb hbid).2]
          · rw [if_neg hbid, if_neg hbid]
        rw [List.map_congr_left hf]
        refine ⟨h.map ?_ ?_ ?_, leavesOthers_map ?_ ?_, ?_, ?_⟩
        · intro b hb
          by_cases hbid : b.id = write.id
          · rw [if_pos hbid, hbid]
          · rw [if_neg hbid]
        · intro b hb
          by_cases hbid : b.id = write.id
          · rw [if_pos hbid, (hwritten b hb hbid).1]
          · rw [if_neg hbid]
        · intro b hb t hbsession
          by_cases hbid : b.id = write.id
          · rw [hbid, hsession] at hbsession
            obtain rfl := Option.some.inj hbsession
            rw [if_pos hbid, hbid]
            exact ⟨u, hu, hid.symm, hcovers⟩
          · rw [if_neg hbid]
            exact h.covered b hb t hbsession
        · intro b hb
          by_cases hbid : b.id = write.id
          · rw [if_pos hbid, (hwritten b hb hbid).1]
          · rw [if_neg hbid]
        · intro b hb hother
          refine if_neg fun hbid => hother ?_
          exact (hwritten b hb hbid).1.trans howner
        · obtain ⟨b, hb, hbid⟩ := hexists
          exact List.mem_map.mpr ⟨b, hb, if_pos hbid⟩
        · intro b hb hbid
          exact List.mem_map.mpr ⟨b, hb, if_neg fun heq => hbid (heq.trans hid)⟩
      · next hnew =>
        have hfresh : ∀ b ∈ blocks, b.id ≠ write.id := fun b hb heq => hnew ⟨b, hb, heq⟩
        obtain ⟨before, after, hsplit, hinsert, hplace⟩ :=
          exists_placement h.ids s (sequenceById (facts s)) u.sequence write
        obtain rfl := Except.ok.inj (hinsert.symm.trans hstep)
        have hordered := hplace.ordered h hfree hs hu (hid ▸ hfresh) hsplit
        refine ⟨h.insert hsplit hfresh ?_ ?_, leavesOthers_insert hsplit howner hplace,
          List.mem_append_right _ List.mem_cons_self, ?_⟩
        · intro t ht
          obtain rfl := Option.some.inj (hsession.symm.trans ht)
          exact ⟨howner, u, hu, hid.symm, hcovers⟩
        · intro t _ htowner
          obtain rfl := captureOwner_inj (howner.symm.trans htowner)
          rw [hid]
          exact ⟨(hs.fixed u hu).1, hordered⟩
        · intro b hb _
          rw [hsplit] at hb
          cases List.mem_append.mp hb with
          | inl hb => exact List.mem_append_left _ hb
          | inr hb => exact List.mem_append_right _ (List.mem_cons_of_mem _ hb)

/-! ## One projection -/

/-- The utterances in order, also when the projection stops at one of them. -/
theorem upsertUtterances_keeps (h : BlocksOk sessionOf sequenceOf free facts blocks) (hfree : free s)
    (hs : SnapshotOk sessionOf sequenceOf s (facts s)) {utterances : List RealtimeUtterance}
    (hsub : List.Sublist utterances (facts s)) :
    BlocksOk sessionOf sequenceOf free facts (upsertUtterances s (sequenceById (facts s)) utterances blocks).2 ∧
      LeavesOthers s blocks (upsertUtterances s (sequenceById (facts s)) utterances blocks).2 ∧
      (∀ b ∈ blocks, (∀ u ∈ utterances, b.id ≠ u.id) →
        b ∈ (upsertUtterances s (sequenceById (facts s)) utterances blocks).2) ∧
      ((upsertUtterances s (sequenceById (facts s)) utterances blocks).1 = .ok () →
        ∀ u ∈ utterances, ∀ write, machineBlockWrite u = some write →
          write ∈ (upsertUtterances s (sequenceById (facts s)) utterances blocks).2) := by
  induction utterances generalizing blocks with
  | nil =>
    exact ⟨h, .refl s blocks, fun b hb _ => hb, fun _ u hu => absurd hu List.not_mem_nil⟩
  | cons u rest ih =>
    have hu : u ∈ facts s := hsub.subset List.mem_cons_self
    have hrest : List.Sublist rest (facts s) := (List.sublist_cons_self u rest).trans hsub
    have hne : ∀ v ∈ rest, u.id ≠ v.id := by
      intro v hv hid
      have hlt := (List.pairwise_cons.mp (hs.ordered.sublist hsub)).1 v hv
      rw [hs.eq_of_id hu (hrest.subset hv) hid] at hlt
      exact absurd hlt (lt_irrefl _)
    rw [upsertUtterances]
    cases hwrite : machineBlockWrite u with
    | none =>
      obtain ⟨hok, hleaves, hkeeps, hwrites⟩ := ih h hrest
      refine ⟨hok, hleaves, fun b hb hids => hkeeps b hb fun v hv => hids v (List.mem_cons_of_mem _ hv), ?_⟩
      intro hdone v hv write hvwrite
      cases List.mem_cons.mp hv with
      | inl heq =>
        rw [heq, hwrite] at hvwrite
        cases hvwrite
      | inr hv => exact hwrites hdone v hv write hvwrite
    | some write =>
      dsimp only
      cases hstep : Model.step blocks (.machineUpsert write (frozenLanes u)
          (insertAnchor blocks s (sequenceById (facts s)) u.sequence)) with
      | error error =>
        refine ⟨h, .refl s blocks, fun b hb _ => hb, ?_⟩
        intro hdone
        cases hdone
      | ok next =>
        obtain ⟨hnext, hleaves, hmem, hkept⟩ := upsert_keeps h hfree hs hu hwrite hstep
        obtain ⟨hok, hleaves', hkeeps, hwrites⟩ := ih hnext hrest
        refine ⟨hok, hleaves.trans hleaves', ?_, ?_⟩
        · intro b hb hids
          exact hkeeps b (hkept b hb (hids u List.mem_cons_self)) fun v hv => hids v (List.mem_cons_of_mem _ hv)
        · intro hdone v hv write' hvwrite
          cases List.mem_cons.mp hv with
          | inl heq =>
            rw [heq, hwrite] at hvwrite
            obtain rfl := Option.some.inj hvwrite
            refine hkeeps write hmem fun v' hv' => ?_
            rw [machineBlockWrite_eq hwrite]
            exact hne v' hv'
          | inr hv => exact hwrites hdone v hv write' hvwrite

/-- What the document checks of a write. -/
def WriteValid (write : MachineBlockWrite) : Prop :=
  write.id.isEmpty = false ∧ validateLanes write.lanes.keys = .ok ()

/-- A write is only refused for what the document checks of it. -/
theorem upsert_isOk_iff (h : BlocksOk sessionOf sequenceOf free facts blocks) (write : MachineBlockWrite)
    (frozen : Finset String) (sequences : String → Option Nat) (sequence : Nat) :
    (∃ next, Model.step blocks (.machineUpsert write frozen (insertAnchor blocks s sequences sequence)) = .ok next) ↔
      WriteValid write := by
  rw [Model.step]
  cases hempty : write.id.isEmpty with
  | true => simp [WriteValid, hempty]
  | false =>
    cases hvalid : validateLanes write.lanes.keys with
    | error error => simp [WriteValid, hempty, hvalid]
    | ok _ =>
      simp only [WriteValid, hempty, hvalid, Bool.false_eq_true, if_false, and_self, iff_true]
      split
      · next hexists =>
        rw [Model.editBlock, if_pos hexists]
        exact ⟨_, rfl⟩
      · obtain ⟨before, after, -, hinsert, -⟩ := exists_placement h.ids s sequences sequence write
        exact ⟨_, hinsert⟩

theorem upsertUtterances_isOk_iff (h : BlocksOk sessionOf sequenceOf free facts blocks) (hfree : free s)
    (hs : SnapshotOk sessionOf sequenceOf s (facts s)) {utterances : List RealtimeUtterance}
    (hsub : List.Sublist utterances (facts s)) :
    (upsertUtterances s (sequenceById (facts s)) utterances blocks).1 = .ok () ↔
      ∀ u ∈ utterances, ∀ write, machineBlockWrite u = some write → WriteValid write := by
  induction utterances generalizing blocks with
  | nil => exact ⟨fun _ u hu => absurd hu List.not_mem_nil, fun _ => rfl⟩
  | cons u rest ih =>
    have hu : u ∈ facts s := hsub.subset List.mem_cons_self
    have hrest : List.Sublist rest (facts s) := (List.sublist_cons_self u rest).trans hsub
    rw [upsertUtterances, List.forall_mem_cons]
    cases hwrite : machineBlockWrite u with
    | none =>
      rw [ih h hrest]
      constructor
      · intro hrest
        exact ⟨fun write heq => absurd heq (by simp), hrest⟩
      · exact fun hall => hall.2
    | some write =>
      have hone := upsert_isOk_iff (s := s) h write (frozenLanes u) (sequenceById (facts s)) u.sequence
      dsimp only
      cases hstep : Model.step blocks (.machineUpsert write (frozenLanes u)
          (insertAnchor blocks s (sequenceById (facts s)) u.sequence)) with
      | error error =>
        rw [hstep] at hone
        constructor
        · intro hdone
          cases hdone
        · intro hall
          obtain ⟨next, hnext⟩ := hone.mpr (hall.1 write rfl)
          cases hnext
      | ok next =>
        rw [hstep] at hone
        have hvalid := hone.mp ⟨next, rfl⟩
        rw [ih (upsert_keeps h hfree hs hu hwrite hstep).1 hrest]
        constructor
        · intro hrest
          refine ⟨fun write' heq => ?_, hrest⟩
          obtain rfl := Option.some.inj heq
          exact hvalid
        · exact fun hall => hall.2

/-- Utterances whose blocks are there already change nothing. -/
theorem upsertUtterances_fixed (h : BlocksOk sessionOf sequenceOf free facts blocks)
    (hs : SnapshotOk sessionOf sequenceOf s (facts s)) (sequences : String → Option Nat)
    {utterances : List RealtimeUtterance} (hsub : ∀ u ∈ utterances, u ∈ facts s)
    (hwrites : ∀ u ∈ utterances, ∀ write, machineBlockWrite u = some write → WriteValid write ∧ write ∈ blocks) :
    upsertUtterances s sequences utterances blocks = (.ok (), blocks) := by
  induction utterances with
  | nil => rfl
  | cons u rest ih =>
    have ih := ih (fun v hv => hsub v (List.mem_cons_of_mem _ hv))
      fun v hv => hwrites v (List.mem_cons_of_mem _ hv)
    rw [upsertUtterances]
    cases hwrite : machineBlockWrite u with
    | none => exact ih
    | some write =>
      obtain ⟨⟨hempty, hvalid⟩, hmem⟩ := hwrites u List.mem_cons_self write hwrite
      have hu := hsub u List.mem_cons_self
      have hcovers := covers_write (hs.lanes u hu) (hs.edits u hu) hwrite
      have hexists : ∃ b ∈ blocks, b.id = write.id := ⟨write, hmem, rfl⟩
      have hsame : ∀ b ∈ blocks,
          (if b.id = write.id then Model.machineWrite write (frozenLanes u) b else b) = b := by
        intro b hb
        split
        · next hid =>
          obtain rfl := h.eq_of_id hb hmem hid
          exact machineWrite_covered (hs.lanes u hu) (hs.edits u hu) hcovers hwrite rfl rfl
        · rfl
      have hstep : ∀ anchor, Model.step blocks (.machineUpsert write (frozenLanes u) anchor) = .ok blocks := by
        intro anchor
        rw [Model.step, if_neg (by rw [hempty]; exact Bool.false_ne_true), hvalid]
        dsimp only
        rw [if_pos hexists, Model.editBlock, if_pos hexists, List.map_congr_left hsame, List.map_id']
      dsimp only
      rw [hstep]
      exact ih

/-- The blocks that the utterances of a snapshot come to. -/
def sessionBlocks (utterances : List RealtimeUtterance) : List UtteranceBlock :=
  utterances.filterMap machineBlockWrite

theorem sessionBlocks_ordered (hs : SnapshotOk sessionOf sequenceOf s (facts s)) :
    (sessionBlocks (facts s)).Pairwise fun b c => sequenceOf b.id < sequenceOf c.id := by
  refine (List.Pairwise.and_mem.mp hs.ordered).filterMap machineBlockWrite ?_
  intro u v ⟨hu, hv, hlt⟩ b hb c hc
  rw [machineBlockWrite_eq hb, machineBlockWrite_eq hc]
  rw [(hs.fixed u hu).2, (hs.fixed v hv).2] at hlt
  exact hlt

/-- Two lists in the strict order of one number, with the same members. -/
theorem eq_of_ordered {bs cs : List UtteranceBlock}
    (hbs : bs.Pairwise fun b c => sequenceOf b.id < sequenceOf c.id)
    (hcs : cs.Pairwise fun b c => sequenceOf b.id < sequenceOf c.id) (hmem : ∀ b, b ∈ bs ↔ b ∈ cs) : bs = cs := by
  have hnodup : ∀ {ds : List UtteranceBlock},
      ds.Pairwise (fun b c => sequenceOf b.id < sequenceOf c.id) → ds.Nodup := by
    intro ds hds
    refine hds.imp fun hlt heq => ?_
    rw [heq] at hlt
    exact absurd hlt (lt_irrefl _)
  have hperm : bs.Perm cs := (List.perm_ext_iff_of_nodup (hnodup hbs) (hnodup hcs)).mpr hmem
  refine hperm.eq_of_pairwise ?_ hbs hcs
  intro b c _ _ hlt hgt
  omega

/-- **One projection.** The blocks of the session are those of its snapshot, and a second
projection changes nothing. -/
theorem upsertFinalizedUtterances_spec (h : BlocksOk sessionOf sequenceOf free facts blocks) (hfree : free s)
    (hs : SnapshotOk sessionOf sequenceOf s (facts s)) {next : List UtteranceBlock}
    (hdone : upsertFinalizedUtterances blocks s (facts s) = (.ok (), next)) :
    next.filter (·.owner = captureOwner s) = sessionBlocks (facts s) ∧
      upsertFinalizedUtterances next s (facts s) = (.ok (), next) := by
  rw [upsertFinalizedUtterances] at hdone
  obtain ⟨hnext, -, -, hwrites⟩ := upsertUtterances_keeps h hfree hs (List.Sublist.refl (facts s))
  have hvalid := upsertUtterances_isOk_iff h hfree hs (List.Sublist.refl (facts s))
  rw [hdone] at hnext hwrites hvalid
  have hwrites := hwrites rfl
  have hvalid := hvalid.mp rfl
  constructor
  · refine eq_of_ordered (hnext.ordered s hfree) (sessionBlocks_ordered hs) fun b => ?_
    rw [List.mem_filter, decide_eq_true_eq, sessionBlocks, List.mem_filterMap]
    constructor
    · intro ⟨hb, howner⟩
      obtain ⟨u, hu, hid, hcovers⟩ := hnext.covered b hb s (hnext.captured b hb s hfree howner)
      obtain ⟨write, hwrite⟩ := Option.isSome_iff_exists.mp hcovers.projectable
      have hwid : write.id = u.id := by rw [machineBlockWrite_eq hwrite]
      have hsame := hnext.eq_of_id (hwrites u hu write hwrite) hb (hwid.trans hid)
      exact ⟨u, hu, hsame ▸ hwrite⟩
    · intro ⟨u, hu, hwrite⟩
      refine ⟨hwrites u hu b hwrite, ?_⟩
      rw [machineBlockWrite_eq hwrite, hs.session u hu]
  · rw [upsertFinalizedUtterances]
    exact upsertUtterances_fixed hnext hs _ (fun u hu => hu)
      fun u hu write hwrite => ⟨hvalid u hu write hwrite, hwrites u hu write hwrite⟩

end

end Zulangue.Transcript
