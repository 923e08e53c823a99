import Mathlib.Data.List.Sort
import Zulangue.Replay.Equivalence

/-!
# What the migrated document says

The owners, the histories that are linear, and the migration as a whole.
-/

namespace Zulangue.Replay

open Zulangue.Lib.Fallible

/-! ## Owners -/

/-- The owner at the end of some lines: the session of the last header among them. -/
def nearestOwner (lines : List Line) : Option String :=
  (lines.filterMap fun line => sessionHeader line.text).getLast?.map ("capture:" ++ ·)

theorem nearestOwner_append (lines : List Line) (line : Line) :
    nearestOwner (lines ++ [line]) = ownerAfter (nearestOwner lines) line := by
  rw [nearestOwner, nearestOwner, ownerAfter, List.filterMap_append, List.filterMap_cons, List.filterMap_nil]
  cases sessionHeader line.text with
  | none => rw [List.append_nil]
  | some sessionId =>
    rw [List.getLast?_append]
    rfl

/-- Another owner, and the same block. -/
def SameButOwner (block old : BlockMap) : Prop := block = { old with owner := block.owner }

theorem stampOwners_ok {seen rest : List Line} {doc : BlockDocument} {stamped pending : List BlockMap}
    (hblocks : doc.utterances = stamped ++ pending) (hlength : pending.length = rest.length) :
    ∃ blocks, stampOwners (nearestOwner seen) rest stamped.length doc =
        .ok { doc with utterances := stamped ++ blocks } ∧ List.Forall₂ SameButOwner blocks pending ∧
      ∀ i block, blocks[i]? = some block → block.owner = (nearestOwner (seen ++ rest.take (i + 1))).getD "user" := by
  induction rest generalizing seen doc stamped pending with
  | nil =>
    obtain rfl := List.length_eq_zero_iff.mp hlength
    refine ⟨[], ?_, .nil, fun i block hblock => ?_⟩
    · rw [← hblocks]
      rfl
    · rw [List.getElem?_nil] at hblock
      cases hblock
  | cons line rest ih =>
    cases pending with
    | nil => cases hlength
    | cons block pending =>
      have hat : doc.utterances[stamped.length]? = some block := by
        rw [hblocks, List.getElem?_append_right (Nat.le_refl _), Nat.sub_self]
        rfl
      let owned : BlockMap := { block with owner := (nearestOwner (seen ++ [line])).getD "user" }
      have hset : doc.utterances.set stamped.length owned = (stamped ++ [owned]) ++ pending := by
        rw [hblocks, List.set_append_right _ _ (Nat.le_refl _), Nat.sub_self, List.append_assoc]
        rfl
      obtain ⟨blocks, hrun, hsame, howners⟩ := @ih (seen ++ [line])
        { doc with utterances := (stamped ++ [owned]) ++ pending } (stamped ++ [owned]) pending rfl (Nat.succ.inj hlength)
      refine ⟨owned :: blocks, ?_, .cons rfl hsame, ?_⟩
      · rw [stampOwners, ← nearestOwner_append, hat]
        change stampOwners _ rest (stamped.length + 1) { doc with utterances := doc.utterances.set stamped.length owned } = _
        rw [List.length_append] at hrun
        rw [hset]
        refine hrun.trans ?_
        rw [List.append_assoc]
        rfl
      · intro i other hother
        cases i with
        | zero =>
          obtain rfl := Option.some.inj hother
          rfl
        | succ i =>
          have := howners i other hother
          rwa [List.append_assoc] at this

/-! ## Linear histories -/

/-- Each change depends on the one before it and nothing else. -/
def Linked : Option ID → List ChangeMeta → Prop
  | _, [] => True
  | expected, c :: rest => c.deps = expected.toList ∧ Linked (some c.last) rest

/-- In this order, the changes are a linear history. -/
structure LinearOrder (legacy : LegacyHistory) (chain : List ChangeMeta) : Prop where
  perm : chain.Perm legacy.changes
  linked : Linked none chain

/-- A change has a later lamport than those it depends on. -/
def LamportOk (legacy : LegacyHistory) : Prop :=
  ∀ c ∈ legacy.changes, ∀ d ∈ legacy.changes, d.last ∈ c.deps → d.lamport < c.lamport

theorem checkLinear_eq_ok {expected : Option ID} {chain : List ChangeMeta} :
    checkLinear expected (chain.map historyStep) = .ok () ↔ Linked expected chain := by
  induction chain generalizing expected with
  | nil => exact ⟨fun _ => trivial, fun _ => rfl⟩
  | cons c rest ih =>
    rw [List.map_cons, checkLinear, Linked]
    by_cases hdeps : c.deps = expected.toList
    · rw [if_pos (show (historyStep c).deps = expected.toList from hdeps)]
      rw [and_iff_right hdeps]
      exact ih
    · rw [if_neg (show ¬ (historyStep c).deps = expected.toList from hdeps)]
      constructor
      · intro h
        cases h
      · intro h
        exact absurd h.1 hdeps

theorem stepBefore_trans (a b c : ChangeMeta) (hab : stepBefore a b) (hbc : stepBefore b c) : stepBefore a c := by
  simp only [stepBefore, Bool.or_eq_true, Bool.and_eq_true, decide_eq_true_eq] at *
  omega

theorem stepBefore_total (a b : ChangeMeta) : (stepBefore a b || stepBefore b a) = true := by
  simp only [stepBefore, Bool.or_eq_true, Bool.and_eq_true, decide_eq_true_eq]
  omega

/-- A linear history goes up in lamport. -/
theorem Linked.increasing {legacy : LegacyHistory} {chain : List ChangeMeta} (hlamport : LamportOk legacy)
    (hsub : chain ⊆ legacy.changes) {expected : Option ID} (h : Linked expected chain) : chain.IsChain (·.lamport < ·.lamport) := by
  induction chain generalizing expected with
  | nil => exact .nil
  | cons c rest ih =>
    have hrest := ih (fun x hx => hsub (List.mem_cons_of_mem _ hx)) h.2
    cases rest with
    | nil => exact .singleton c
    | cons d rest =>
      refine .cons_cons ?_ hrest
      refine hlamport d (hsub (List.mem_cons_of_mem _ List.mem_cons_self)) c (hsub List.mem_cons_self) ?_
      rw [h.2.1]
      exact List.mem_singleton.mpr rfl

/-- The order of a linear history is the sorted one. -/
theorem LinearOrder.sorted {legacy : LegacyHistory} {chain : List ChangeMeta} (h : LinearOrder legacy chain)
    (hlamport : LamportOk legacy) : legacy.changes.mergeSort stepBefore = chain := by
  have hchain := (h.linked.increasing hlamport h.perm.subset)
  have hpairs : chain.Pairwise (·.lamport < ·.lamport) := by
    have : IsTrans ChangeMeta (·.lamport < ·.lamport) := ⟨fun _ _ _ => Nat.lt_trans⟩
    exact List.isChain_iff_pairwise.mp hchain
  have hsorted := List.pairwise_mergeSort stepBefore_trans stepBefore_total legacy.changes
  have hperm : (legacy.changes.mergeSort stepBefore).Perm chain :=
    (List.mergeSort_perm _ _).trans h.perm.symm
  refine List.Perm.eq_of_pairwise ?_ hsorted ?_ hperm
  · intro c d hc hd hcd hdc
    have hdistinct : (chain.map (·.lamport)).Nodup := List.pairwise_map.mpr (hpairs.imp Nat.ne_of_lt)
    refine List.inj_on_of_nodup_map hdistinct (hperm.subset hc) hd ?_
    simp only [stepBefore, Bool.or_eq_true, Bool.and_eq_true, decide_eq_true_eq] at hcd hdc
    omega
  · refine hpairs.imp fun hlt => ?_
    simp only [stepBefore, Bool.or_eq_true, decide_eq_true_eq]
    exact .inl hlt

theorem collectLinearHistory_eq_ok {legacy : LegacyHistory} {steps : List HistoryStep}
    (h : collectLinearHistory legacy = .ok steps) :
    ∃ chain, LinearOrder legacy chain ∧ steps = chain.map historyStep := by
  obtain ⟨_, hcheck, hsteps⟩ := bind_eq_ok.mp h
  obtain rfl := Except.ok.inj hsteps
  exact ⟨_, ⟨List.mergeSort_perm _ _, checkLinear_eq_ok.mp hcheck⟩, rfl⟩

theorem LinearOrder.collect {legacy : LegacyHistory} {chain : List ChangeMeta} (h : LinearOrder legacy chain)
    (hlamport : LamportOk legacy) : collectLinearHistory legacy = .ok (chain.map historyStep) := by
  rw [collectLinearHistory, h.sorted hlamport]
  exact bind_eq_ok.mpr ⟨(), checkLinear_eq_ok.mpr h.linked, rfl⟩

/-! ## The migration -/

section
variable {uuid : Nat → String} {legacy : LegacyHistory}

theorem replaySteps_append (s : ReplayState) (index : Nat) (first second : List HistoryStep) :
    replaySteps uuid legacy s index (first ++ second) =
      (replaySteps uuid legacy s index first >>= fun s => replaySteps uuid legacy s (index + first.length) second) := by
  induction first generalizing s index with
  | nil => rfl
  | cons step rest ih =>
    rw [List.cons_append, replaySteps, replaySteps]
    cases replayStep uuid legacy s index step with
    | error err => rfl
    | ok s₁ =>
      refine (ih s₁ (index + 1)).trans ?_
      rw [List.length_cons, Nat.add_right_comm, Nat.add_assoc]
      rfl

/-- A linear history is replayed step by step, and each step shows its text. -/
theorem replay_shows (hinj : Function.Injective uuid) (before : List HistoryStep) (step : HistoryStep) :
    ∃ s s', replaySteps uuid legacy .start 0 before = .ok s ∧ replayStep uuid legacy s before.length step = .ok s' ∧
      replaySteps uuid legacy .start 0 (before ++ [step]) = .ok s' ∧
      StepShown (legacy.textAt step.last) s.doc s'.doc := by
  obtain ⟨s, hbefore, hs⟩ := @replaySteps_ok uuid legacy hinj _ (StateOk.start uuid) 0 before
  obtain ⟨s', hstep, -, hshown⟩ := @replayStep_ok uuid legacy hinj s hs before.length step
  refine ⟨s, s', hbefore, hstep, ?_, hshown⟩
  rw [replaySteps_append, hbefore, Nat.zero_add]
  change (replayStep uuid legacy s before.length step >>= fun s => _) = _
  rw [hstep]
  rfl

/-- What the migrated document says: the last text, with the owners and the receipts. -/
structure Migrated (legacy : LegacyHistory) (chain : List ChangeMeta) (last doc : BlockDocument) : Prop where
  lines : doc.lines = last.lines
  rendered : render doc = chain.getLast?.elim "" fun c => legacy.textAt c.last
  texts : doc.lines.map (·.text) = chain.getLast?.elim [] fun c => splitLines (legacy.textAt c.last)
  distinct : (doc.lines.map (·.id)).Nodup
  owners : ∀ i block, doc.utterances[i]? = some block →
    block.owner = (nearestOwner (doc.lines.take (i + 1))).getD "user"
  lanes : ∀ block ∈ doc.utterances, block.lanes = []
  receipts : ∀ key flag, (key, flag) ∈ doc.receipts ↔ (key, .bool flag) ∈ legacy.receipts

theorem mem_copyReceipts (doc : BlockDocument) (key : String) (flag : Bool) :
    (key, flag) ∈ (copyReceipts legacy doc).receipts ↔ (key, .bool flag) ∈ legacy.receipts := by
  rw [copyReceipts]
  dsimp only
  rw [List.mem_filterMap]
  constructor
  · rintro ⟨⟨key', value⟩, hentry, heq⟩
    cases value with
    | bool flag' =>
      cases heq
      exact hentry
    | other => cases heq
  · intro hentry
    exact ⟨(key, .bool flag), hentry, rfl⟩

theorem lines_of_same {contents : Nat → String} {blocks olds : List BlockMap}
    (h : List.Forall₂ SameButOwner blocks olds) :
    blocks.map (fun block => ({ id := block.id, text := contents block.text } : Line)) =
      olds.map fun block => { id := block.id, text := contents block.text } := by
  induction h with
  | nil => rfl
  | cons hblock _ ih =>
    rw [List.map_cons, List.map_cons, ih, hblock]

theorem lanes_of_shows {contents : Nat → String} {writer : BlockWriter} {blocks olds : List BlockMap}
    {lines : List Line} (h : List.Forall₂ SameButOwner blocks olds)
    (hshows : List.Forall₂ (BlockShows contents writer) olds lines) : ∀ block ∈ blocks, block.lanes = [] := by
  induction h generalizing lines with
  | nil =>
    intro block hblock
    cases hblock
  | cons hsame _ ih =>
    cases hshows with
    | cons hblock hrest =>
      rw [List.forall_mem_cons]
      refine ⟨?_, ih hrest⟩
      rw [hsame]
      exact hblock.lanes

theorem migrate_linear (hinj : Function.Injective uuid) (hlamport : LamportOk legacy) (hshallow : legacy.shallow = false)
    {chain : List ChangeMeta} (hchain : LinearOrder legacy chain) :
    ∃ s doc, replaySteps uuid legacy .start 0 (chain.map historyStep) = .ok s ∧
      (migrateTranscriptHistory uuid legacy).1 = .ok doc ∧ Migrated legacy chain s.doc doc := by
  obtain ⟨s, hreplay, hs⟩ := @replaySteps_ok uuid legacy hinj _ (StateOk.start uuid) 0 (chain.map historyStep)
  obtain ⟨blocks, hstamp, hsame, howners⟩ :=
    @stampOwners_ok [] s.previousLines s.doc [] s.doc.utterances rfl hs.shows.length_eq
  have hlast := lines_of_shows hs.shows
  have hlines : ({ s.doc with utterances := blocks } : BlockDocument).lines = s.doc.lines := lines_of_same hsame
  -- The last step is the one that left the state.
  have hshown : s.doc.lines.map (·.text) = chain.getLast?.elim [] (fun c => splitLines (legacy.textAt c.last)) ∧
      render s.doc = chain.getLast?.elim "" fun c => legacy.textAt c.last := by
    induction chain using List.reverseRecOn with
    | nil =>
      obtain rfl := Except.ok.inj hreplay
      exact ⟨rfl, rfl⟩
    | append_singleton before c =>
      rw [List.getLast?_concat]
      rw [List.map_append] at hreplay
      obtain ⟨_, s', -, -, hboth, hstep⟩ := @replay_shows uuid legacy hinj (before.map historyStep) (historyStep c)
      obtain rfl := Except.ok.inj (hreplay.symm.trans hboth)
      exact ⟨hstep.texts, hstep.rendered⟩
  refine ⟨s, copyReceipts legacy { s.doc with utterances := blocks }, hreplay, ?_, ?_⟩
  · rw [migrateTranscriptHistory, hshallow, hchain.collect hlamport]
    change (replaySteps uuid legacy .start 0 (chain.map historyStep) >>= fun s => _) = _
    rw [hreplay]
    change (stampOwners none s.previousLines 0 s.doc >>= fun doc => _) = _
    rw [show stampOwners none s.previousLines 0 s.doc = _ from hstamp]
    rfl
  · constructor
    · exact hlines
    · rw [render_eq]
      exact (congrArg (fun lines => joinLines (lines.map (·.text))) hlines).trans ((render_eq s.doc).symm.trans hshown.2)
    · exact (congrArg (List.map (·.text)) hlines).trans hshown.1
    · have hdistinct := hs.lines.distinct
      rw [← hlast, ← hlines] at hdistinct
      exact hdistinct
    · intro i block hblock
      have howner := howners i block hblock
      rw [List.nil_append, ← hlast, ← hlines] at howner
      exact howner
    · exact lanes_of_shows hsame hs.shows
    · exact mem_copyReceipts _

theorem migrate_refuses (h : legacy.shallow = true ∨ ¬ ∃ chain, LinearOrder legacy chain) :
    ∃ err, (migrateTranscriptHistory uuid legacy).1 = .error err := by
  cases hrun : (migrateTranscriptHistory uuid legacy).1 with
  | error err => exact ⟨err, rfl⟩
  | ok doc =>
    obtain ⟨_, hfull, hrest⟩ := bind_eq_ok.mp hrun
    obtain ⟨steps, hcollect, -⟩ := bind_eq_ok.mp hrest
    rw [ensure_eq_ok, Bool.not_eq_true'] at hfull
    obtain ⟨chain, hchain, -⟩ := collectLinearHistory_eq_ok hcollect
    cases h with
    | inl hshallow => exact absurd (hfull.symm.trans hshallow) Bool.false_ne_true
    | inr hnone => exact absurd ⟨chain, hchain⟩ hnone

/-- A linear history is migrated, and after each recorded step the blocks show the legacy text;
the others are refused. The legacy document stays as it is. -/
theorem migration_preserves_text (hinj : Function.Injective uuid) (hlamport : LamportOk legacy) :
    (migrateTranscriptHistory uuid legacy).2 = legacy ∧
      (∀ chain, legacy.shallow = false → LinearOrder legacy chain →
        (∀ before c after, chain = before ++ c :: after → ∃ s s',
          replaySteps uuid legacy .start 0 (before.map historyStep) = .ok s ∧
          replayStep uuid legacy s before.length (historyStep c) = .ok s' ∧
          replaySteps uuid legacy .start 0 ((before ++ [c]).map historyStep) = .ok s' ∧
          StepShown (legacy.textAt c.last) s.doc s'.doc) ∧
        ∃ s doc, replaySteps uuid legacy .start 0 (chain.map historyStep) = .ok s ∧
          (migrateTranscriptHistory uuid legacy).1 = .ok doc ∧ Migrated legacy chain s.doc doc) ∧
      (legacy.shallow = true ∨ (¬ ∃ chain, LinearOrder legacy chain) →
        ∃ err, (migrateTranscriptHistory uuid legacy).1 = .error err) := by
  refine ⟨rfl, ?_, migrate_refuses⟩
  intro chain hshallow hchain
  refine ⟨?_, migrate_linear hinj hlamport hshallow hchain⟩
  intro before c after _
  have := @replay_shows uuid legacy hinj (before.map historyStep) (historyStep c)
  rwa [List.length_map, ← List.map_singleton, ← List.map_append] at this

end

/-- Two people write one after the other, and a receipt is left. -/
def sampleHistory : LegacyHistory where
  shallow := false
  changes := [
    { id := ⟨2, 0⟩, lamport := 4, timestamp := 2000, len := 2, deps := [⟨1, 3⟩] },
    { id := ⟨1, 0⟩, lamport := 0, timestamp := 1000, len := 4, deps := [] }]
  textAt id := if id = ⟨1, 3⟩ then "## a\nx\nx\n" else "\n## a\nx\ny"
  receipts := [("s", .bool true)]

theorem sampleHistory_linear : LinearOrder sampleHistory sampleHistory.changes.reverse :=
  ⟨List.reverse_perm _, rfl, rfl, trivial⟩

theorem migration_preserves_text_sample :
    ∃ s doc, replaySteps (fun k => String.ofList (List.replicate k 'a')) sampleHistory .start 0
        (sampleHistory.changes.reverse.map historyStep) = .ok s ∧
      (migrateTranscriptHistory (fun k => String.ofList (List.replicate k 'a')) sampleHistory).1 = .ok doc ∧
      Migrated sampleHistory sampleHistory.changes.reverse s.doc doc := by
  have hinj : Function.Injective fun k => String.ofList (List.replicate k 'a') := by
    intro i j h
    have h := congrArg List.length (String.ofList_injective h)
    rwa [List.length_replicate, List.length_replicate] at h
  have hlamport : LamportOk sampleHistory := by
    rw [LamportOk]
    decide
  exact ((migration_preserves_text hinj hlamport).2.1 _ rfl sampleHistory_linear).2

end Zulangue.Replay
