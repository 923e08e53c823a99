import Mathlib.Order.Nat
import Zulangue.Lib.Runs

/-!
# The publish watermark

`publish_shared_session` and `SharedDocSync::apply` of `vt-ffi/src/shared_session_docs.rs` on
one shared document. Both raise the published version, each in steps of its own between
which local commits and other calls may come.
-/

namespace Zulangue.Share

open Zulangue.Lib

/-- `loro::VersionVector`: of each peer the number of its operations. -/
abbrev VersionVector (Peer : Type) := Peer → Nat

/-- An update exported from one version up to another. -/
structure DocumentUpdate (Peer : Type) where
  since : VersionVector Peer
  upTo : VersionVector Peer

def DocumentUpdate.Contains {Peer : Type} (u : DocumentUpdate Peer) (p : Peer) (n : Nat) : Prop :=
  u.since p ≤ n ∧ n < u.upTo p

/-- How far a call of `SharedDocSync::apply` is. -/
inductive ApplyStage (Peer : Type) where
  | read (pre : VersionVector Peer)
  | imported (pre : VersionVector Peer)
  | readAgain (pre post : VersionVector Peer)

/-- A shared document, its watermark and the calls under way. `publishing` is the version read
by the publish call that holds the lock of the watermark, `handing` what publish calls have
exported and not handed over yet. `delivered` and `handed` record what came from the room and
what the runtime was given. -/
structure SharedDoc (Peer : Type) where
  oplog : VersionVector Peer
  published : VersionVector Peer
  publishing : Option (VersionVector Peer)
  handing : List (DocumentUpdate Peer)
  applying : Nat → Option (ApplyStage Peer)
  connected : Bool
  delivered : Peer → Nat → Prop
  handed : Peer → Nat → Prop

inductive WatermarkEvent where
  | edit
  | connect (connected : Bool)
  | publishRead
  | publishExport
  | handOver
  | applyRead (call : Nat)
  | applyRefused (call : Nat)
  | applyImport (call : Nat)
  | applyReadAgain (call : Nat)
  | applyMerge (call : Nat)
  deriving DecidableEq

namespace SharedDoc

variable {Peer : Type}

def setApplying (s : SharedDoc Peer) (i : Nat) (stage : Option (ApplyStage Peer)) : SharedDoc Peer :=
  { s with applying := Function.update s.applying i stage }

theorem setApplying_self (s : SharedDoc Peer) (i : Nat) (stage : Option (ApplyStage Peer)) :
    (s.setApplying i stage).applying i = stage :=
  Function.update_self (β := fun _ => Option (ApplyStage Peer)) i stage s.applying

theorem setApplying_of_ne (s : SharedDoc Peer) {i j : Nat} (h : j ≠ i) (stage : Option (ApplyStage Peer)) :
    (s.setApplying i stage).applying j = s.applying j :=
  Function.update_of_ne (β := fun _ => Option (ApplyStage Peer)) h stage s.applying

/-- `extend_to_include_vv` with the counters that grew. -/
def mergePublished (published pre post : VersionVector Peer) : VersionVector Peer :=
  fun p => if pre p < post p then max (published p) (post p) else published p

end SharedDoc

section
variable {Peer : Type} [DecidableEq Peer] (own : Peer → Prop) (me : Peer)

/-- One step. `own` are the peers of this device; a remote update brings no operation of
theirs that is not there. A publish call that finds nothing new makes no step. -/
inductive WatermarkStep : SharedDoc Peer → WatermarkEvent → SharedDoc Peer → Prop
  | edit {s : SharedDoc Peer} {count : Nat} (hcount : 0 < count) :
    WatermarkStep s .edit { s with oplog := Function.update s.oplog me (s.oplog me + count) }
  | connect {s : SharedDoc Peer} {connected : Bool} : WatermarkStep s (.connect connected) { s with connected }
  | publishRead {s : SharedDoc Peer} (hfree : s.publishing = none) (hnew : s.published ≠ s.oplog) :
    WatermarkStep s .publishRead { s with publishing := some s.oplog }
  | publishExport {s : SharedDoc Peer} {now : VersionVector Peer} (hnow : s.publishing = some now) :
    WatermarkStep s .publishExport
      { s with published := now, publishing := none, handing := s.handing ++ [⟨s.published, s.oplog⟩] }
  | handOver {s : SharedDoc Peer} {before after : List (DocumentUpdate Peer)} {u : DocumentUpdate Peer}
      (hhanding : s.handing = before ++ u :: after) :
    WatermarkStep s .handOver
      { s with handing := before ++ after
               handed := fun p n => s.handed p n ∨ s.connected = true ∧ u.Contains p n }
  | applyRead {s : SharedDoc Peer} {i : Nat} (hnone : s.applying i = none) :
    WatermarkStep s (.applyRead i) (s.setApplying i (some (.read s.oplog)))
  | applyRefused {s : SharedDoc Peer} {i : Nat} {pre : VersionVector Peer} (hread : s.applying i = some (.read pre)) :
    WatermarkStep s (.applyRefused i) (s.setApplying i none)
  | applyImport {s : SharedDoc Peer} {i : Nat} {pre grown : VersionVector Peer}
      (hread : s.applying i = some (.read pre)) (hgrown : ∀ p, s.oplog p ≤ grown p)
      (hown : ∀ p, own p → grown p = s.oplog p) :
    WatermarkStep s (.applyImport i)
      { s.setApplying i (some (.imported pre)) with
        oplog := grown
        delivered := fun p n => s.delivered p n ∨ s.oplog p ≤ n ∧ n < grown p }
  | applyReadAgain {s : SharedDoc Peer} {i : Nat} {pre : VersionVector Peer}
      (himported : s.applying i = some (.imported pre)) :
    WatermarkStep s (.applyReadAgain i) (s.setApplying i (some (.readAgain pre s.oplog)))
  | applyMerge {s : SharedDoc Peer} {i : Nat} {pre post : VersionVector Peer} (hfree : s.publishing = none)
      (hreadAgain : s.applying i = some (.readAgain pre post)) :
    WatermarkStep s (.applyMerge i)
      { s.setApplying i none with published := SharedDoc.mergePublished s.published pre post }

/-- No local commit while an apply is between its two reads, no export while one is between
its import and its merge, and what is exported finds a runtime. -/
def Orderly (s : SharedDoc Peer) : WatermarkEvent → Prop
  | .edit => ∀ i stage, s.applying i = some stage → ∃ pre post, stage = .readAgain pre post
  | .publishExport => ∀ i stage, s.applying i = some stage → ∃ pre, stage = .read pre
  | .handOver => s.connected = true
  | _ => True

def OrderlyStep (s : SharedDoc Peer) (e : WatermarkEvent) (s' : SharedDoc Peer) : Prop :=
  Orderly s e ∧ WatermarkStep own me s e s'

end

section
variable {Peer : Type} (own : Peer → Prop)

/-- A document as the process opens it, with operations of this device only. -/
structure Opened (s : SharedDoc Peer) : Prop where
  published : s.published = fun _ => 0
  foreign : ∀ p, ¬ own p → s.oplog p = 0
  publishing : s.publishing = none
  handing : s.handing = []
  applying : s.applying = fun _ => none
  delivered : ∀ p n, ¬ s.delivered p n

/-- The reads of an apply are of one version, up to what came from the room. -/
def StageOk (s : SharedDoc Peer) : ApplyStage Peer → Prop
  | .read pre => ∀ p, pre p ≤ s.oplog p ∧ (own p → pre p = s.oplog p)
  | .imported pre => ∀ p, pre p ≤ s.oplog p ∧ (own p → pre p = s.oplog p)
  | .readAgain pre post => ∀ p, post p ≤ s.oplog p ∧ (own p → pre p = post p)

/-- The apply will merge the operation into the watermark. -/
def WillMerge (p : Peer) (n : Nat) : ApplyStage Peer → Prop
  | .read _ => False
  | .imported pre => pre p ≤ n
  | .readAgain pre post => pre p ≤ n ∧ n < post p

structure WatermarkOk (s : SharedDoc Peer) : Prop where
  bounded : ∀ p, s.published p ≤ s.oplog p
  locked : ∀ now, s.publishing = some now → ∀ p, s.published p ≤ now p ∧ now p ≤ s.oplog p
  covered : ∀ p n, n < s.published p → s.delivered p n ∨ s.handed p n ∨ ∃ u ∈ s.handing, u.Contains p n
  foreign : ∀ p n, s.delivered p n ↔ ¬ own p ∧ n < s.oplog p
  merged : ∀ p n, s.delivered p n → n < s.published p ∨ ∃ i stage, s.applying i = some stage ∧ WillMerge p n stage
  stages : ∀ i stage, s.applying i = some stage → StageOk own s stage

end

section
variable {Peer : Type} {own : Peer → Prop} {me : Peer} {s s' : SharedDoc Peer}

theorem watermarkOk_opened (h : Opened own s) : WatermarkOk own s := by
  constructor
  · intro p
    rw [h.published]
    exact Nat.zero_le _
  · intro now hnow
    rw [h.publishing] at hnow
    cases hnow
  · intro p n hn
    rw [h.published] at hn
    exact absurd hn (Nat.not_lt_zero n)
  · intro p n
    constructor
    · intro hdelivered
      exact absurd hdelivered (h.delivered p n)
    · intro ⟨hown, hn⟩
      rw [h.foreign p hown] at hn
      exact absurd hn (Nat.not_lt_zero n)
  · intro p n hdelivered
    exact absurd hdelivered (h.delivered p n)
  · intro i stage hstage
    rw [h.applying] at hstage
    cases hstage

/-- A new stage of one call, beside those of the others. -/
theorem stages_setApplying {i : Nat} {stage' : Option (ApplyStage Peer)} {Q : ApplyStage Peer → Prop}
    (hold : ∀ j stage, s.applying j = some stage → Q stage) (hnew : ∀ stage, stage' = some stage → Q stage) :
    ∀ j stage, (s.setApplying i stage').applying j = some stage → Q stage := by
  intro j stage hstage
  by_cases hj : j = i
  · subst hj
    rw [SharedDoc.setApplying_self] at hstage
    exact hnew stage hstage
  · rw [SharedDoc.setApplying_of_ne _ hj] at hstage
    exact hold j stage hstage

/-- The calls that will merge an operation, when one call goes on. -/
theorem willMerge_setApplying {i : Nat} {old : ApplyStage Peer} {stage' : Option (ApplyStage Peer)} {p : Peer} {n : Nat}
    {P : Prop} (hi : s.applying i = some old) (hgoes : WillMerge p n old → P ∨ ∃ stage, stage' = some stage ∧ WillMerge p n stage)
    (h : ∃ j stage, s.applying j = some stage ∧ WillMerge p n stage) :
    P ∨ ∃ j stage, (s.setApplying i stage').applying j = some stage ∧ WillMerge p n stage := by
  obtain ⟨j, stage, hstage, hmerge⟩ := h
  by_cases hj : j = i
  · subst hj
    obtain rfl := Option.some.inj (hi.symm.trans hstage)
    cases hgoes hmerge with
    | inl hP => exact .inl hP
    | inr hnew =>
      obtain ⟨stage, rfl, hmerge⟩ := hnew
      exact .inr ⟨j, stage, SharedDoc.setApplying_self _ _ _, hmerge⟩
  · exact .inr ⟨j, stage, (SharedDoc.setApplying_of_ne _ hj _).trans hstage, hmerge⟩

theorem WatermarkOk.publishExport (h : WatermarkOk own s) {now : VersionVector Peer} (hnow : s.publishing = some now) :
    WatermarkOk own
      { s with published := now, publishing := none, handing := s.handing ++ [⟨s.published, s.oplog⟩] } := by
  have hlocked := h.locked now hnow
  refine ⟨fun p => (hlocked p).2, ?_, ?_, h.foreign, ?_, h.stages⟩
  · intro later hlater
    cases hlater
  · intro p n hn
    have hn : n < now p := hn
    by_cases hold : n < s.published p
    · cases h.covered p n hold with
      | inl hdelivered => exact .inl hdelivered
      | inr hrest =>
        cases hrest with
        | inl hhanded => exact .inr (.inl hhanded)
        | inr hhanding =>
          obtain ⟨u, hu, hcontains⟩ := hhanding
          exact .inr (.inr ⟨u, List.mem_append_left _ hu, hcontains⟩)
    · refine .inr (.inr ⟨⟨s.published, s.oplog⟩, List.mem_append_right _ (List.mem_singleton.mpr rfl), ?_⟩)
      have := (hlocked p).2
      exact ⟨Nat.le_of_not_lt hold, by dsimp only; omega⟩
  · intro p n hdelivered
    cases h.merged p n hdelivered with
    | inl hn => exact .inl (Nat.lt_of_lt_of_le hn (hlocked p).1)
    | inr hmerge => exact .inr hmerge

theorem WatermarkOk.handOver (h : WatermarkOk own s) {before after : List (DocumentUpdate Peer)} {u : DocumentUpdate Peer}
    (hhanding : s.handing = before ++ u :: after) (hconnected : s.connected = true) :
    WatermarkOk own { s with handing := before ++ after
                             handed := fun p n => s.handed p n ∨ s.connected = true ∧ u.Contains p n } := by
  refine ⟨h.bounded, h.locked, ?_, h.foreign, h.merged, h.stages⟩
  intro p n hn
  cases h.covered p n hn with
  | inl hdelivered => exact .inl hdelivered
  | inr hrest =>
    cases hrest with
    | inl hhanded => exact .inr (.inl (.inl hhanded))
    | inr hin =>
      obtain ⟨v, hv, hcontains⟩ := hin
      rw [hhanding] at hv
      cases List.mem_append.mp hv with
      | inl hv => exact .inr (.inr ⟨v, List.mem_append_left _ hv, hcontains⟩)
      | inr hv =>
        cases List.mem_cons.mp hv with
        | inl heq => exact .inr (.inl (.inr ⟨hconnected, heq ▸ hcontains⟩))
        | inr hv => exact .inr (.inr ⟨v, List.mem_append_right _ hv, hcontains⟩)

theorem WatermarkOk.applyImport (h : WatermarkOk own s) {i : Nat} {pre grown : VersionVector Peer}
    (hread : s.applying i = some (.read pre)) (hgrown : ∀ p, s.oplog p ≤ grown p)
    (hown : ∀ p, own p → grown p = s.oplog p) :
    WatermarkOk own { s.setApplying i (some (.imported pre)) with
      oplog := grown, delivered := fun p n => s.delivered p n ∨ s.oplog p ≤ n ∧ n < grown p } := by
  have hstage := h.stages i _ hread
  refine ⟨fun p => (h.bounded p).trans (hgrown p), ?_, ?_, ?_, ?_, ?_⟩
  · intro now hnow p
    have := h.locked now hnow p
    exact ⟨this.1, this.2.trans (hgrown p)⟩
  · intro p n hn
    cases h.covered p n hn with
    | inl hdelivered => exact .inl (.inl hdelivered)
    | inr hrest => exact .inr hrest
  · intro p n
    have hold := h.foreign p n
    constructor
    · intro hdelivered
      cases hdelivered with
      | inl hdelivered =>
        have := hold.mp hdelivered
        exact ⟨this.1, Nat.lt_of_lt_of_le this.2 (hgrown p)⟩
      | inr hnew =>
        refine ⟨fun hp => ?_, hnew.2⟩
        have hnew := hnew
        rw [hown p hp] at hnew
        omega
    · intro ⟨hp, hn⟩
      by_cases hbefore : n < s.oplog p
      · exact .inl (hold.mpr ⟨hp, hbefore⟩)
      · exact .inr ⟨Nat.le_of_not_lt hbefore, hn⟩
  · intro p n hdelivered
    cases hdelivered with
    | inl hdelivered =>
      cases h.merged p n hdelivered with
      | inl hn => exact .inl hn
      | inr hmerge => exact willMerge_setApplying hread (fun hfalse => hfalse.elim) hmerge
    | inr hnew =>
      exact .inr ⟨i, .imported pre, SharedDoc.setApplying_self _ _ _, (hstage p).1.trans hnew.1⟩
  · refine stages_setApplying (fun j stage hj => ?_) fun stage heq => ?_
    · have hok := h.stages j stage hj
      cases stage with
      | read pre' | imported pre' =>
        intro p
        exact ⟨(hok p).1.trans (hgrown p), fun hp => ((hok p).2 hp).trans (hown p hp).symm⟩
      | readAgain pre' post' =>
        intro p
        exact ⟨(hok p).1.trans (hgrown p), (hok p).2⟩
    · obtain rfl := Option.some.inj heq
      intro p
      exact ⟨(hstage p).1.trans (hgrown p), fun hp => ((hstage p).2 hp).trans (hown p hp).symm⟩

theorem WatermarkOk.applyMerge (h : WatermarkOk own s) {i : Nat} {pre post : VersionVector Peer}
    (hfree : s.publishing = none) (hreadAgain : s.applying i = some (.readAgain pre post)) :
    WatermarkOk own { s.setApplying i none with published := SharedDoc.mergePublished s.published pre post } := by
  have hstage := h.stages i _ hreadAgain
  have hraises : ∀ p, s.published p ≤ SharedDoc.mergePublished s.published pre post p := by
    intro p
    rw [SharedDoc.mergePublished]
    split
    · exact le_max_left _ _
    · exact le_refl _
  refine ⟨?_, ?_, ?_, h.foreign, ?_, ?_⟩
  · intro p
    have hmerged : SharedDoc.mergePublished s.published pre post p =
        if pre p < post p then max (s.published p) (post p) else s.published p := rfl
    dsimp only
    rw [hmerged]
    split
    · exact max_le (h.bounded p) (hstage p).1
    · exact h.bounded p
  · intro now hnow
    rw [show s.publishing = some now from hnow] at hfree
    cases hfree
  · intro p n hn
    by_cases hold : n < s.published p
    · exact h.covered p n hold
    · -- Only what came from the room grew between the two reads.
      have hgrew : pre p < post p ∧ n < post p := by
        have hn : n < SharedDoc.mergePublished s.published pre post p := hn
        rw [SharedDoc.mergePublished] at hn
        split at hn
        · next hgrew => exact ⟨hgrew, by omega⟩
        · exact absurd hn hold
      have hp : ¬ own p := by
        intro hp
        have := (hstage p).2 hp
        omega
      exact .inl ((h.foreign p n).mpr ⟨hp, Nat.lt_of_lt_of_le hgrew.2 (hstage p).1⟩)
  · intro p n hdelivered
    cases h.merged p n hdelivered with
    | inl hn => exact .inl (Nat.lt_of_lt_of_le hn (hraises p))
    | inr hmerge =>
      refine willMerge_setApplying hreadAgain (fun hwill => .inl ?_) hmerge
      have hgrew : pre p < post p := Nat.lt_of_le_of_lt hwill.1 hwill.2
      have hraised : n < SharedDoc.mergePublished s.published pre post p := by
        rw [SharedDoc.mergePublished, if_pos hgrew]
        exact Nat.lt_of_lt_of_le hwill.2 (le_max_right _ _)
      exact hraised
  · exact stages_setApplying h.stages fun stage heq => by cases heq

variable [DecidableEq Peer]

theorem WatermarkOk.edit (h : WatermarkOk own s) (hme : own me) (count : Nat)
    (hread : ∀ i stage, s.applying i = some stage → ∃ pre post, stage = .readAgain pre post) :
    WatermarkOk own { s with oplog := Function.update s.oplog me (s.oplog me + count) } := by
  have hgrows : ∀ p, s.oplog p ≤ Function.update s.oplog me (s.oplog me + count) p := by
    intro p
    by_cases hp : p = me
    · subst hp
      rw [Function.update_self]
      omega
    · rw [Function.update_of_ne hp]
  refine ⟨fun p => (h.bounded p).trans (hgrows p), ?_, h.covered, ?_, h.merged, ?_⟩
  · intro now hnow p
    have := h.locked now hnow p
    exact ⟨this.1, this.2.trans (hgrows p)⟩
  · intro p n
    rw [h.foreign p n]
    apply and_congr_right
    intro hown
    have hp : p ≠ me := fun heq => hown (heq ▸ hme)
    dsimp only
    rw [Function.update_of_ne hp]
  · intro i stage hstage
    obtain ⟨pre, post, rfl⟩ := hread i stage hstage
    intro p
    have := h.stages i _ hstage p
    exact ⟨this.1.trans (hgrows p), this.2⟩

theorem watermarkOk_step {e : WatermarkEvent} (hme : own me) (h : WatermarkOk own s)
    (hstep : OrderlyStep own me s e s') : WatermarkOk own s' := by
  obtain ⟨horderly, hstep⟩ := hstep
  cases hstep with
  | @edit count _ => exact h.edit hme count horderly
  | connect => exact ⟨h.bounded, h.locked, h.covered, h.foreign, h.merged, h.stages⟩
  | publishRead hfree hnew =>
    refine ⟨h.bounded, ?_, h.covered, h.foreign, h.merged, h.stages⟩
    intro now hnow p
    obtain rfl := Option.some.inj hnow
    exact ⟨h.bounded p, le_refl _⟩
  | publishExport hnow => exact h.publishExport hnow
  | handOver hhanding => exact h.handOver hhanding horderly
  | @applyRead i hnone =>
    refine ⟨h.bounded, h.locked, h.covered, h.foreign, ?_, ?_⟩
    · intro p n hdelivered
      cases h.merged p n hdelivered with
      | inl hn => exact .inl hn
      | inr hmerge =>
        obtain ⟨j, stage, hstage, hmerge⟩ := hmerge
        have hj : j ≠ i := by
          rintro rfl
          rw [hnone] at hstage
          cases hstage
        exact .inr ⟨j, stage, (SharedDoc.setApplying_of_ne _ hj _).trans hstage, hmerge⟩
    · refine stages_setApplying h.stages fun stage heq => ?_
      obtain rfl := Option.some.inj heq
      exact fun p => ⟨le_refl _, fun _ => rfl⟩
  | @applyRefused i pre hread =>
    refine ⟨h.bounded, h.locked, h.covered, h.foreign, ?_, ?_⟩
    · intro p n hdelivered
      cases h.merged p n hdelivered with
      | inl hn => exact .inl hn
      | inr hmerge => exact willMerge_setApplying hread (fun hfalse => hfalse.elim) hmerge
    · exact stages_setApplying h.stages fun stage heq => by cases heq
  | applyImport hread hgrown hown => exact h.applyImport hread hgrown hown
  | @applyReadAgain i pre himported =>
    have hstage := h.stages i _ himported
    refine ⟨h.bounded, h.locked, h.covered, h.foreign, ?_, ?_⟩
    · intro p n hdelivered
      cases h.merged p n hdelivered with
      | inl hn => exact .inl hn
      | inr hmerge =>
        refine willMerge_setApplying himported (fun hpre => .inr ⟨_, rfl, hpre, ?_⟩) hmerge
        exact ((h.foreign p n).mp hdelivered).2
    · refine stages_setApplying h.stages fun stage heq => ?_
      obtain rfl := Option.some.inj heq
      exact fun p => ⟨le_refl _, (hstage p).2⟩
  | applyMerge hfree hreadAgain => exact h.applyMerge hfree hreadAgain

theorem watermarkOk_run {events : List WatermarkEvent} (hme : own me) (h : WatermarkOk own s)
    (hrun : Run (OrderlyStep own me) s events s') : WatermarkOk own s' :=
  hrun.invariant (I := WatermarkOk own) (fun _ _ _ => watermarkOk_step hme) h

/-- Without an export, own operations do not get under the watermark. -/
theorem published_own_step {e : WatermarkEvent} (h : WatermarkOk own s) (hstep : OrderlyStep own me s e s')
    (he : e ≠ .publishExport) {p : Peer} (hp : own p) : s'.published p = s.published p := by
  obtain ⟨-, hstep⟩ := hstep
  cases hstep with
  | publishExport hnow => exact absurd rfl he
  | @applyMerge i pre post hfree hreadAgain =>
    have hsame := (h.stages i _ hreadAgain p).2 hp
    have hnot : ¬ pre p < post p := by omega
    exact if_neg hnot
  | edit hcount => rfl
  | connect => rfl
  | publishRead hfree hnew => rfl
  | handOver hhanding => rfl
  | applyRead hnone => rfl
  | applyRefused hread => rfl
  | applyImport hread hgrown hown => rfl
  | applyReadAgain himported => rfl

theorem oplog_step {e : WatermarkEvent} (hstep : OrderlyStep own me s e s') (p : Peer) : s.oplog p ≤ s'.oplog p := by
  obtain ⟨-, hstep⟩ := hstep
  cases hstep with
  | @edit count hcount =>
    by_cases hp : p = me
    · subst hp
      dsimp only
      rw [Function.update_self]
      omega
    · dsimp only
      rw [Function.update_of_ne hp]
  | applyImport hread hgrown hown => exact hgrown p
  | publishExport hnow | applyMerge hfree hreadAgain | connect | publishRead hfree hnew | handOver hhanding
  | applyRead hnone | applyRefused hread | applyReadAgain himported => exact le_refl _

theorem pending_own_run {events : List WatermarkEvent} (hme : own me) (h : WatermarkOk own s)
    (hrun : Run (OrderlyStep own me) s events s') (hevents : WatermarkEvent.publishExport ∉ events) {p : Peer}
    (hp : own p) : s'.published p = s.published p ∧ s.oplog p ≤ s'.oplog p := by
  induction hrun with
  | nil s => exact ⟨rfl, le_refl _⟩
  | cons hstep _ ih =>
    rw [List.mem_cons, not_or] at hevents
    obtain ⟨hpublished, hoplog⟩ := ih (watermarkOk_step hme h hstep) hevents.2
    exact ⟨hpublished.trans (published_own_step h hstep (Ne.symm hevents.1) hp), (oplog_step hstep p).trans hoplog⟩

/-- What a publish call exports, and what it leaves to hand over. -/
theorem publishExport_handing (hstep : WatermarkStep own me s .publishExport s') :
    s'.handing = s.handing ++ [⟨s.published, s.oplog⟩] := by
  cases hstep
  rfl

/-- **The watermark hides no local operation.** In an orderly run it covers what came from the
room and what was exported to a runtime; the next export after an edit has the edit, and
nothing the room delivered. -/
theorem watermark_hides_no_edit (hme : own me) {start : SharedDoc Peer} (hopened : Opened own start)
    {events : List WatermarkEvent} (hrun : Run (OrderlyStep own me) start events s) :
    (∀ p n, n < s.published p → s.delivered p n ∨ s.handed p n ∨ ∃ u ∈ s.handing, u.Contains p n) ∧
    (∀ edited events' later exported n, OrderlyStep own me s .edit edited → s.oplog me ≤ n → n < edited.oplog me →
      Run (OrderlyStep own me) edited events' later → WatermarkEvent.publishExport ∉ events' →
      OrderlyStep own me later .publishExport exported →
      ∃ u, exported.handing = later.handing ++ [u] ∧ u.Contains me n) ∧
    ∀ exported, OrderlyStep own me s .publishExport exported →
      ∃ u, exported.handing = s.handing ++ [u] ∧ ∀ p n, u.Contains p n → ¬ s.delivered p n := by
  have h := watermarkOk_run hme (watermarkOk_opened hopened) hrun
  refine ⟨h.covered, ?_, ?_⟩
  · intro edited events' later exported n hedit hlow hhigh hrun' hevents hexport
    refine ⟨_, publishExport_handing hexport.2, ?_⟩
    obtain ⟨hpublished, hoplog⟩ := pending_own_run hme (watermarkOk_step hme h hedit) hrun' hevents hme
    have hbefore := published_own_step h hedit (by decide) hme
    have hbounded := h.bounded me
    exact ⟨by dsimp only; omega, Nat.lt_of_lt_of_le hhigh hoplog⟩
  · intro exported hexport
    refine ⟨_, publishExport_handing hexport.2, ?_⟩
    intro p n hcontains hdelivered
    cases h.merged p n hdelivered with
    | inl hn => exact absurd hn (Nat.not_lt_of_le hcontains.1)
    | inr hmerge =>
      obtain ⟨i, stage, hstage, hmerge⟩ := hmerge
      obtain ⟨pre, rfl⟩ := hexport.1 i stage hstage
      exact hmerge

end

/-! ## Two devices -/

/-- A document with nothing in it. -/
def emptyDoc : SharedDoc Bool :=
  { oplog := fun _ => 0, published := fun _ => 0, publishing := none, handing := [], applying := fun _ => none
    connected := true, delivered := fun _ _ => False, handed := fun _ _ => False }

theorem emptyDoc_opened : Opened (· = true) emptyDoc :=
  ⟨rfl, fun _ _ => rfl, rfl, rfl, rfl, fun _ _ hfalse => hfalse⟩

def editedDoc (s : SharedDoc Bool) : SharedDoc Bool :=
  { s with oplog := Function.update s.oplog true (s.oplog true + 1) }

/-- An edit of this device, exported and handed over. -/
theorem watermark_hides_no_edit_sample : ∃ s : SharedDoc Bool,
    Run (OrderlyStep (· = true) true) emptyDoc [.edit, .publishRead, .publishExport, .handOver] s ∧
      s.published true = 1 ∧ s.handed true 0 := by
  let read : SharedDoc Bool := { editedDoc emptyDoc with publishing := some (editedDoc emptyDoc).oplog }
  let update : DocumentUpdate Bool := ⟨read.published, read.oplog⟩
  let exported : SharedDoc Bool :=
    { read with published := (editedDoc emptyDoc).oplog, publishing := none, handing := [update] }
  let handed : SharedDoc Bool :=
    { exported with
      handing := []
      handed := fun p n => exported.handed p n ∨ exported.connected = true ∧ update.Contains p n }
  have hidle : ∀ (i : Nat) (stage : ApplyStage Bool), emptyDoc.applying i ≠ some stage := by
    intro i stage hstage
    cases hstage
  have hedit : OrderlyStep (· = true) true emptyDoc .edit (editedDoc emptyDoc) :=
    ⟨fun i stage hstage => absurd hstage (hidle i stage), .edit Nat.one_pos⟩
  have hread : OrderlyStep (· = true) true (editedDoc emptyDoc) .publishRead read := by
    refine ⟨trivial, .publishRead rfl fun h => ?_⟩
    have hone := congrFun h true
    cases hone
  have hexport : OrderlyStep (· = true) true read .publishExport exported :=
    ⟨fun i stage hstage => absurd hstage (hidle i stage), .publishExport rfl⟩
  have hhand : OrderlyStep (· = true) true exported .handOver handed := by
    have hhanding : exported.handing = [] ++ update :: [] := rfl
    exact ⟨rfl, .handOver hhanding⟩
  have hrun : Run (OrderlyStep (· = true) true) emptyDoc [.edit, .publishRead, .publishExport, .handOver] handed :=
    .cons hedit (.cons hread (.cons hexport (.cons hhand (.nil handed))))
  have hpublished : 0 < handed.published true := Nat.one_pos
  have hcovered := (@watermark_hides_no_edit Bool (· = true) true _ _ rfl _ emptyDoc_opened _ hrun).1 true 0 hpublished
  refine ⟨handed, hrun, rfl, ?_⟩
  cases hcovered with
  | inl hdelivered => exact hdelivered.elim
  | inr hrest =>
    cases hrest with
    | inl hhanded => exact hhanded
    | inr hhanding =>
      obtain ⟨u, hu, -⟩ := hhanding
      cases hu

/-- An edit between the reads of an apply gets under the watermark: it came from this device,
was never exported, and the next publish finds nothing new. -/
theorem apply_hides_edit : ∃ s : SharedDoc Bool,
    Run (WatermarkStep (· = true) true) emptyDoc
      [.applyRead 0, .edit, .applyImport 0, .applyReadAgain 0, .applyMerge 0] s ∧
      0 < s.published true ∧ ¬ s.delivered true 0 ∧ ¬ s.handed true 0 ∧ s.handing = [] ∧ s.published = s.oplog := by
  let pre := emptyDoc.oplog
  let read := emptyDoc.setApplying 0 (some (.read pre))
  let edited := editedDoc read
  let imported : SharedDoc Bool :=
    { edited.setApplying 0 (some (.imported pre)) with
      oplog := fun _ => 1
      delivered := fun p n => edited.delivered p n ∨ edited.oplog p ≤ n ∧ n < 1 }
  let again := imported.setApplying 0 (some (.readAgain pre imported.oplog))
  let merged : SharedDoc Bool :=
    { again.setApplying 0 none with published := SharedDoc.mergePublished again.published pre imported.oplog }
  have hread : WatermarkStep (· = true) true emptyDoc (.applyRead 0) read := .applyRead rfl
  have hedit : WatermarkStep (· = true) true read .edit edited := .edit Nat.one_pos
  have himport : WatermarkStep (· = true) true edited (.applyImport 0) imported := by
    have hstage : edited.applying 0 = some (.read pre) := rfl
    exact .applyImport hstage (by decide) (by decide)
  have hagain : WatermarkStep (· = true) true imported (.applyReadAgain 0) again := by
    have hstage : imported.applying 0 = some (.imported pre) := rfl
    exact .applyReadAgain hstage
  have hmerge : WatermarkStep (· = true) true again (.applyMerge 0) merged := by
    have hstage : again.applying 0 = some (.readAgain pre imported.oplog) := rfl
    exact .applyMerge rfl hstage
  refine ⟨merged, .cons hread (.cons hedit (.cons himport (.cons hagain (.cons hmerge (.nil merged))))),
    Nat.one_pos, ?_, id, rfl, ?_⟩
  · intro hdelivered
    cases hdelivered with
    | inl hfalse => exact hfalse
    | inr hgrew => exact absurd hgrew.1 (by decide)
  · funext p
    cases p <;> rfl

end Zulangue.Share
