import Zulangue.PushGate.Delivered

/-!
# Fences

A waiter stays only while somebody is about to look, and a fence after a close passes when everything
accepted has been pushed or discarded.
-/

namespace Zulangue.PushGate

open Zulangue.Lib

/-! ## Waiters -/

/-- Before the waiters are taken. -/
def Drain.Checks : Drain → Prop
  | .check | .lock | .recheck => True
  | _ => False

def Consumer.Checks : Consumer → Prop
  | .drain running => running.Checks
  | _ => False

/-- Somebody waits, or is about to. -/
def World.Waiting (w : World) : Prop := w.fences.fenceWaiters ≠ [] ∨ ∃ fence, .append fence ∈ w.calls

/-- The consumer or the tap will look at the waiters again. -/
def World.Wakes (w : World) : Prop :=
  0 < w.pendingCount ∨ w.consumer.Checks ∨ (∃ audioData reservedState, w.tap = .defer audioData reservedState) ∨
    .resumeFenceWaitersIfDrained ∈ w.queue

def Woken (w : World) : Prop := w.Waiting → w.Wakes

section
variable {capacity : Int} {w w' : World} {action : Action}

/-- The tap goes on. -/
theorem Woken.tap (h : Woken w) (hfences : w'.fences = w.fences) (hcalls : w'.calls = w.calls)
    (hconsumer : w'.consumer = w.consumer) (htap : ∀ audioData reservedState, w.tap ≠ .defer audioData reservedState)
    (hqueue : ∀ block ∈ w.queue, block ∈ w'.queue) (hpending : 0 < w.pendingCount → w'.Wakes) : Woken w' := by
  rw [Woken, World.Waiting, hfences, hcalls]
  intro hwaiting
  obtain hpositive | hchecks | ⟨audioData, reservedState, hdefer⟩ | hblock := h hwaiting
  · exact hpending hpositive
  · exact .inr (.inl (hconsumer ▸ hchecks))
  · exact absurd hdefer (htap audioData reservedState)
  · exact .inr (.inr (.inr (hqueue _ hblock)))

/-- The consumer goes on. -/
theorem Woken.consumer (h : Woken w) (hwaiting : w'.Waiting → w.Waiting) (htap : w'.tap = w.tap)
    (hchecks : w.consumer.Checks → w'.Waiting → w'.Wakes) (hqueue : .resumeFenceWaitersIfDrained ∈ w.queue → w'.Wakes)
    (hpending : 0 < w.pendingCount → w'.Wakes) : Woken w' := by
  intro hw'
  obtain hpositive | hold | hdefer | hblock := h (hwaiting hw')
  · exact hpending hpositive
  · exact hchecks hold hw'
  · exact .inr (.inr (.inl (htap ▸ hdefer)))
  · exact hqueue hblock

/-- A call goes on, and adds no waiter. -/
theorem Woken.turn (h : Woken w) {call : Call} {next : Option Call} {calls : List Call} {fences : Fences} {state : State}
    (hturn : Turns w.calls call next calls) (hnext : ∀ fence, next ≠ some (.append fence))
    (hfences : fences.fenceWaiters ≠ [] → w.fences.fenceWaiters ≠ []) : Woken { w with calls, fences, state } := by
  rintro (hwaiting | ⟨fence, hcall⟩)
  · exact h (.inl (hfences hwaiting))
  · obtain hold | hnew := hturn.mem_of_mem hcall
    · exact h (.inr ⟨fence, hold⟩)
    · exact absurd hnew (hnext fence)

theorem DrainStep.waiters {pendingCount : Int} {f f' : Fences} {drain : Drain} {next : Option Drain}
    (h : DrainStep pendingCount f drain f' next) (hne : f'.fenceWaiters ≠ []) : f.fenceWaiters ≠ [] := by
  cases h with
  | take => exact absurd rfl hne
  | _ => exact hne

/-- The consumer looks on, finds a reservation, or takes every waiter. -/
theorem DrainStep.checks {pendingCount : Int} {f f' : Fences} {drain : Drain} {next : Option Drain}
    (h : DrainStep pendingCount f drain f' next) (hchecks : drain.Checks) :
    (Consumer.ofDrain next).Checks ∨ pendingCount ≠ 0 ∨ drain = .recheck ∧ f'.fenceWaiters = [] := by
  cases h with
  | drained | lock => exact .inl trivial
  | notDrained hne | leave hne => exact .inr (.inl hne)
  | take => exact .inr (.inr ⟨rfl, rfl⟩)
  | unlock | resume | done => exact hchecks.elim

theorem step_woken (h : Woken w) (hcounted : Counted capacity w) (hexclusive : Exclusive w)
    (hstep : Step capacity w action w') : Woken w' := by
  have hnonneg := hcounted.nonneg
  have hheld := hcounted.pending
  have htapNonneg := tap_holds_nonneg w.tap
  have hconsumerNonneg := consumer_holds_nonneg w.consumer
  have hqueueNonneg := frames_nonneg w.queue
  rw [World.held] at hheld
  cases hstep with
  | submitEmpty htap | submit htap | loadAccepting htap | loadOther htap | loadPending htap | overflow htap
  | overflowFails htap | overflowed htap | reserveFails htap | recheckAccepting htap | recheckOther htap =>
    refine h.tap rfl rfl rfl (fun _ _ hcontra => ?_) (fun _ hblock => hblock) .inl
    rw [htap] at hcontra
    cases hcontra
  | reserve htap _ hsame =>
    refine h.tap rfl rfl rfl (fun _ _ hcontra => ?_) (fun _ hblock => hblock) fun hpositive => .inl ?_
    · rw [htap] at hcontra
      cases hcontra
    · change 0 < _ + 1
      omega
  | enqueue htap =>
    refine h.tap rfl rfl rfl (fun _ _ hcontra => ?_) (fun _ hblock => List.mem_append_left _ hblock) .inl
    rw [htap] at hcontra
    cases hcontra
  | reject htap hmore =>
    rw [htap] at hheld
    refine h.tap rfl rfl rfl (fun _ _ hcontra => ?_) (fun _ hblock => hblock) fun hpositive => .inl ?_
    · rw [htap] at hcontra
      cases hcontra
    · change 0 < w.pendingCount - 1
      omega
  | rejectLast htap =>
    refine h.tap rfl rfl rfl (fun _ _ hcontra => ?_) (fun _ hblock => hblock) fun _ => .inr (.inr (.inl ⟨_, _, rfl⟩))
    rw [htap] at hcontra
    cases hcontra
  | defer => exact fun _ => .inr (.inr (.inr (List.mem_append_right _ (List.mem_singleton_self _))))
  | close => exact h
  | runPush hidle hqueue =>
    refine h.consumer id rfl (fun hchecks => ?_) (fun hblock => ?_) .inl
    · rw [hidle] at hchecks
      exact hchecks.elim
    · rw [hqueue] at hblock
      obtain hcontra | hrest := List.mem_cons.mp hblock
      · cases hcontra
      · exact .inr (.inr (.inr hrest))
  | runDrain => exact fun _ => .inr (.inl trivial)
  | discard hconsumer | load hconsumer | pushed hconsumer | pushFails hconsumer | failed hconsumer
  | observeTerminal hconsumer | observe hconsumer | fail hconsumer | failFails hconsumer | notify hconsumer =>
    refine h.consumer id rfl (fun hchecks => ?_) (fun hblock => .inr (.inr (.inr hblock))) .inl
    rw [hconsumer] at hchecks
    exact hchecks.elim
  | finish hconsumer hmore =>
    rw [hconsumer] at hheld
    change _ = _ + 1 + _ at hheld
    exact fun _ => .inl (show 0 < w.pendingCount - 1 by omega)
  | finishLast => exact fun _ => .inr (.inl trivial)
  | consumerDrains hconsumer hdrain =>
    refine h.consumer ?_ rfl (fun hchecks hw' => ?_) (fun hblock => .inr (.inr (.inr hblock))) .inl
    · rintro (hwaiting | hcall)
      · exact .inl (hdrain.waiters hwaiting)
      · exact .inr hcall
    · rw [hconsumer] at hchecks
      obtain hnext | hpending | ⟨hrecheck, hnone⟩ := hdrain.checks hchecks
      · exact .inr (.inl hnext)
      · exact .inl (show 0 < w.pendingCount by omega)
      · -- The consumer has the lock, so no call is about to wait.
        obtain hwaiting | ⟨fence, hcall⟩ := hw'
        · exact absurd hnone hwaiting
        · have hle := Table.le_total (fun call _ => call_critical_nonneg call) hcall
          have hone := heldBy_le w.fences.locked
          rw [Exclusive, hconsumer, hrecheck] at hexclusive
          change 1 + _ = _ at hexclusive
          change 1 ≤ Table.total _ w.calls at hle
          omega
  | reopen | abort | fence =>
    rintro (hwaiting | ⟨fence, hcall⟩)
    · exact h (.inl hwaiting)
    · obtain hold | hnew := List.mem_append.mp hcall
      · exact h (.inr ⟨fence, hold⟩)
      · cases List.mem_singleton.mp hnew
  | reopenPending hturn | reopenDrained hturn | reopened hturn | reopenFails hturn | fenceLocks hturn
  | fenceDrained hturn | fenceSuspends hturn | fencePasses hturn | fenceResumes hturn =>
    exact h.turn hturn (fun _ hcontra => (by cases hcontra)) id
  | abortDrains hturn hdrain =>
    rename_i next
    refine h.turn hturn (fun _ hcontra => ?_) hdrain.waiters
    cases next <;> cases hcontra
  | fencePending _ hpending => exact fun _ => .inl (show 0 < w.pendingCount by omega)
  | fenceAppends hturn =>
    intro _
    exact h (.inr ⟨_, hturn.mem⟩)

/-! ## Behind the fence -/

/-- Nothing accepted waits, and nothing is about to be accepted. -/
def World.Settled (w : World) : Prop := (∀ audioData, w.tap ≠ .enqueue audioData) ∧ w.waiting = []

theorem length_frames (queue : List Block) :
    ((queue.flatMap Block.frames).length : Int) = Table.total Block.frame queue := by
  induction queue with
  | nil => rfl
  | cons block queue ih =>
    rw [List.flatMap_cons, List.length_append, Table.total_cons, ← ih]
    cases block <;> simp [Block.frames, Block.frame]

theorem length_consumer_frames (consumer : Consumer) : (consumer.frames.length : Int) ≤ consumer.holds := by
  cases consumer <;> simp [Consumer.frames, Consumer.holds]

theorem Counted.length_waiting (h : Counted capacity w) : (w.waiting.length : Int) ≤ w.pendingCount := by
  have hqueue := length_frames w.queue
  have hconsumer := length_consumer_frames w.consumer
  have htap := tap_holds_nonneg w.tap
  have hheld := h.pending
  rw [World.held] at hheld
  rw [World.waiting, List.length_append]
  omega

theorem Counted.settled (h : Counted capacity w) (hdrained : w.pendingCount = 0) : w.Settled := by
  constructor
  · intro audioData htap
    have hconsumer := consumer_holds_nonneg w.consumer
    have hqueue := frames_nonneg w.queue
    have hheld := h.pending
    rw [World.held, htap] at hheld
    change _ = 1 + _ + _ at hheld
    omega
  · have hlength := h.length_waiting
    rw [← List.length_eq_zero_iff]
    omega

/-- Only `reopen` opens the gate. -/
theorem step_shut (h : w.state ≠ .accepting) (hreopened : action ≠ .reopened) (hstep : Step capacity w action w') :
    w'.state ≠ .accepting := by
  cases hstep with
  | overflow | fail | abort => exact fun hcontra => (by cases hcontra)
  | close =>
    change (if w.state = .accepting then State.closed else w.state) ≠ .accepting
    rw [if_neg h]
    exact h
  | reopened => exact absurd rfl hreopened
  | _ => exact h

/-- Once it has overflowed, failed or been aborted, nothing opens it. -/
theorem step_terminal (h : w.state ≠ .accepting ∧ w.state ≠ .closed) (hstep : Step capacity w action w') :
    w'.state ≠ .accepting ∧ w'.state ≠ .closed := by
  cases hstep with
  | overflow | fail | abort => exact ⟨fun hcontra => (by cases hcontra), fun hcontra => (by cases hcontra)⟩
  | close =>
    change (if w.state = .accepting then State.closed else w.state) ≠ .accepting ∧
      (if w.state = .accepting then State.closed else w.state) ≠ .closed
    rw [if_neg h.1]
    exact h
  | reopened _ hclosed => exact absurd hclosed h.2
  | _ => exact h

theorem step_settled (h : w.Settled) (hshut : w.state ≠ .accepting) (hstep : Step capacity w action w') : w'.Settled := by
  obtain ⟨htap, hwaiting⟩ := h
  have hparts := List.append_eq_nil_iff.mp hwaiting
  cases hstep with
  | submit | loadAccepting | loadOther | loadPending | overflow | overflowFails | overflowed | reserve | reserveFails
  | recheckOther | reject | rejectLast =>
    exact ⟨fun _ hcontra => (by cases hcontra), hwaiting⟩
  | recheckAccepting _ haccepting => exact absurd haccepting hshut
  | enqueue henqueue => exact absurd henqueue (htap _)
  | defer =>
    refine ⟨fun _ hcontra => (by cases hcontra), ?_⟩
    change _ ++ (w.queue ++ [_]).flatMap Block.frames = []
    rw [List.flatMap_append, hparts.1, hparts.2]
    rfl
  | runPush _ hqueue =>
    rw [hqueue] at hparts
    exact absurd hparts.2 (List.cons_ne_nil _ _)
  | runDrain _ hqueue =>
    rw [hqueue] at hparts
    exact ⟨htap, hparts.2⟩
  | discard hconsumer | load hconsumer | pushed hconsumer | pushFails hconsumer =>
    rw [hconsumer] at hparts
    exact absurd hparts.1 (List.cons_ne_nil _ _)
  | failed | observeTerminal | observe | fail | failFails | notify | finish | finishLast => exact ⟨htap, hparts.2⟩
  | consumerDrains =>
    rename_i next _ _
    refine ⟨htap, ?_⟩
    cases next <;> exact hparts.2
  | _ => exact ⟨htap, hwaiting⟩

theorem DrainStep.releases {pendingCount : Int} {f f' : Fences} {drain : Drain} {next : Option Drain}
    (h : DrainStep pendingCount f drain f' next) (fence : Nat) :
    (next.map (Drain.takes fence)).getD 0 + f'.resumed.count fence = drain.takes fence + f.resumed.count fence ∨
      pendingCount = 0 := by
  cases h with
  | drained hzero | take hzero => exact .inr hzero
  | notDrained | lock | leave | unlock | done => exact .inl (by simp [Drain.takes])
  | resume =>
    left
    simp only [Drain.takes, Option.map_some, Option.getD_some, List.count_cons]
    omega

/-- A continuation is let go only when nothing is pending. -/
theorem step_releases (fence : Nat) (hstep : Step capacity w action w') :
    w'.releases fence ≤ w.releases fence ∨ w.pendingCount = 0 := by
  have hturn : ∀ {call : Call} {next : Option Call} {calls : List Call} {fences : Fences} {state : State},
      Turns w.calls call next calls →
      (next.map (Call.takes fence)).getD 0 + fences.resumed.count fence =
        call.takes fence + w.fences.resumed.count fence →
      World.releases { w with calls, fences, state } fence ≤ w.releases fence := by
    intro call next calls fences state hturn hsum
    have htotal := hturn.total (Call.takes fence)
    simp only [World.releases]
    omega
  cases hstep with
  | submitEmpty | submit | loadAccepting | loadOther | loadPending | overflow | overflowFails | overflowed | reserve
  | reserveFails | recheckAccepting | recheckOther | enqueue | reject | rejectLast | defer | close =>
    exact .inl (Int.le_refl _)
  | runPush hconsumer | runDrain hconsumer | discard hconsumer | load hconsumer | pushed hconsumer | pushFails hconsumer
  | failed hconsumer | observeTerminal hconsumer | observe hconsumer | fail hconsumer | failFails hconsumer
  | notify hconsumer | finish hconsumer | finishLast hconsumer =>
    left
    simp only [World.releases, hconsumer]
    exact Int.le_refl _
  | consumerDrains hconsumer hdrain =>
    refine (hdrain.releases fence).imp (fun hsum => ?_) id
    rw [← takes_ofDrain] at hsum
    simp only [World.releases, hconsumer]
    change _ ≤ _ + Drain.takes fence _ + _
    omega
  | reopen | abort | fence =>
    left
    simp only [World.releases]
    rw [Table.total_snoc (Call.takes fence) rfl]
  | reopenPending h | reopenDrained h | reopened h | reopenFails h | fenceLocks h | fencePending h | fenceAppends h
  | fenceSuspends h | fencePasses h =>
    exact .inl (hturn h (by simp [Call.takes]))
  | fenceDrained _ hdrained => exact .inr hdrained
  | abortDrains h hdrain =>
    refine (hdrain.releases fence).imp (fun hsum => hturn h ?_) id
    rw [takes_map_drain]
    exact hsum
  | fenceResumes h =>
    refine .inl (hturn h ?_)
    simp only [Call.takes, Option.map_none, Option.getD_none, List.count_cons, beq_iff_eq]
    split <;> omega

/-- Nothing waits behind a fence that has been let through a gate that is shut. -/
def Fenced (fence : Nat) (w : World) : Prop := w.state ≠ .accepting ∧ (0 < w.releases fence → w.Settled)

theorem step_fenced {fence : Nat} (h : Fenced fence w) (hcounted : Counted capacity w) (hreopened : action ≠ .reopened)
    (hstep : Step capacity w action w') : Fenced fence w' := by
  refine ⟨step_shut h.1 hreopened hstep, fun hpositive => step_settled ?_ h.1 hstep⟩
  obtain hle | hdrained := step_releases fence hstep
  · exact h.2 (by omega)
  · exact hcounted.settled hdrained

end

end Zulangue.PushGate
