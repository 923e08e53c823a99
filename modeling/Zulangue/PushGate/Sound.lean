import Zulangue.PushGate.Fenced

/-!
# The gate as a whole

Whatever the order of its steps: the gate is bounded, it pushes what it accepts, nobody is left
behind, and a fence after a close means what it says.
-/

namespace Zulangue.PushGate

open Zulangue.Lib

section
variable {w : World}

/-! ## Progress -/

theorem turns_of_mem {calls : List Call} {call : Call} (h : call ∈ calls) (next : Option Call) :
    ∃ calls', Turns calls call next calls' := by
  obtain ⟨before, after, rfl⟩ := List.append_of_mem h
  exact ⟨_, before, after, rfl, rfl⟩

/-- Whoever has the lock can go on. -/
theorem critical_proceeds (capacity : Int) {call : Call} (hmem : call ∈ w.calls) (hcritical : call.critical ≠ 0) :
    ∃ w', Step capacity w .run w' ∧ w'.consumer = w.consumer := by
  cases call with
  | drain drain =>
    cases drain with
    | check | lock | resume => exact absurd rfl hcritical
    | recheck =>
      by_cases hpending : w.pendingCount = 0
      · obtain ⟨calls, hturn⟩ := turns_of_mem hmem (some (.drain (.unlock w.fences.fenceWaiters)))
        exact ⟨_, .abortDrains hturn (.take hpending), rfl⟩
      · obtain ⟨calls, hturn⟩ := turns_of_mem hmem (some (.drain (.unlock [])))
        have hdrain : DrainStep w.pendingCount w.fences .recheck w.fences (some (.unlock [])) := .leave hpending
        exact ⟨{ w with calls }, .abortDrains hturn hdrain, rfl⟩
    | unlock waiters =>
      obtain ⟨calls, hturn⟩ := turns_of_mem hmem (some (.drain (.resume waiters)))
      exact ⟨_, .abortDrains hturn .unlock, rfl⟩
  | load fence =>
    by_cases hpending : w.pendingCount = 0
    · obtain ⟨calls, hturn⟩ := turns_of_mem hmem (some (.pass fence))
      exact ⟨_, .fenceDrained hturn hpending, rfl⟩
    · obtain ⟨calls, hturn⟩ := turns_of_mem hmem (some (.append fence))
      exact ⟨_, .fencePending hturn hpending, rfl⟩
  | append fence =>
    obtain ⟨calls, hturn⟩ := turns_of_mem hmem (some .suspend)
    exact ⟨_, .fenceAppends hturn, rfl⟩
  | suspend =>
    obtain ⟨calls, hturn⟩ := turns_of_mem hmem none
    exact ⟨_, .fenceSuspends hturn, rfl⟩
  | pass fence =>
    obtain ⟨calls, hturn⟩ := turns_of_mem hmem (some (.resume fence))
    exact ⟨_, .fencePasses hturn, rfl⟩
  | reopen | exchange | lock | resume => exact absurd rfl hcritical

/-- While a block waits or runs, the consumer goes on, or whoever keeps it from the lock does. -/
def World.Proceeds (capacity : Int) (w : World) : Prop :=
  w.queue = [] ∧ w.consumer = .idle ∨ (∃ w', Step capacity w .run w' ∧ w'.consumer ≠ w.consumer) ∨
    w.consumer = .drain .lock ∧ ∃ call ∈ w.calls, call.critical ≠ 0 ∧ ∃ w', Step capacity w .run w' ∧ w'.consumer = w.consumer

theorem Exclusive.proceeds (h : Exclusive w) (capacity : Int) : w.Proceeds capacity := by
  have hgoes : ∀ {consumer : Consumer} {w' : World}, w.consumer = consumer → Step capacity w .run w' →
      w'.consumer ≠ consumer → w.Proceeds capacity := by
    rintro consumer w' rfl hstep hne
    exact .inr (.inl ⟨w', hstep, hne⟩)
  cases hconsumer : w.consumer with
  | idle =>
    cases hqueue : w.queue with
    | nil => exact .inl ⟨hqueue, hconsumer⟩
    | cons block queue =>
      cases block with
      | pushAcceptedFrame audioData => exact hgoes hconsumer (.runPush hconsumer hqueue) fun hcontra => (by cases hcontra)
      | resumeFenceWaitersIfDrained => exact hgoes hconsumer (.runDrain hconsumer hqueue) fun hcontra => (by cases hcontra)
  | load audioData =>
    by_cases hstopped : w.state.Stopped
    · exact hgoes hconsumer (.discard hconsumer hstopped) fun hcontra => (by cases hcontra)
    · obtain ⟨haborted, hfailed⟩ := not_or.mp hstopped
      exact hgoes hconsumer (.load hconsumer haborted hfailed) fun hcontra => (by cases hcontra)
  | push audioData => exact hgoes hconsumer (.pushed hconsumer) fun hcontra => (by cases hcontra)
  | failed message => exact hgoes hconsumer (.failed hconsumer) fun hcontra => (by cases hcontra)
  | observe message =>
    by_cases hstopped : w.state.Stopped
    · exact hgoes hconsumer (.observeTerminal hconsumer hstopped) fun hcontra => (by cases hcontra)
    · obtain ⟨haborted, hfailed⟩ := not_or.mp hstopped
      exact hgoes hconsumer (.observe hconsumer haborted hfailed) fun hcontra => (by cases hcontra)
  | exchange message observed =>
    by_cases hsame : w.state = observed
    · exact hgoes hconsumer (.fail hconsumer hsame) fun hcontra => (by cases hcontra)
    · exact hgoes hconsumer (.failFails hconsumer hsame) fun hcontra => (by cases hcontra)
  | notify message => exact hgoes hconsumer (.notify hconsumer) fun hcontra => (by cases hcontra)
  | finish =>
    by_cases hlast : w.pendingCount = 1
    · exact hgoes hconsumer (.finishLast hconsumer hlast) fun hcontra => (by cases hcontra)
    · exact hgoes hconsumer (.finish hconsumer hlast) fun hcontra => (by cases hcontra)
  | drain drain =>
    have hdrains : ∀ {fences : Fences} {next : Option Drain}, DrainStep w.pendingCount w.fences drain fences next →
        Consumer.ofDrain next ≠ .drain drain → w.Proceeds capacity :=
      fun hdrain hne => hgoes hconsumer (.consumerDrains hconsumer hdrain) hne
    cases drain with
    | check =>
      by_cases hpending : w.pendingCount = 0
      · exact hdrains (.drained hpending) fun hcontra => (by cases hcontra)
      · exact hdrains (.notDrained hpending) fun hcontra => (by cases hcontra)
    | lock =>
      cases hlocked : w.fences.locked with
      | false => exact hdrains (.lock hlocked) fun hcontra => (by cases hcontra)
      | true =>
        -- The lock is with a call.
        have hcall : ∃ call ∈ w.calls, call.critical ≠ 0 := by
          by_contra hnone
          push Not at hnone
          rw [Exclusive, hconsumer, hlocked, Table.total_eq_zero hnone] at h
          cases h
        obtain ⟨call, hmem, hcritical⟩ := hcall
        exact .inr (.inr ⟨hconsumer, call, hmem, hcritical, critical_proceeds capacity hmem hcritical⟩)
    | recheck =>
      by_cases hpending : w.pendingCount = 0
      · exact hdrains (.take hpending) fun hcontra => (by cases hcontra)
      · exact hdrains (.leave hpending) fun hcontra => (by cases hcontra)
    | unlock waiters => exact hdrains .unlock fun hcontra => (by cases hcontra)
    | resume waiters =>
      cases waiters with
      | nil => exact hdrains .done fun hcontra => (by cases hcontra)
      | cons waiter waiters =>
        refine hdrains .resume fun hcontra => ?_
        exact List.cons_ne_self waiter waiters (Drain.resume.inj (Consumer.drain.inj hcontra)).symm

end

/-! ## The gate -/

/-- At most `capacity` accepted frames wait, and the count does not underflow. -/
structure World.Bounded (capacity : Int) (w : World) : Prop where
  frames : (w.accepted.length : Int) ≤ w.pushes.length + w.discarded.length + limit capacity
  pending : w.pendingCount ≤ limit capacity
  nonneg : 0 ≤ w.pendingCount
  safe : w.trapped = false

/-- Accepted frames are pushed once and in their order, up to those that still wait, and the consumer
does not get stuck on them. -/
structure World.PushesInOrder (capacity : Int) (w : World) : Prop where
  inOrder : w.accepted = w.pushes.map Prod.fst ++ w.discarded ++ w.waiting
  discards : w.discarded ≠ [] → w.aborted = true ∨ w.Failed
  proceeds : w.Proceeds capacity

/-- A suspended call of `fence`, taken from `fenceWaiters` by a call of `abort` that will resume it. -/
def World.Resuming (w : World) (fence : Nat) : Prop := ∃ waiters, .drain (.unlock waiters) ∈ w.calls ∧ fence ∈ waiters ∨
  .drain (.resume waiters) ∈ w.calls ∧ fence ∈ waiters

/-- The call of `fence` has not suspended. -/
def World.Entering (w : World) (fence : Nat) : Prop :=
  .lock fence ∈ w.calls ∨ .load fence ∈ w.calls ∨ .pass fence ∈ w.calls ∨ .resume fence ∈ w.calls

structure World.Resumes (w : World) : Prop where
  once : ∀ fence, w.fences.resumed.count fence ≤ 1
  quiet : w.queue = [] → w.consumer = .idle → w.tap = .idle → w.fences.fenceWaiters = [] ∧
    ∀ fence < w.fenceCount, w.fences.resumed.count fence = 1 ∨ w.Resuming fence ∨ w.Entering fence

section
variable {capacity : Int} {w w' : World} {action : Action} {actions : List Action}

structure Sound (capacity : Int) (w : World) : Prop where
  counted : Counted capacity w
  exclusive : Exclusive w
  owned : Owned w
  delivered : Delivered w
  woken : Woken w

theorem start_sound (capacity : Int) : Sound capacity .start := by
  refine ⟨start_counted capacity, rfl, fun _ => rfl, start_delivered, ?_⟩
  rintro (hwaiting | ⟨_, hcall⟩)
  · exact absurd rfl hwaiting
  · cases hcall

theorem step_sound (h : Sound capacity w) (hstep : Step capacity w action w') : Sound capacity w' :=
  ⟨step_counted h.counted hstep, step_exclusive h.exclusive hstep, step_owned h.owned hstep,
    step_delivered h.delivered hstep, step_woken h.woken h.counted h.exclusive hstep⟩

theorem run_sound (h : Run (Step capacity) w actions w') (hsound : Sound capacity w) : Sound capacity w' :=
  h.invariant (I := Sound capacity) (fun _ _ _ => step_sound) hsound

theorem Sound.bounded (h : Sound capacity w) : w.Bounded capacity := by
  refine ⟨?_, h.counted.bounded, h.counted.nonneg, h.counted.safe⟩
  have hwaiting := h.counted.length_waiting
  have hbounded := h.counted.bounded
  rw [h.delivered.inOrder, List.length_append, List.length_append, List.length_map]
  omega

theorem Sound.pushesInOrder (h : Sound capacity w) : w.PushesInOrder capacity :=
  ⟨h.delivered.inOrder, fun hne => (h.delivered.stopped hne).imp h.delivered.aborted h.delivered.failed,
    h.exclusive.proceeds capacity⟩

/-- A call that has a continuation, or is about to. -/
theorem mem_of_takes {call : Call} {fence : Nat} (h : call.takes fence ≠ 0) :
    (∃ waiters, call = .drain (.unlock waiters) ∧ fence ∈ waiters) ∨ (∃ waiters, call = .drain (.resume waiters) ∧ fence ∈ waiters) ∨
      call = .pass fence ∨ call = .resume fence := by
  have hpositive : ∀ {waiters : List Nat}, (waiters.count fence : Int) ≠ 0 → fence ∈ waiters := by
    intro waiters hne
    by_contra hnot
    exact hne (congrArg _ (List.count_eq_zero.mpr hnot))
  cases call with
  | drain drain =>
    cases drain with
    | check | lock | recheck => exact absurd rfl h
    | unlock waiters => exact .inl ⟨waiters, rfl, hpositive h⟩
    | resume waiters => exact .inr (.inl ⟨waiters, rfl, hpositive h⟩)
  | pass passed =>
    obtain rfl : passed = fence := by
      by_contra hne
      exact h (if_neg hne)
    exact .inr (.inr (.inl rfl))
  | resume resumed =>
    obtain rfl : resumed = fence := by
      by_contra hne
      exact h (if_neg hne)
    exact .inr (.inr (.inr rfl))
  | reopen | exchange | lock | load | append | suspend => exact absurd rfl h

theorem mem_of_enters {call : Call} {fence : Nat} (h : call.enters fence ≠ 0) :
    call = .lock fence ∨ call = .load fence ∨ call = .append fence := by
  cases call with
  | lock called | load called | append called =>
    obtain rfl : called = fence := by
      by_contra hne
      exact h (if_neg hne)
    simp
  | _ => exact absurd rfl h

theorem drain_takes_nonneg (fence : Nat) (drain : Drain) : 0 ≤ drain.takes fence := by
  cases drain <;> simp [Drain.takes]

theorem consumer_takes_nonneg (fence : Nat) (consumer : Consumer) : 0 ≤ consumer.takes fence := by
  cases consumer with
  | drain drain => exact drain_takes_nonneg fence drain
  | _ => exact Int.le_refl 0

theorem call_takes_nonneg (fence : Nat) (call : Call) : 0 ≤ call.takes fence := by
  cases call with
  | drain drain => exact drain_takes_nonneg fence drain
  | pass passed | resume resumed =>
    rw [Call.takes]
    split <;> decide
  | _ => exact Int.le_refl 0

theorem call_enters_nonneg (fence : Nat) (call : Call) : 0 ≤ call.enters fence := by
  cases call with
  | lock called | load called | append called =>
    rw [Call.enters]
    split <;> decide
  | _ => exact Int.le_refl 0

theorem releases_nonneg (w : World) (fence : Nat) : 0 ≤ w.releases fence := by
  have hconsumer := consumer_takes_nonneg fence w.consumer
  have hcalls := Table.total_nonneg fun (call : Call) (_ : call ∈ w.calls) => call_takes_nonneg fence call
  rw [World.releases]
  omega

theorem waits_nonneg (w : World) (fence : Nat) : 0 ≤ w.waits fence := by
  have hcalls := Table.total_nonneg fun (call : Call) (_ : call ∈ w.calls) => call_enters_nonneg fence call
  rw [World.waits]
  omega

theorem Sound.resumes (h : Sound capacity w) : w.Resumes := by
  constructor
  · intro fence
    have howned := h.owned fence
    have hwaits := waits_nonneg w fence
    have hconsumer := consumer_takes_nonneg fence w.consumer
    have hcalls := Table.total_nonneg fun (call : Call) (_ : call ∈ w.calls) => call_takes_nonneg fence call
    rw [World.releases] at howned
    split at howned <;> omega
  · intro hqueue hconsumer htap
    have hdrained : ¬ w.Wakes := by
      have hpending := h.counted.pending
      rw [World.held, hqueue, hconsumer, htap] at hpending
      rintro (hpositive | hchecks | ⟨_, _, hdefer⟩ | hblock)
      · change w.pendingCount = 0 at hpending
        omega
      · rw [hconsumer] at hchecks
        exact hchecks
      · rw [htap] at hdefer
        cases hdefer
      · rw [hqueue] at hblock
        cases hblock
    have hnone : ¬ w.Waiting := fun hwaiting => hdrained (h.woken hwaiting)
    have hwaiters : w.fences.fenceWaiters = [] := by
      by_contra hne
      exact hnone (.inl hne)
    refine ⟨hwaiters, fun fence hcalled => ?_⟩
    have howned := h.owned fence
    rw [World.releases, World.waits, hwaiters, hconsumer, if_pos hcalled] at howned
    change _ + 0 + _ + (0 + _) = (1 : Int) at howned
    by_cases htakes : ∃ call ∈ w.calls, call.takes fence ≠ 0
    · obtain ⟨call, hmem, hne⟩ := htakes
      right
      obtain ⟨waiters, rfl, hin⟩ | ⟨waiters, rfl, hin⟩ | rfl | rfl := mem_of_takes hne
      · exact .inl ⟨waiters, .inl ⟨hmem, hin⟩⟩
      · exact .inl ⟨waiters, .inr ⟨hmem, hin⟩⟩
      · exact .inr (.inr (.inr (.inl hmem)))
      · exact .inr (.inr (.inr (.inr hmem)))
    · by_cases henters : ∃ call ∈ w.calls, call.enters fence ≠ 0
      · obtain ⟨call, hmem, hne⟩ := henters
        right
        right
        obtain rfl | rfl | rfl := mem_of_enters hne
        · exact .inl hmem
        · exact .inr (.inl hmem)
        · exact absurd (.inr ⟨fence, hmem⟩) hnone
      · push Not at htakes henters
        rw [Table.total_eq_zero htakes, Table.total_eq_zero henters] at howned
        left
        omega

/-- Whatever is accepted around a `close` is behind the fence that is called after it. -/
def World.FencesClose (capacity : Int) (w : World) : Prop :=
  ∀ {closed called waiting later : World} {before after : List Action}, Step capacity w .close closed →
    Run (Step capacity) closed before called → Step capacity called .fence waiting →
    Run (Step capacity) waiting after later → .reopened ∉ before → .reopened ∉ after →
    called.fenceCount ∈ later.fences.resumed → later.accepted = later.pushes.map Prod.fst ++ later.discarded

theorem run_shut (h : Run (Step capacity) w actions w') (hshut : w.state ≠ .accepting) (hreopened : .reopened ∉ actions) :
    w'.state ≠ .accepting := by
  induction h with
  | nil => exact hshut
  | cons hstep _ ih =>
    obtain ⟨hne, hrest⟩ := not_or.mp (mt List.mem_cons.mpr hreopened)
    exact ih (step_shut hshut (Ne.symm hne) hstep) hrest

theorem run_fenced {fence : Nat} (h : Run (Step capacity) w actions w') (hsound : Sound capacity w) (hfenced : Fenced fence w)
    (hreopened : .reopened ∉ actions) : Fenced fence w' := by
  induction h with
  | nil => exact hfenced
  | cons hstep _ ih =>
    obtain ⟨hne, hrest⟩ := not_or.mp (mt List.mem_cons.mpr hreopened)
    exact ih (step_sound hsound hstep) (step_fenced hfenced hsound.counted (Ne.symm hne) hstep) hrest

theorem close_shuts (h : Step capacity w .close w') : w'.state ≠ .accepting := by
  cases h with
  | close =>
    change (if w.state = .accepting then State.closed else w.state) ≠ .accepting
    split
    · decide
    next hnot => exact hnot

theorem Sound.fencesClose (h : Sound capacity w) : w.FencesClose capacity := by
  intro closed called waiting later before after hclose hbefore hfence hafter hnot hnot' hresumed
  have hcalled := run_sound hbefore (step_sound h hclose)
  have hshut := run_shut hbefore (close_shuts hclose) hnot
  have hfenced : Fenced called.fenceCount waiting := by
    have howned := hcalled.owned called.fenceCount
    have hreleases := releases_nonneg called called.fenceCount
    have hwaits := waits_nonneg called called.fenceCount
    rw [if_neg (Nat.lt_irrefl _)] at howned
    refine ⟨step_shut hshut (show Action.fence ≠ .reopened by decide) hfence, fun hpositive => ?_⟩
    obtain hle | hdrained := step_releases called.fenceCount hfence
    · omega
    · exact step_settled (hcalled.counted.settled hdrained) hshut hfence
  have hwaiting := step_sound hcalled hfence
  have hlater := run_sound hafter hwaiting
  have hpositive : 0 < later.releases called.fenceCount := by
    have hcount := List.count_pos_iff.mpr hresumed
    have hconsumer := consumer_takes_nonneg called.fenceCount later.consumer
    have hcalls := Table.total_nonneg fun (call : Call) (_ : call ∈ later.calls) => call_takes_nonneg called.fenceCount call
    rw [World.releases]
    omega
  have hsettled := (run_fenced hafter hwaiting hfenced hnot').2 hpositive
  rw [hlater.delivered.inOrder, hsettled.2, List.append_nil]

/-- A gate that has overflowed, failed or been aborted accepts nothing any more. -/
def World.StaysShut (capacity : Int) (w : World) : Prop :=
  ∀ {later : World} {actions : List Action}, Run (Step capacity) w actions later →
    w.state = .overflow ∨ w.state = .pushFailure ∨ w.state = .aborted → later.state ≠ .accepting

theorem stays_shut (capacity : Int) (w : World) : w.StaysShut capacity := by
  intro later actions hrun hterminal
  have hstart : w.state ≠ .accepting ∧ w.state ≠ .closed := by
    obtain h | h | h := hterminal <;> rw [h] <;> decide
  have hlater := hrun.invariant (I := fun w => w.state ≠ .accepting ∧ w.state ≠ .closed)
    (fun _ _ _ => step_terminal) hstart
  exact hlater.1

/-- The gate loses, repeats and strands nothing, in every order of its steps. -/
theorem gate_strands_nothing (h : Run (Step capacity) .start actions w) :
    w.Bounded capacity ∧ w.PushesInOrder capacity ∧ w.FencesClose capacity ∧ w.Resumes ∧ w.StaysShut capacity := by
  have hsound := run_sound h (start_sound capacity)
  exact ⟨hsound.bounded, hsound.pushesInOrder, hsound.fencesClose, hsound.resumes, stays_shut capacity w⟩

/-- A frame is accepted, the gate closes, and the frame is pushed behind it. -/
theorem gate_strands_nothing_sample : ∃ w : World, w.pushes = [([1], none)] ∧ w.state = .closed ∧ w.Bounded 8 ∧
    w.PushesInOrder 8 ∧ w.FencesClose 8 ∧ w.Resumes ∧ w.StaysShut 8 := by
  have hsubmit : Run (Step 8) .start [.submit [1], .run, .run, .run, .run, .run] _ :=
    .cons (.submit rfl (by decide)) <| .cons (.loadAccepting rfl rfl) <| .cons (.loadPending rfl) <|
      .cons (.reserve rfl (by decide) rfl) <| .cons (.recheckAccepting rfl rfl) <| .cons (.enqueue rfl) <| .nil _
  have hpush := hsubmit.append (.cons .close <| .cons (.runPush rfl rfl) <|
    .cons (.load rfl (by decide) (by decide)) <| .cons (.pushed rfl) <| .nil _)
  exact ⟨_, rfl, rfl, gate_strands_nothing hpush⟩

end

end Zulangue.PushGate
