import Zulangue.PushGate.Gate

/-!
# What is counted

`pendingCount` counts the reservations of the tap and the blocks not finished, `fenceLock` has one
holder, and each `fence` is in one place.
-/

namespace Zulangue.PushGate

open Zulangue.Lib

/-! ## Reservations -/

def Block.frame : Block → Int
  | .pushAcceptedFrame _ => 1
  | .resumeFenceWaitersIfDrained => 0

def Tap.holds : Tap → Int
  | .recheck _ | .enqueue _ | .reject _ _ => 1
  | _ => 0

def Consumer.holds : Consumer → Int
  | .idle | .drain _ => 0
  | _ => 1

theorem tap_holds_nonneg (tap : Tap) : 0 ≤ tap.holds := by
  cases tap <;> simp [Tap.holds]

theorem consumer_holds_nonneg (consumer : Consumer) : 0 ≤ consumer.holds := by
  cases consumer <;> simp [Consumer.holds]

theorem frames_nonneg (queue : List Block) : 0 ≤ Table.total Block.frame queue := by
  refine Table.total_nonneg fun block _ => ?_
  cases block <;> simp [Block.frame]

theorem consumer_holds_ofDrain (next : Option Drain) : (Consumer.ofDrain next).holds = 0 := by
  cases next <;> rfl

/-- Reserved and not given back. -/
def World.held (w : World) : Int := w.tap.holds + w.consumer.holds + Table.total Block.frame w.queue

theorem held_nonneg (w : World) : 0 ≤ w.held := by
  have htap := tap_holds_nonneg w.tap
  have hconsumer := consumer_holds_nonneg w.consumer
  have hqueue := frames_nonneg w.queue
  rw [World.held]
  omega

structure Counted (capacity : Int) (w : World) : Prop where
  pending : w.pendingCount = w.held
  bounded : w.pendingCount ≤ limit capacity
  safe : w.trapped = false

section
variable {capacity : Int} {w w' : World} {action : Action}

theorem Counted.nonneg (h : Counted capacity w) : 0 ≤ w.pendingCount := h.pending ▸ held_nonneg w

/-- The count does not change. -/
theorem Counted.same (h : Counted capacity w) (hheld : w'.held = w.held) (hpending : w'.pendingCount = w.pendingCount)
    (htrapped : w'.trapped = w.trapped) : Counted capacity w' := by
  constructor
  · rw [hpending, hheld]
    exact h.pending
  · rw [hpending]
    exact h.bounded
  · rw [htrapped]
    exact h.safe

/-- A reservation is given back. -/
theorem Counted.give (h : Counted capacity w) (hheld : w'.held = w.held - 1) (hpending : w'.pendingCount = w.pendingCount - 1)
    (htrapped : w'.trapped = (w.trapped || decide (w.pendingCount ≤ 0)) ∨ w'.trapped = w.trapped) : Counted capacity w' := by
  have hsum := h.pending
  have hbounded := h.bounded
  have hnonneg := held_nonneg w'
  constructor
  · omega
  · omega
  · have hpositive : decide (w.pendingCount ≤ 0) = false := by
      rw [decide_eq_false_iff_not]
      omega
    obtain heq | heq := htrapped
    · rw [heq, h.safe, hpositive]
      rfl
    · rw [heq]
      exact h.safe

theorem step_counted (h : Counted capacity w) (hstep : Step capacity w action w') : Counted capacity w' := by
  cases hstep with
  | submitEmpty | close | reopen | reopenPending | reopenDrained | reopened | reopenFails | abort | abortDrains | fence
  | fenceLocks | fenceDrained | fencePending | fenceAppends | fenceSuspends | fencePasses | fenceResumes =>
    exact h.same rfl rfl rfl
  | submit htap | loadAccepting htap | loadOther htap | loadPending htap | overflow htap | overflowFails htap
  | overflowed htap | reserveFails htap | recheckAccepting htap | recheckOther htap =>
    refine h.same ?_ rfl rfl
    simp only [World.held, htap, Tap.holds]
  | reserve htap hroom hsame =>
    subst hsame
    have hpending := h.pending
    have hheld : w.held = 0 + w.consumer.holds + Table.total Block.frame w.queue := by
      rw [World.held, htap]
      rfl
    constructor
    · change w.pendingCount + 1 = 1 + w.consumer.holds + Table.total Block.frame w.queue
      omega
    · change w.pendingCount + 1 ≤ limit capacity
      omega
    · exact h.safe
  | enqueue htap =>
    refine h.same ?_ rfl rfl
    simp only [World.held, htap, Tap.holds, Table.total_append, Table.total_cons, Block.frame]
    change 0 + w.consumer.holds + (Table.total Block.frame w.queue + (1 + 0)) = _
    omega
  | reject htap =>
    refine h.give ?_ rfl (.inl rfl)
    simp only [World.held, htap, Tap.holds]
    omega
  | rejectLast htap =>
    refine h.give ?_ rfl (.inr rfl)
    simp only [World.held, htap, Tap.holds]
    omega
  | defer htap =>
    refine h.same ?_ rfl rfl
    simp only [World.held, htap, Tap.holds, Table.total_append, Table.total_cons, Block.frame]
    exact congrArg _ (Int.add_zero _)
  | runPush hidle hqueue | runDrain hidle hqueue =>
    refine h.same ?_ rfl rfl
    simp only [World.held, hidle, hqueue, Consumer.holds, Table.total_cons, Block.frame]
    omega
  | discard hconsumer | load hconsumer | pushed hconsumer | pushFails hconsumer | failed hconsumer
  | observeTerminal hconsumer | observe hconsumer | fail hconsumer | failFails hconsumer | notify hconsumer =>
    refine h.same ?_ rfl rfl
    simp only [World.held, hconsumer, Consumer.holds]
  | finish hconsumer =>
    refine h.give ?_ rfl (.inl rfl)
    simp only [World.held, hconsumer, Consumer.holds]
    omega
  | finishLast hconsumer =>
    refine h.give ?_ rfl (.inr rfl)
    simp only [World.held, hconsumer, Consumer.holds]
    omega
  | consumerDrains hconsumer =>
    refine h.same ?_ rfl rfl
    rw [World.held, World.held, hconsumer]
    change w.tap.holds + (Consumer.ofDrain _).holds + _ = w.tap.holds + 0 + _
    rw [consumer_holds_ofDrain]

theorem start_counted (capacity : Int) : Counted capacity .start := by
  refine ⟨rfl, ?_, rfl⟩
  change 0 ≤ max 1 capacity
  omega

end

/-! ## The lock -/

def Drain.critical : Drain → Int
  | .recheck | .unlock _ => 1
  | _ => 0

def Consumer.critical : Consumer → Int
  | .drain running => running.critical
  | _ => 0

def Call.critical : Call → Int
  | .drain running => running.critical
  | .load _ | .append _ | .suspend | .pass _ => 1
  | _ => 0

def heldBy (locked : Bool) : Int := if locked then 1 else 0

/-- `fenceLock` is held by whoever is between its lock and its unlock. -/
def Exclusive (w : World) : Prop :=
  w.consumer.critical + Table.total Call.critical w.calls = heldBy w.fences.locked

theorem drain_critical_nonneg (drain : Drain) : 0 ≤ drain.critical := by
  cases drain <;> simp [Drain.critical]

theorem consumer_critical_nonneg (consumer : Consumer) : 0 ≤ consumer.critical := by
  cases consumer with
  | drain drain => exact drain_critical_nonneg drain
  | _ => exact Int.le_refl 0

theorem call_critical_nonneg (call : Call) : 0 ≤ call.critical := by
  cases call with
  | drain drain => exact drain_critical_nonneg drain
  | _ => simp [Call.critical]

theorem heldBy_le (locked : Bool) : heldBy locked ≤ 1 := by
  cases locked <;> decide

section
variable {capacity : Int} {w w' : World} {action : Action}

theorem DrainStep.critical {pendingCount : Int} {f f' : Fences} {drain : Drain} {next : Option Drain}
    (h : DrainStep pendingCount f drain f' next) (hheld : drain.critical ≤ heldBy f.locked) :
    (next.map Drain.critical).getD 0 = drain.critical + heldBy f'.locked - heldBy f.locked := by
  have hle := heldBy_le f.locked
  cases h with
  | drained | notDrained | take | leave | resume | done => simp [Drain.critical]
  | lock hfree => simp [Drain.critical, heldBy, hfree]
  | unlock =>
    change 1 ≤ heldBy f.locked at hheld
    change 0 = 1 + 0 - heldBy f.locked
    omega

theorem critical_ofDrain (next : Option Drain) : (Consumer.ofDrain next).critical = (next.map Drain.critical).getD 0 := by
  cases next <;> rfl

/-- A call goes on, and takes the lock or gives it back. -/
theorem Exclusive.turn (h : Exclusive w) {call : Call} {next : Option Call} {calls : List Call}
    (hturn : Turns w.calls call next calls) {fences : Fences}
    (hnext : call.critical ≤ heldBy w.fences.locked → call.critical ≤ 1 →
      (next.map Call.critical).getD 0 = call.critical + heldBy fences.locked - heldBy w.fences.locked) :
    Exclusive { w with calls, fences } := by
  have hle := Table.le_total (fun call _ => call_critical_nonneg call) hturn.mem
  have hconsumer := consumer_critical_nonneg w.consumer
  have hlocked := heldBy_le w.fences.locked
  have htotal := hturn.total Call.critical
  rw [Exclusive] at h
  rw [hnext (by omega) (by omega)] at htotal
  change w.consumer.critical + Table.total Call.critical calls = heldBy fences.locked
  omega

theorem step_exclusive (h : Exclusive w) (hstep : Step capacity w action w') : Exclusive w' := by
  cases hstep with
  | submitEmpty | submit | loadAccepting | loadOther | loadPending | overflow | overflowFails | overflowed | reserve
  | reserveFails | recheckAccepting | recheckOther | enqueue | reject | rejectLast | defer | close =>
    exact h
  | runPush hconsumer | runDrain hconsumer | discard hconsumer | load hconsumer | pushed hconsumer | pushFails hconsumer
  | failed hconsumer | observeTerminal hconsumer | observe hconsumer | fail hconsumer | failFails hconsumer
  | notify hconsumer | finish hconsumer | finishLast hconsumer =>
    rw [Exclusive, hconsumer] at h
    exact h
  | consumerDrains hconsumer hdrain =>
    have hcalls := Table.total_nonneg fun (call : Call) (_ : call ∈ w.calls) => call_critical_nonneg call
    simp only [Exclusive, hconsumer] at h ⊢
    change Drain.critical _ + _ = _ at h
    have hnext := hdrain.critical (by omega)
    rw [critical_ofDrain, hnext]
    omega
  | reopen | abort | fence =>
    rw [Exclusive]
    change _ + Table.total Call.critical (w.calls ++ [_]) = _
    rw [Table.total_snoc Call.critical rfl]
    exact h
  | reopenPending hturn | reopenDrained hturn | reopened hturn | reopenFails hturn | fenceDrained hturn
  | fencePending hturn | fenceAppends hturn | fenceResumes hturn =>
    refine h.turn hturn fun _ _ => ?_
    simp [Call.critical]
  | abortDrains hturn hdrain =>
    refine h.turn hturn fun hheld _ => ?_
    rw [Option.map_map]
    exact hdrain.critical hheld
  | fenceLocks hturn hfree =>
    refine h.turn hturn fun _ _ => ?_
    simp [Call.critical, heldBy, hfree]
  | fenceSuspends hturn | fencePasses hturn =>
    refine h.turn hturn fun hheld hle => ?_
    have hlocked := heldBy_le w.fences.locked
    change 1 ≤ _ at hheld
    change 0 = 1 + 0 - heldBy w.fences.locked
    omega

end

/-! ## The continuations -/

def Drain.takes (fence : Nat) : Drain → Int
  | .unlock waiters | .resume waiters => waiters.count fence
  | _ => 0

def Consumer.takes (fence : Nat) : Consumer → Int
  | .drain running => running.takes fence
  | _ => 0

/-- The continuation is about to be resumed. -/
def Call.takes (fence : Nat) : Call → Int
  | .drain running => running.takes fence
  | .pass passed | .resume passed => if passed = fence then 1 else 0
  | _ => 0

/-- The call has not looked at `pendingCount`, or is about to wait. -/
def Call.enters (fence : Nat) : Call → Int
  | .lock called | .load called | .append called => if called = fence then 1 else 0
  | _ => 0

def World.releases (w : World) (fence : Nat) : Int :=
  w.fences.resumed.count fence + w.consumer.takes fence + Table.total (Call.takes fence) w.calls

def World.waits (w : World) (fence : Nat) : Int :=
  w.fences.fenceWaiters.count fence + Table.total (Call.enters fence) w.calls

/-- Every `fence` called so far is in one place. -/
def Owned (w : World) : Prop := ∀ fence, w.releases fence + w.waits fence = if fence < w.fenceCount then 1 else 0

section
variable {capacity : Int} {w w' : World} {action : Action}

theorem takes_map_drain (fence : Nat) (next : Option Drain) :
    ((next.map Call.drain).map (Call.takes fence)).getD 0 = (next.map (Drain.takes fence)).getD 0 := by
  cases next <;> rfl

theorem enters_map_drain (fence : Nat) (next : Option Drain) :
    ((next.map Call.drain).map (Call.enters fence)).getD 0 = 0 := by
  cases next <;> rfl

theorem takes_ofDrain (fence : Nat) (next : Option Drain) :
    (Consumer.ofDrain next).takes fence = (next.map (Drain.takes fence)).getD 0 := by
  cases next <;> rfl

/-- Continuations taken from `fenceWaiters` are resumed. -/
theorem DrainStep.takes {pendingCount : Int} {f f' : Fences} {drain : Drain} {next : Option Drain}
    (h : DrainStep pendingCount f drain f' next) (fence : Nat) :
    (next.map (Drain.takes fence)).getD 0 + f'.resumed.count fence + f'.fenceWaiters.count fence =
      drain.takes fence + f.resumed.count fence + f.fenceWaiters.count fence := by
  cases h with
  | drained | notDrained | lock | leave | unlock | done => simp [Drain.takes]
  | take =>
    simp only [Drain.takes, Option.map_some, Option.getD_some, List.count_nil]
    omega
  | resume =>
    simp only [Drain.takes, Option.map_some, Option.getD_some, List.count_cons]
    omega

/-- A call goes on, and its continuation with it. -/
theorem Owned.turn (h : Owned w) {call : Call} {next : Option Call} {calls : List Call} (hturn : Turns w.calls call next calls)
    {fences : Fences}
    (hnext : ∀ fence, (next.map (Call.takes fence)).getD 0 + (next.map (Call.enters fence)).getD 0 +
        fences.resumed.count fence + fences.fenceWaiters.count fence =
      call.takes fence + call.enters fence + w.fences.resumed.count fence + w.fences.fenceWaiters.count fence) :
    Owned { w with calls, fences } := by
  intro fence
  have htakes := hturn.total (Call.takes fence)
  have henters := hturn.total (Call.enters fence)
  have hcounts := hnext fence
  have howned := h fence
  simp only [World.releases, World.waits] at howned ⊢
  omega

theorem step_owned (h : Owned w) (hstep : Step capacity w action w') : Owned w' := by
  cases hstep with
  | submitEmpty | submit | loadAccepting | loadOther | loadPending | overflow | overflowFails | overflowed | reserve
  | reserveFails | recheckAccepting | recheckOther | enqueue | reject | rejectLast | defer | close =>
    exact h
  | runPush hconsumer | runDrain hconsumer | discard hconsumer | load hconsumer | pushed hconsumer | pushFails hconsumer
  | failed hconsumer | observeTerminal hconsumer | observe hconsumer | fail hconsumer | failFails hconsumer
  | notify hconsumer | finish hconsumer | finishLast hconsumer =>
    intro fence
    have howned := h fence
    rw [World.releases, hconsumer] at howned
    exact howned
  | consumerDrains hconsumer hdrain =>
    intro fence
    have howned := h fence
    have htakes := hdrain.takes fence
    rw [← takes_ofDrain] at htakes
    simp only [World.releases, World.waits, hconsumer] at howned ⊢
    change _ + Drain.takes fence _ + _ + _ = _ at howned
    omega
  | reopen | abort =>
    intro fence
    have howned := h fence
    simp only [World.releases, World.waits] at howned ⊢
    rw [Table.total_snoc (Call.takes fence) rfl, Table.total_snoc (Call.enters fence) rfl]
    exact howned
  | fence =>
    intro fence
    have howned := h fence
    simp only [World.releases, World.waits] at howned ⊢
    rw [Table.total_snoc (Call.takes fence) rfl, Table.total_append, Table.total_cons]
    change _ + (_ + (_ + ((if w.fenceCount = fence then 1 else 0) + 0))) = if fence < w.fenceCount + 1 then (1 : Int) else 0
    split at howned <;> split <;> split <;> omega
  | reopenPending hturn | reopenDrained hturn | reopened hturn | reopenFails hturn | fenceLocks hturn
  | fenceDrained hturn | fencePending hturn | fenceSuspends hturn | fencePasses hturn =>
    refine h.turn hturn fun fence => ?_
    simp [Call.takes, Call.enters]
  | abortDrains hturn hdrain =>
    refine h.turn hturn fun fence => ?_
    have htakes := hdrain.takes fence
    rw [takes_map_drain, enters_map_drain]
    change _ = Drain.takes fence _ + 0 + _ + _
    omega
  | fenceAppends hturn =>
    refine h.turn hturn fun fence => ?_
    simp only [Call.takes, Call.enters, Option.map_some, Option.getD_some, List.count_append, List.count_cons,
      List.count_nil, beq_iff_eq]
    split <;> omega
  | fenceResumes hturn =>
    refine h.turn hturn fun fence => ?_
    simp only [Call.takes, Call.enters, Option.map_none, Option.getD_none, List.count_cons, beq_iff_eq]
    split <;> omega

end

end Zulangue.PushGate
