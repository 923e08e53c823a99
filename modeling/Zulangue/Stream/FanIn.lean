import Mathlib.Algebra.GroupWithZero.Nat
import Zulangue.Lib.Interleave
import Zulangue.Lib.Runs

/-!
# The collector's event fan-in

`FairTaggedEventQueue` of `vt-ffi/src/notebook_capture_api.rs`, between the forwarders of
the lanes, the discontinuity reports and the collector. `recv` is modelled one channel
operation at a time: each `try_recv`, each `is_closed` guard of the select and each poll of
a branch is a step of its own, and the senders act between any two of them.
-/

namespace Zulangue.Stream

structure TaggedStreamEvent (ε : Type*) where
  laneIndex : Nat
  event : ε
  deriving DecidableEq, Repr

/-- The events of one lane, in their order. -/
def ofLane {ε : Type*} (lane : Nat) (events : List (TaggedStreamEvent ε)) :
    List (TaggedStreamEvent ε) :=
  events.filter fun tagged => tagged.laneIndex = lane

structure FairTaggedEventQueue (ε : Type*) where
  pending : List (List (TaggedStreamEvent ε))
  pendingCount : Nat
  pendingLimit : Nat
  nextLane : Nat
  deriving DecidableEq, Repr

namespace FairTaggedEventQueue

variable {ε : Type*}

def new (laneCount pendingLimit : Nat) : FairTaggedEventQueue ε where
  pending := List.replicate laneCount []
  pendingCount := 0
  pendingLimit := max pendingLimit 1
  nextLane := 0

/-- An event of a lane that does not exist comes back. -/
def enqueue (q : FairTaggedEventQueue ε) (tagged : TaggedStreamEvent ε) :
    Except (TaggedStreamEvent ε) (FairTaggedEventQueue ε) :=
  match q.pending[tagged.laneIndex]? with
  | none => .error tagged
  | some queue =>
    .ok { q with
      pending := q.pending.set tagged.laneIndex (queue ++ [tagged])
      pendingCount := q.pendingCount + 1 }

/-- The turn of one lane in `pop_round_robin`. -/
def popLane (q : FairTaggedEventQueue ε) (laneIndex : Nat) :
    Option (TaggedStreamEvent ε × FairTaggedEventQueue ε) :=
  match q.pending[laneIndex]? with
  | some (tagged :: queue) =>
    some (tagged, { q with
      pending := q.pending.set laneIndex queue
      pendingCount := q.pendingCount - 1
      nextLane := (laneIndex + 1) % q.pending.length })
  | _ => none

def popRoundRobin (q : FairTaggedEventQueue ε) :
    Option (TaggedStreamEvent ε × FairTaggedEventQueue ε) :=
  if q.pendingCount = 0 ∨ q.pending.isEmpty then none
  else (List.range q.pending.length).findSome? fun offset =>
    q.popLane ((q.nextLane + offset) % q.pending.length)

/-! ## What the queue keeps -/

/-- What waits in the queue of one lane. -/
def staged (q : FairTaggedEventQueue ε) (lane : Nat) : List (TaggedStreamEvent ε) :=
  q.pending[lane]?.getD []

/-- How many lanes have their turn before this one. -/
def turnsBefore (q : FairTaggedEventQueue ε) (lane : Nat) : Nat :=
  (lane + q.pending.length - q.nextLane) % q.pending.length

structure Valid (laneCount : Nat) (q : FairTaggedEventQueue ε) : Prop where
  lanes : q.pending.length = laneCount
  count : q.pendingCount = (q.pending.map List.length).sum
  positive : 0 < q.pendingLimit
  next : 0 < laneCount → q.nextLane < laneCount
  tagged : ∀ lane, ∀ t ∈ q.staged lane, t.laneIndex = lane

variable {laneCount : Nat} {q : FairTaggedEventQueue ε}

theorem valid_new (laneCount pendingLimit : Nat) :
    (new laneCount pendingLimit : FairTaggedEventQueue ε).Valid laneCount := by
  have hstaged : ∀ lane, (new laneCount pendingLimit : FairTaggedEventQueue ε).staged lane = [] := by
    intro lane
    simp only [staged, new, List.getElem?_replicate]
    split <;> rfl
  constructor
  · exact List.length_replicate
  · simp [new]
  · exact Nat.lt_of_lt_of_le Nat.zero_lt_one (Nat.le_max_right _ _)
  · exact id
  · intro lane t ht
    rw [hstaged] at ht
    cases ht

theorem staged_set (q : FairTaggedEventQueue ε) {lane : Nat} (hlane : lane < q.pending.length)
    (queue : List (TaggedStreamEvent ε)) (other : Nat) :
    (q.pending.set lane queue)[other]?.getD [] = if other = lane then queue else q.staged other := by
  split
  · next heq => rw [heq, List.getElem?_set_self hlane, Option.getD_some]
  · next hne => rw [List.getElem?_set_ne (Ne.symm hne), staged]

theorem staged_of_lt {lane : Nat} (h : lane < q.pending.length) :
    q.pending[lane]? = some (q.staged lane) := by
  rw [staged, List.getElem?_eq_getElem h, Option.getD_some]

theorem sum_length_set {l : List (List (TaggedStreamEvent ε))} {lane : Nat}
    (hlane : lane < l.length) (queue : List (TaggedStreamEvent ε)) :
    ((l.set lane queue).map List.length).sum + (l[lane]?.getD []).length =
      (l.map List.length).sum + queue.length := by
  induction l generalizing lane with
  | nil => cases hlane
  | cons first rest ih =>
    cases lane with
    | zero =>
      simp only [List.set_cons_zero, List.map_cons, List.sum_cons, List.getElem?_cons_zero,
        Option.getD_some]
      omega
    | succ lane =>
      have hrest := ih (Nat.lt_of_succ_lt_succ hlane)
      simp only [List.set_cons_succ, List.map_cons, List.sum_cons, List.getElem?_cons_succ]
      omega

theorem length_staged_le (lane : Nat) (l : List (List (TaggedStreamEvent ε))) :
    (l[lane]?.getD []).length ≤ (l.map List.length).sum := by
  induction l generalizing lane with
  | nil => exact Nat.zero_le _
  | cons first rest ih =>
    cases lane with
    | zero =>
      simp only [List.getElem?_cons_zero, Option.getD_some, List.map_cons, List.sum_cons]
      omega
    | succ lane =>
      have hrest := ih lane
      simp only [List.getElem?_cons_succ, List.map_cons, List.sum_cons]
      omega

theorem Valid.staged_nil (hq : q.Valid laneCount) (hcount : q.pendingCount = 0) (lane : Nat) :
    q.staged lane = [] := by
  have hle := length_staged_le lane q.pending
  rw [← hq.count, hcount] at hle
  exact List.eq_nil_of_length_eq_zero (Nat.le_zero.mp hle)

theorem Valid.lane_of_staged (hq : q.Valid laneCount) {lane : Nat} (h : q.staged lane ≠ []) :
    lane < laneCount := by
  rw [← hq.lanes]
  by_contra hout
  exact h (by rw [staged, List.getElem?_eq_none (by omega)]; rfl)

theorem Valid.enqueue (hq : q.Valid laneCount) {tagged : TaggedStreamEvent ε}
    (hlane : tagged.laneIndex < laneCount) :
    ∃ q', q.enqueue tagged = .ok q' ∧ q'.Valid laneCount ∧ q'.nextLane = q.nextLane ∧
      q'.pendingCount = q.pendingCount + 1 ∧
      ∀ lane, q'.staged lane = q.staged lane ++ if lane = tagged.laneIndex then [tagged] else [] := by
  have hlt : tagged.laneIndex < q.pending.length := hq.lanes ▸ hlane
  have hstaged : ∀ lane, (q.pending.set tagged.laneIndex
      (q.staged tagged.laneIndex ++ [tagged]))[lane]?.getD [] =
      q.staged lane ++ if lane = tagged.laneIndex then [tagged] else [] := by
    intro lane
    rw [staged_set q hlt]
    split
    · next heq => rw [heq]
    · exact (List.append_nil _).symm
  refine ⟨{ q with
      pending := q.pending.set tagged.laneIndex (q.staged tagged.laneIndex ++ [tagged])
      pendingCount := q.pendingCount + 1 }, ?_, ?_, rfl, rfl, hstaged⟩
  · rw [FairTaggedEventQueue.enqueue, staged_of_lt hlt]
  · constructor
    · exact List.length_set.trans hq.lanes
    · have hsum := sum_length_set hlt (q.staged tagged.laneIndex ++ [tagged])
      have hcount := hq.count
      rw [List.length_append, List.length_singleton, ← staged] at hsum
      simp only
      omega
    · exact hq.positive
    · exact hq.next
    · intro lane t ht
      rw [staged, hstaged] at ht
      rcases List.mem_append.mp ht with hold | hnew
      · exact hq.tagged lane t hold
      · split at hnew
        · next heq => rw [List.mem_singleton.mp hnew, heq]
        · cases hnew

/-! ## Whose turn it is -/

theorem offset_of_lane {n next lane : Nat} (hnext : next < n) (hlane : lane < n) :
    (next + (lane + n - next) % n) % n = lane := by
  by_cases h : next ≤ lane
  · have hsub : lane + n - next = lane - next + n := by omega
    rw [hsub, Nat.add_mod_right, Nat.mod_eq_of_lt (by omega : lane - next < n)]
    have hadd : next + (lane - next) = lane := by omega
    rw [hadd, Nat.mod_eq_of_lt hlane]
  · rw [Nat.mod_eq_of_lt (by omega : lane + n - next < n)]
    have hadd : next + (lane + n - next) = lane + n := by omega
    rw [hadd, Nat.add_mod_right, Nat.mod_eq_of_lt hlane]

theorem lane_of_offset {n next offset : Nat} (hnext : next < n) (hoffset : offset < n) :
    ((next + offset) % n + n - next) % n = offset := by
  by_cases h : next + offset < n
  · have hsub : next + offset + n - next = offset + n := by omega
    rw [Nat.mod_eq_of_lt h, hsub, Nat.add_mod_right, Nat.mod_eq_of_lt hoffset]
  · have hmod : (next + offset) % n = next + offset - n := by
      rw [Nat.mod_eq_sub_mod (by omega), Nat.mod_eq_of_lt (by omega)]
    have hsub : next + offset - n + n - next = offset := by omega
    rw [hmod, hsub, Nat.mod_eq_of_lt hoffset]

/-- The first offset of a range at which a function answers. -/
theorem findSome?_range {β : Type*} {f : Nat → Option β} {n : Nat} {b : β}
    (h : (List.range n).findSome? f = some b) :
    ∃ offset, offset < n ∧ f offset = some b ∧ ∀ earlier, earlier < offset → f earlier = none := by
  obtain ⟨before, offset, after, hrange, hoffset, hnone⟩ := List.findSome?_eq_some_iff.mp h
  have hlength : before.length < n := by
    have hall := congrArg List.length hrange
    simp only [List.length_range, List.length_append, List.length_cons] at hall
    omega
  have hat : ∀ i, i ≤ before.length → (before ++ offset :: after)[i]? = some i := by
    intro i hi
    rw [← hrange]
    exact List.getElem?_range (by omega)
  have heq : offset = before.length := by
    have hmid := hat before.length (Nat.le_refl _)
    rw [List.getElem?_append_right (Nat.le_refl _), Nat.sub_self] at hmid
    exact Option.some.inj hmid
  refine ⟨offset, by omega, hoffset, fun earlier hearlier => hnone earlier ?_⟩
  have hin := hat earlier (by omega)
  rw [List.getElem?_append_left (by omega)] at hin
  exact List.mem_of_getElem? hin

theorem Valid.popLane (hq : q.Valid laneCount) {lane : Nat} {t : TaggedStreamEvent ε}
    {q' : FairTaggedEventQueue ε} (h : q.popLane lane = some (t, q')) :
    t.laneIndex = lane ∧ lane < laneCount ∧ q'.Valid laneCount ∧
      q.staged lane = t :: q'.staged lane ∧ (∀ other, other ≠ lane → q'.staged other = q.staged other) ∧
      q.pendingCount = q'.pendingCount + 1 ∧ q'.nextLane = (lane + 1) % laneCount := by
  rw [FairTaggedEventQueue.popLane] at h
  split at h
  · next tagged queue hlane =>
    obtain ⟨rfl, rfl⟩ := Prod.mk.inj (Option.some.inj h)
    obtain ⟨hlt, _⟩ := List.getElem?_eq_some_iff.mp hlane
    have hstaged : q.staged lane = tagged :: queue := by rw [staged, hlane, Option.getD_some]
    have hset := staged_set q hlt queue
    have hsum := sum_length_set hlt queue
    rw [hlane, Option.getD_some, List.length_cons, ← hq.count] at hsum
    refine ⟨hq.tagged lane tagged (by rw [hstaged]; exact List.mem_cons_self), hq.lanes ▸ hlt,
      ?_, ?_, ?_, ?_, ?_⟩
    · constructor
      · exact List.length_set.trans hq.lanes
      · simp only
        omega
      · exact hq.positive
      · intro hpos
        rw [hq.lanes]
        exact Nat.mod_lt _ hpos
      · intro other t ht
        rw [staged, hset] at ht
        split at ht
        · next heq =>
          rw [heq]
          exact hq.tagged lane t (by rw [hstaged]; exact List.mem_cons_of_mem _ ht)
        · exact hq.tagged other t ht
    · rw [hstaged, staged, hset, if_pos rfl]
    · intro other hne
      rw [staged, hset, if_neg hne]
    · simp only
      omega
    · rw [hq.lanes]
  · cases h

theorem Valid.popRoundRobin_none (hq : q.Valid laneCount) :
    q.popRoundRobin = none ↔ q.pendingCount = 0 := by
  constructor
  · intro hnone
    rw [popRoundRobin] at hnone
    split at hnone
    · next hempty =>
      rcases hempty with hzero | hnil
      · exact hzero
      · rw [hq.count, List.isEmpty_iff.mp hnil]
        rfl
    · rw [List.findSome?_eq_none_iff] at hnone
      have hlanes : ∀ queue ∈ q.pending, queue.length = 0 := by
        intro queue hqueue
        obtain ⟨lane, hlane, rfl⟩ := List.mem_iff_getElem.mp hqueue
        have hpos : 0 < laneCount := by have := hq.lanes; omega
        have hn := hq.next hpos
        rw [← hq.lanes] at hn
        have hturn := hnone ((lane + q.pending.length - q.nextLane) % q.pending.length)
          (List.mem_range.mpr (Nat.mod_lt _ (by omega)))
        rw [offset_of_lane hn hlane, FairTaggedEventQueue.popLane, List.getElem?_eq_getElem hlane]
          at hturn
        cases hcase : q.pending[lane] with
        | nil => rfl
        | cons t rest =>
          rw [hcase] at hturn
          cases hturn
      rw [hq.count, List.sum_eq_zero_iff_forall_eq_nat]
      intro length hlength
      obtain ⟨queue, hqueue, rfl⟩ := List.mem_map.mp hlength
      exact hlanes queue hqueue
  · intro hzero
    rw [popRoundRobin, if_pos (.inl hzero)]

/-- The lane whose turn comes first among those with staged work. -/
theorem Valid.popRoundRobin_some (hq : q.Valid laneCount) {t : TaggedStreamEvent ε}
    {q' : FairTaggedEventQueue ε} (h : q.popRoundRobin = some (t, q')) :
    q.popLane t.laneIndex = some (t, q') ∧
      ∀ lane, q.staged lane ≠ [] → q.turnsBefore t.laneIndex ≤ q.turnsBefore lane := by
  rw [popRoundRobin] at h
  split at h
  · cases h
  · obtain ⟨offset, hoffset, hpop, hearlier⟩ := findSome?_range h
    have hpos : 0 < laneCount := by have := hq.lanes; omega
    have hn := hq.next hpos
    rw [← hq.lanes] at hn
    obtain ⟨hlane, -⟩ := hq.popLane hpop
    rw [← hlane] at hpop
    refine ⟨hpop, fun lane hstaged => ?_⟩
    have hlt : lane < q.pending.length := hq.lanes ▸ hq.lane_of_staged hstaged
    rw [turnsBefore, hlane, lane_of_offset hn hoffset]
    by_contra hless
    have hnone := hearlier _ (Nat.not_le.mp hless)
    rw [turnsBefore, offset_of_lane hn hlt] at hnone
    rw [FairTaggedEventQueue.popLane, staged_of_lt hlt] at hnone
    cases hcase : q.staged lane with
    | nil => exact hstaged hcase
    | cons t rest =>
      rw [hcase] at hnone
      cases hnone

/-- After the turn of a lane before it, a lane is nearer to its own. -/
theorem turnsBefore_popped {q' : FairTaggedEventQueue ε} (hq : q.Valid laneCount)
    (hq' : q'.Valid laneCount) {popped lane : Nat} (hpopped : popped < laneCount)
    (hlane : lane < laneCount) (hne : popped ≠ lane)
    (hle : q.turnsBefore popped ≤ q.turnsBefore lane)
    (hnext : q'.nextLane = (popped + 1) % laneCount) :
    q'.turnsBefore lane < q.turnsBefore lane := by
  have hn := hq.next (Nat.zero_lt_of_lt hlane)
  rw [turnsBefore, turnsBefore, hq.lanes] at hle
  rw [turnsBefore, turnsBefore, hq.lanes, hq'.lanes, hnext]
  generalize q.nextLane = next at *
  -- a wrap at the end of the lanes, on either side, is the only case distinction
  have reduce : ∀ a, a < laneCount → (a + laneCount - next) % laneCount =
      if next ≤ a then a - next else a + laneCount - next := by
    intro a ha
    split
    · have hsub : a + laneCount - next = a - next + laneCount := by omega
      rw [hsub, Nat.add_mod_right, Nat.mod_eq_of_lt (by omega)]
    · exact Nat.mod_eq_of_lt (by omega)
  have reduceNext : (popped + 1) % laneCount =
      if popped + 1 = laneCount then 0 else popped + 1 := by
    split
    · next heq => rw [heq, Nat.mod_self]
    · exact Nat.mod_eq_of_lt (by omega)
  rw [reduce popped hpopped, reduce lane hlane] at hle
  rw [reduce lane hlane, reduceNext]
  by_cases hlast : popped + 1 = laneCount
  · rw [if_pos hlast, Nat.sub_zero, Nat.add_mod_right, Nat.mod_eq_of_lt hlane]
    split at hle <;> split at hle <;> split <;> omega
  · rw [if_neg hlast]
    by_cases hafter : popped + 1 ≤ lane
    · have hsub : lane + laneCount - (popped + 1) = lane - (popped + 1) + laneCount := by omega
      rw [hsub, Nat.add_mod_right, Nat.mod_eq_of_lt (by omega)]
      split at hle <;> split at hle <;> split <;> omega
    · rw [Nat.mod_eq_of_lt (by omega)]
      split at hle <;> split at hle <;> split <;> omega

end FairTaggedEventQueue

/-! ## One capture's channels -/

/-- Where `recv` stands. `busy` is the collector outside of it; the two flags are the
branches that the guards of the select left enabled. -/
inductive RecvPhase where
  | busy
  | tryDiscontinuities
  | tryEvents
  | pop
  | guardDiscontinuities
  | guardEvents (discontinuityBranch : Bool)
  | pollDiscontinuities (discontinuityBranch eventBranch : Bool)
  | pollEvents (discontinuityBranch eventBranch : Bool)
  | parked (discontinuityBranch eventBranch : Bool)
  | returnedNone
  deriving DecidableEq, Repr

/-- `forwarders` are the lanes whose forwarder still holds a sender of the data channel.
The last three fields record what the senders sent and what the collector was handed; the
program does not read them. -/
structure EventFanIn (ε : Type*) where
  fair : FairTaggedEventQueue ε
  events : List (TaggedStreamEvent ε)
  discontinuities : List (TaggedStreamEvent ε)
  forwarders : List Nat
  discontinuityTx : Bool
  phase : RecvPhase
  sentEvents : List (TaggedStreamEvent ε)
  sentDiscontinuities : List (TaggedStreamEvent ε)
  handed : List (TaggedStreamEvent ε)
  deriving DecidableEq, Repr

inductive FanInAction (ε : Type*) where
  | send (tagged : TaggedStreamEvent ε)
  | endForwarder (lane : Nat)
  | report (tagged : TaggedStreamEvent ε)
  | dropDiscontinuityTx
  | recv
  deriving DecidableEq, Repr

namespace EventFanIn

variable {ε : Type*}

def start (laneCount pendingLimit : Nat) : EventFanIn ε where
  fair := .new laneCount pendingLimit
  events := []
  discontinuities := []
  forwarders := List.range laneCount
  discontinuityTx := true
  phase := .busy
  sentEvents := []
  sentDiscontinuities := []
  handed := []

/-- An event taken from a channel: staged, and the loop goes round; one of a lane that does
not exist goes to the collector at once. -/
def stage (s : EventFanIn ε) (tagged : TaggedStreamEvent ε) : EventFanIn ε :=
  match s.fair.enqueue tagged with
  | .ok fair => { s with fair, phase := .tryDiscontinuities }
  | .error invalid => { s with phase := .busy, handed := s.handed ++ [invalid] }

/-- Whether an enabled branch of the select has something to answer. -/
def discontinuityReady (s : EventFanIn ε) : Bool :=
  !s.discontinuities.isEmpty || !s.discontinuityTx

def eventReady (s : EventFanIn ε) : Bool :=
  !s.events.isEmpty || s.forwarders.isEmpty

/-- The next operation of the collector's task; `none` while it waits or when it is done. -/
def recvStep (s : EventFanIn ε) : Option (EventFanIn ε) :=
  match s.phase with
  | .busy => some { s with phase := .tryDiscontinuities }
  | .tryDiscontinuities =>
    if s.fair.pendingCount < s.fair.pendingLimit then
      match s.discontinuities with
      | tagged :: rest => some ({ s with discontinuities := rest }.stage tagged)
      | [] => some { s with phase := .tryEvents }
    else some { s with phase := .pop }
  | .tryEvents =>
    match s.events with
    | tagged :: rest => some ({ s with events := rest }.stage tagged)
    | [] => some { s with phase := .pop }
  | .pop =>
    match s.fair.popRoundRobin with
    | some (tagged, fair) =>
      some { s with fair, phase := .busy, handed := s.handed ++ [tagged] }
    | none => some { s with phase := .guardDiscontinuities }
  | .guardDiscontinuities => some { s with phase := .guardEvents s.discontinuityTx }
  | .guardEvents discontinuityBranch =>
    let eventBranch := !s.forwarders.isEmpty
    if discontinuityBranch || eventBranch then
      some { s with phase := .pollDiscontinuities discontinuityBranch eventBranch }
    else some { s with phase := .returnedNone }
  | .pollDiscontinuities discontinuityBranch eventBranch =>
    if discontinuityBranch then
      match s.discontinuities with
      | tagged :: rest => some ({ s with discontinuities := rest }.stage tagged)
      | [] =>
        if s.discontinuityTx then some { s with phase := .pollEvents discontinuityBranch eventBranch }
        else some { s with phase := .returnedNone }
    else some { s with phase := .pollEvents discontinuityBranch eventBranch }
  | .pollEvents discontinuityBranch eventBranch =>
    if eventBranch then
      match s.events with
      | tagged :: rest => some ({ s with events := rest }.stage tagged)
      | [] =>
        if s.forwarders.isEmpty then some { s with phase := .returnedNone }
        else some { s with phase := .parked discontinuityBranch eventBranch }
    else some { s with phase := .parked discontinuityBranch eventBranch }
  | .parked discontinuityBranch eventBranch =>
    if discontinuityBranch && s.discontinuityReady || eventBranch && s.eventReady then
      some { s with phase := .pollDiscontinuities discontinuityBranch eventBranch }
    else none
  | .returnedNone => none

/-- One step of a sender or of the collector. The receivers are gone once the collector has
seen `None`, and the data channel holds at most `capacity` events. -/
def step (capacity : Nat) (s : EventFanIn ε) : FanInAction ε → Option (EventFanIn ε)
  | .send tagged =>
    if tagged.laneIndex ∈ s.forwarders ∧ s.events.length < capacity ∧ s.phase ≠ .returnedNone then
      some { s with events := s.events ++ [tagged], sentEvents := s.sentEvents ++ [tagged] }
    else none
  | .endForwarder lane =>
    if lane ∈ s.forwarders then some { s with forwarders := s.forwarders.erase lane } else none
  | .report tagged =>
    if tagged.laneIndex < s.fair.pending.length ∧ s.discontinuityTx ∧ s.phase ≠ .returnedNone then
      some { s with
        discontinuities := s.discontinuities ++ [tagged]
        sentDiscontinuities := s.sentDiscontinuities ++ [tagged] }
    else none
  | .dropDiscontinuityTx =>
    if s.discontinuityTx then some { s with discontinuityTx := false } else none
  | .recv => s.recvStep

end EventFanIn

end Zulangue.Stream
