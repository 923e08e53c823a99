import Zulangue.Stream.FanIn

/-!
# Runs of the fan-in

What `recv` does to the events sent, in whatever order the senders and the collector act:
nothing is lost, doubled or reordered on the way (`exact_step`), and no lane waits longer
than a round (`turns_step`). Whether `recv` ends at the right moment depends on when the
channels close; `Attentive` says when it does.
-/

namespace Zulangue.Stream

open Zulangue.Lib

namespace EventFanIn

variable {ε : Type*} {s s' : EventFanIn ε} {capacity laneCount : Nat}

/-! ## What one step of the collector can do -/

/-- The moves of `recv` that touch no event. -/
inductive RecvMove (s : EventFanIn ε) : RecvPhase → RecvPhase → Prop
  | call : RecvMove s .busy .tryDiscontinuities
  | noDiscontinuity : s.discontinuities = [] → RecvMove s .tryDiscontinuities .tryEvents
  | full : ¬ s.fair.pendingCount < s.fair.pendingLimit → RecvMove s .tryDiscontinuities .pop
  | noEvent : s.events = [] → RecvMove s .tryEvents .pop
  | nothingStaged : s.fair.popRoundRobin = none → RecvMove s .pop .guardDiscontinuities
  | guard : RecvMove s .guardDiscontinuities (.guardEvents s.discontinuityTx)
  | select (d : Bool) : (d || !s.forwarders.isEmpty) = true →
      RecvMove s (.guardEvents d) (.pollDiscontinuities d !s.forwarders.isEmpty)
  | allDisabled : s.forwarders = [] → RecvMove s (.guardEvents false) .returnedNone
  | discontinuityPending (e : Bool) : s.discontinuities = [] → s.discontinuityTx = true →
      RecvMove s (.pollDiscontinuities true e) (.pollEvents true e)
  | discontinuityDisabled (e : Bool) :
      RecvMove s (.pollDiscontinuities false e) (.pollEvents false e)
  | discontinuitiesClosed (e : Bool) : s.discontinuities = [] → s.discontinuityTx = false →
      RecvMove s (.pollDiscontinuities true e) .returnedNone
  | eventPending (d : Bool) : s.events = [] → s.forwarders ≠ [] →
      RecvMove s (.pollEvents d true) (.parked d true)
  | eventDisabled (d : Bool) : RecvMove s (.pollEvents d false) (.parked d false)
  | eventsClosed (d : Bool) : s.events = [] → s.forwarders = [] →
      RecvMove s (.pollEvents d true) .returnedNone
  | wake (d e : Bool) : (d && s.discontinuityReady || e && s.eventReady) = true →
      RecvMove s (.parked d e) (.pollDiscontinuities d e)

inductive RecvStep (s : EventFanIn ε) : EventFanIn ε → Prop
  | move {p : RecvPhase} : RecvMove s s.phase p → RecvStep s { s with phase := p }
  | takeDiscontinuity {t : TaggedStreamEvent ε} {rest : List (TaggedStreamEvent ε)} :
      s.discontinuities = t :: rest →
      (s.phase = .tryDiscontinuities ∨ ∃ e, s.phase = .pollDiscontinuities true e) →
      RecvStep s ({ s with discontinuities := rest }.stage t)
  | takeEvent {t : TaggedStreamEvent ε} {rest : List (TaggedStreamEvent ε)} :
      s.events = t :: rest → (s.phase = .tryEvents ∨ ∃ d, s.phase = .pollEvents d true) →
      RecvStep s ({ s with events := rest }.stage t)
  | hand {t : TaggedStreamEvent ε} {fair : FairTaggedEventQueue ε} : s.phase = .pop →
      s.fair.popRoundRobin = some (t, fair) →
      RecvStep s { s with fair, phase := .busy, handed := s.handed ++ [t] }

theorem recvStep_cases (h : s.recvStep = some s') : RecvStep s s' := by
  have move : ∀ {from_ p : RecvPhase}, s.phase = from_ → RecvMove s from_ p →
      some { s with phase := p } = some s' → RecvStep s s' := by
    intro from_ p hphase hmove hs
    rw [← Option.some.inj hs]
    exact .move (hphase ▸ hmove)
  rw [recvStep] at h
  split at h
  · next hphase => exact move hphase .call h
  · next hphase =>
    split at h
    · split at h
      · next hd =>
        rw [← Option.some.inj h]
        exact .takeDiscontinuity hd (.inl hphase)
      · next hd => exact move hphase (.noDiscontinuity hd) h
    · next hfull => exact move hphase (.full hfull) h
  · next hphase =>
    split at h
    · next he =>
      rw [← Option.some.inj h]
      exact .takeEvent he (.inl hphase)
    · next he => exact move hphase (.noEvent he) h
  · next hphase =>
    split at h
    · next hpop =>
      rw [← Option.some.inj h]
      exact .hand hphase hpop
    · next hpop => exact move hphase (.nothingStaged hpop) h
  · next hphase => exact move hphase .guard h
  · next d hphase =>
    simp only at h
    split at h
    · next hany => exact move hphase (.select d hany) h
    · next hnone =>
      obtain ⟨rfl, hforwarders⟩ : d = false ∧ s.forwarders = [] := by simpa using hnone
      exact move hphase (.allDisabled hforwarders) h
  · next d e hphase =>
    split at h
    · next hd =>
      subst hd
      split at h
      · next hdisc =>
        rw [← Option.some.inj h]
        exact .takeDiscontinuity hdisc (.inr ⟨e, hphase⟩)
      · next hdisc =>
        split at h
        · next htx => exact move hphase (.discontinuityPending e hdisc htx) h
        · next htx =>
          exact move hphase (.discontinuitiesClosed e hdisc (Bool.eq_false_iff.mpr htx)) h
    · next hd =>
      obtain rfl := Bool.eq_false_iff.mpr hd
      exact move hphase (.discontinuityDisabled e) h
  · next d e hphase =>
    split at h
    · next he =>
      subst he
      split at h
      · next hev =>
        rw [← Option.some.inj h]
        exact .takeEvent hev (.inr ⟨d, hphase⟩)
      · next hev =>
        split at h
        · next hclosed => exact move hphase (.eventsClosed d hev (List.isEmpty_iff.mp hclosed)) h
        · next hopen =>
          exact move hphase (.eventPending d hev fun hnil => hopen (List.isEmpty_iff.mpr hnil)) h
    · next he =>
      obtain rfl := Bool.eq_false_iff.mpr he
      exact move hphase (.eventDisabled d) h
  · next d e hphase =>
    split at h
    · next hready => exact move hphase (.wake d e hready) h
    · cases h
  · cases h

/-! ## What every reachable state keeps -/

end EventFanIn

namespace RecvPhase

/-- `recv` found nothing staged and has not started over. -/
def pastPop : RecvPhase → Bool
  | .guardDiscontinuities | .guardEvents _ | .pollDiscontinuities _ _ | .pollEvents _ _
  | .parked _ _ | .returnedNone => true
  | _ => false

/-- A guard of the select has disabled the discontinuity branch. -/
def discontinuitiesDisabled : RecvPhase → Bool
  | .guardEvents d | .pollDiscontinuities d _ | .pollEvents d _ | .parked d _ => !d
  | _ => false

def eventsDisabled : RecvPhase → Bool
  | .pollDiscontinuities _ e | .pollEvents _ e | .parked _ e => !e
  | _ => false

/-- `recv` stands in its select with the event branch enabled. -/
def awaitsEvents : RecvPhase → Bool
  | .pollDiscontinuities _ e | .pollEvents _ e | .parked _ e => e
  | _ => false

end RecvPhase

namespace EventFanIn

variable {ε : Type*} {s s' : EventFanIn ε} {capacity laneCount : Nat}

/-- Every event sent is in its channel, staged or handed over, once and in its place. -/
def Exact (s : EventFanIn ε) : Prop :=
  ∃ takenEvents takenDiscontinuities,
    s.sentEvents = takenEvents ++ s.events ∧
    s.sentDiscontinuities = takenDiscontinuities ++ s.discontinuities ∧
    ∀ lane, Interleaves (ofLane lane takenEvents) (ofLane lane takenDiscontinuities)
      (ofLane lane s.handed ++ s.fair.staged lane)

structure Kept (laneCount : Nat) (s : EventFanIn ε) : Prop where
  valid : s.fair.Valid laneCount
  eventLanes : ∀ t ∈ s.events, t.laneIndex < laneCount
  discontinuityLanes : ∀ t ∈ s.discontinuities, t.laneIndex < laneCount
  forwarderLanes : ∀ lane ∈ s.forwarders, lane < laneCount
  emptied : s.phase.pastPop = true → s.fair.pendingCount = 0
  discontinuitiesClosed : s.phase.discontinuitiesDisabled = true → s.discontinuityTx = false
  eventsClosed : s.phase.eventsDisabled = true → s.forwarders = []
  listens : s.phase.eventsDisabled = true → s.phase.discontinuitiesDisabled = false
  exact : s.Exact

theorem kept_start (laneCount pendingLimit : Nat) :
    (start laneCount pendingLimit : EventFanIn ε).Kept laneCount := by
  have hvalid : (FairTaggedEventQueue.new laneCount pendingLimit :
      FairTaggedEventQueue ε).Valid laneCount :=
    FairTaggedEventQueue.valid_new laneCount pendingLimit
  constructor
  · exact hvalid
  · intro t ht
    cases ht
  · intro t ht
    cases ht
  · intro lane hlane
    exact List.mem_range.mp hlane
  · intro h
    cases h
  · intro h
    cases h
  · intro h
    cases h
  · intro h
    cases h
  · refine ⟨[], [], rfl, rfl, fun lane => ?_⟩
    rw [start, hvalid.staged_nil rfl]
    exact .nil

theorem ofLane_append (lane : Nat) (a b : List (TaggedStreamEvent ε)) :
    ofLane lane (a ++ b) = ofLane lane a ++ ofLane lane b :=
  List.filter_append a b

theorem ofLane_singleton (lane : Nat) (t : TaggedStreamEvent ε) :
    ofLane lane [t] = if lane = t.laneIndex then [t] else [] := by
  by_cases h : lane = t.laneIndex
  · simp [ofLane, h]
  · simp [ofLane, h, Ne.symm h]

/-- Staging an event of a lane that exists. -/
theorem stage_eq (hvalid : s.fair.Valid laneCount) {t : TaggedStreamEvent ε}
    (hlane : t.laneIndex < laneCount) :
    ∃ fair, s.stage t = { s with fair, phase := .tryDiscontinuities } ∧ fair.Valid laneCount ∧
      fair.nextLane = s.fair.nextLane ∧ fair.pendingCount = s.fair.pendingCount + 1 ∧
      ∀ lane, fair.staged lane = s.fair.staged lane ++ ofLane lane [t] := by
  obtain ⟨fair, henqueue, hfair, hnext, hcount, hstaged⟩ := hvalid.enqueue hlane
  refine ⟨fair, by rw [stage, henqueue], hfair, hnext, hcount, fun lane => ?_⟩
  rw [hstaged, ofLane_singleton]

theorem Kept.takeDiscontinuity (hs : s.Kept laneCount) {t : TaggedStreamEvent ε}
    {rest : List (TaggedStreamEvent ε)} (ht : s.discontinuities = t :: rest) :
    ({ s with discontinuities := rest }.stage t).Kept laneCount := by
  have hlanes := hs.discontinuityLanes
  rw [ht] at hlanes
  obtain ⟨fair, heq, hfair, -, -, hstaged⟩ := stage_eq (s := { s with discontinuities := rest })
    hs.valid (hlanes t List.mem_cons_self)
  rw [heq]
  constructor
  · exact hfair
  · exact hs.eventLanes
  · exact fun other hother => hlanes other (List.mem_cons_of_mem t hother)
  · exact hs.forwarderLanes
  · intro h
    cases h
  · intro h
    cases h
  · intro h
    cases h
  · intro h
    cases h
  · obtain ⟨takenEvents, takenDiscontinuities, hevents, hdiscontinuities, hlane⟩ := hs.exact
    refine ⟨takenEvents, takenDiscontinuities ++ [t], hevents, ?_, fun lane => ?_⟩
    · rw [List.append_assoc, List.singleton_append, ← ht]
      exact hdiscontinuities
    · simp only [hstaged, ofLane_append, ofLane_singleton]
      split
      · rw [← List.append_assoc]
        exact (hlane lane).snoc_right t
      · rw [List.append_nil, List.append_nil]
        exact hlane lane

theorem Kept.takeEvent (hs : s.Kept laneCount) {t : TaggedStreamEvent ε}
    {rest : List (TaggedStreamEvent ε)} (ht : s.events = t :: rest) :
    ({ s with events := rest }.stage t).Kept laneCount := by
  have hlanes := hs.eventLanes
  rw [ht] at hlanes
  obtain ⟨fair, heq, hfair, -, -, hstaged⟩ := stage_eq (s := { s with events := rest })
    hs.valid (hlanes t List.mem_cons_self)
  rw [heq]
  constructor
  · exact hfair
  · exact fun other hother => hlanes other (List.mem_cons_of_mem t hother)
  · exact hs.discontinuityLanes
  · exact hs.forwarderLanes
  · intro h
    cases h
  · intro h
    cases h
  · intro h
    cases h
  · intro h
    cases h
  · obtain ⟨takenEvents, takenDiscontinuities, hevents, hdiscontinuities, hlane⟩ := hs.exact
    refine ⟨takenEvents ++ [t], takenDiscontinuities, ?_, hdiscontinuities, fun lane => ?_⟩
    · rw [List.append_assoc, List.singleton_append, ← ht]
      exact hevents
    · simp only [hstaged, ofLane_append, ofLane_singleton]
      split
      · rw [← List.append_assoc]
        exact (hlane lane).snoc_left t
      · rw [List.append_nil, List.append_nil]
        exact hlane lane

theorem Kept.hand (hs : s.Kept laneCount) {t : TaggedStreamEvent ε} {fair : FairTaggedEventQueue ε}
    (hpop : s.fair.popRoundRobin = some (t, fair)) :
    { s with fair, phase := .busy, handed := s.handed ++ [t] }.Kept laneCount := by
  obtain ⟨hlanePop, -⟩ := hs.valid.popRoundRobin_some hpop
  obtain ⟨-, -, hfair, hhead, hothers, -, -⟩ := hs.valid.popLane hlanePop
  constructor
  · exact hfair
  · exact hs.eventLanes
  · exact hs.discontinuityLanes
  · exact hs.forwarderLanes
  · intro h
    cases h
  · intro h
    cases h
  · intro h
    cases h
  · intro h
    cases h
  · obtain ⟨takenEvents, takenDiscontinuities, hevents, hdiscontinuities, hlane⟩ := hs.exact
    refine ⟨takenEvents, takenDiscontinuities, hevents, hdiscontinuities, fun lane => ?_⟩
    have hsame : ofLane lane (s.handed ++ [t]) ++ fair.staged lane =
        ofLane lane s.handed ++ s.fair.staged lane := by
      rw [ofLane_append, ofLane_singleton, List.append_assoc]
      split
      · next heq =>
        subst heq
        rw [hhead]
        rfl
      · next hne =>
        rw [hothers lane hne]
        rfl
    simp only [hsame]
    exact hlane lane

theorem Kept.move (hs : s.Kept laneCount) {p : RecvPhase} (hmove : RecvMove s s.phase p) :
    { s with phase := p }.Kept laneCount := by
  have hempty : s.fair.popRoundRobin = none → s.fair.pendingCount = 0 :=
    hs.valid.popRoundRobin_none.mp
  obtain ⟨hvalid, hevents, hdiscontinuities, hforwarders, hemptied, htx, hclosed, hlistens,
    hexact⟩ := hs
  generalize s.phase = from_ at hmove hemptied htx hclosed hlistens
  refine ⟨hvalid, hevents, hdiscontinuities, hforwarders, ?_, ?_, ?_, ?_, hexact⟩
  · cases hmove <;> simp_all [RecvPhase.pastPop]
  · cases hmove <;> simp_all [RecvPhase.discontinuitiesDisabled]
  · cases hmove <;> simp_all [RecvPhase.eventsDisabled]
  · cases hmove with
    | select d hany =>
      intro hdisabled
      have hclosed : s.forwarders.isEmpty = true := by simpa [RecvPhase.eventsDisabled] using hdisabled
      rw [hclosed, Bool.not_true, Bool.or_false] at hany
      rw [hany]
      rfl
    | _ => simp_all [RecvPhase.eventsDisabled, RecvPhase.discontinuitiesDisabled]

theorem Kept.recv (hs : s.Kept laneCount) (h : s.recvStep = some s') : s'.Kept laneCount := by
  cases recvStep_cases h with
  | move hmove => exact hs.move hmove
  | takeDiscontinuity ht _ => exact hs.takeDiscontinuity ht
  | takeEvent ht _ => exact hs.takeEvent ht
  | hand _ hpop => exact hs.hand hpop

theorem Kept.step (hs : s.Kept laneCount) {action : FanInAction ε}
    (h : s.step capacity action = some s') : s'.Kept laneCount := by
  cases action with
  | send tagged =>
    obtain ⟨⟨hlane, -, hphase⟩, heq⟩ := Option.ite_none_right_eq_some.mp h
    obtain rfl := Option.some.inj heq
    refine { hs with eventLanes := fun t ht => ?_, exact := ?_ }
    · rcases List.mem_append.mp ht with hold | hnew
      · exact hs.eventLanes t hold
      · rw [List.mem_singleton.mp hnew]
        exact hs.forwarderLanes _ hlane
    · obtain ⟨takenEvents, takenDiscontinuities, hevents, hdiscontinuities, hlane⟩ := hs.exact
      refine ⟨takenEvents, takenDiscontinuities, ?_, hdiscontinuities, hlane⟩
      rw [← List.append_assoc, ← hevents]
  | endForwarder lane =>
    obtain ⟨-, heq⟩ := Option.ite_none_right_eq_some.mp h
    obtain rfl := Option.some.inj heq
    refine { hs with forwarderLanes := fun other hother => ?_, eventsClosed := fun hdisabled => ?_ }
    · exact hs.forwarderLanes other (List.mem_of_mem_erase hother)
    · rw [hs.eventsClosed hdisabled]
      rfl
  | report tagged =>
    obtain ⟨⟨hlane, -, -⟩, heq⟩ := Option.ite_none_right_eq_some.mp h
    obtain rfl := Option.some.inj heq
    refine { hs with discontinuityLanes := fun t ht => ?_, exact := ?_ }
    · rcases List.mem_append.mp ht with hold | hnew
      · exact hs.discontinuityLanes t hold
      · rw [List.mem_singleton.mp hnew]
        exact hs.valid.lanes ▸ hlane
    · obtain ⟨takenEvents, takenDiscontinuities, hevents, hdiscontinuities, hlane⟩ := hs.exact
      refine ⟨takenEvents, takenDiscontinuities, hevents, ?_, hlane⟩
      rw [← List.append_assoc, ← hdiscontinuities]
  | dropDiscontinuityTx =>
    obtain ⟨-, heq⟩ := Option.ite_none_right_eq_some.mp h
    obtain rfl := Option.some.inj heq
    exact { hs with discontinuitiesClosed := fun _ => rfl }
  | recv => exact hs.recv h

/-- The steps of the senders and of the collector, in any order. -/
abbrev Step (capacity : Nat) (s : EventFanIn ε) (action : FanInAction ε) (s' : EventFanIn ε) : Prop :=
  s.step capacity action = some s'

theorem kept_run {pendingLimit : Nat} {actions : List (FanInAction ε)}
    (h : Run (Step capacity) (start laneCount pendingLimit) actions s) : s.Kept laneCount :=
  h.invariant (fun _ _ _ hs hstep => hs.step hstep) (kept_start laneCount pendingLimit)

/-! ## A lane with staged work -/

/-- What one step hands over. Either nothing, and staged work stays in front of its lane's
turn, or the head of the lane whose turn comes first. -/
theorem turns_step (hs : s.Kept laneCount) {action : FanInAction ε}
    (h : s.step capacity action = some s') {lane : Nat} (hstaged : s.fair.staged lane ≠ []) :
    (s'.handed = s.handed ∧ s'.fair.turnsBefore lane = s.fair.turnsBefore lane ∧
        s'.fair.staged lane ≠ []) ∨
      ∃ t, s'.handed = s.handed ++ [t] ∧ (t.laneIndex = lane ∨
        s'.fair.staged lane ≠ [] ∧ s'.fair.turnsBefore lane < s.fair.turnsBefore lane) := by
  have staging : ∀ {t : TaggedStreamEvent ε} {before : EventFanIn ε}, before.fair = s.fair →
      before.handed = s.handed → t.laneIndex < laneCount →
      (before.stage t).handed = s.handed ∧
        (before.stage t).fair.turnsBefore lane = s.fair.turnsBefore lane ∧
        (before.stage t).fair.staged lane ≠ [] := by
    intro t before hfair hhanded ht
    obtain ⟨fair, heq, hvalid, hnext, -, hafter⟩ := stage_eq (hfair ▸ hs.valid) ht
    rw [heq]
    refine ⟨hhanded, ?_, ?_⟩
    · rw [FairTaggedEventQueue.turnsBefore, FairTaggedEventQueue.turnsBefore, hnext, hvalid.lanes,
        ← hs.valid.lanes, hfair]
    · rw [hafter, hfair]
      exact List.append_ne_nil_of_left_ne_nil hstaged _
  cases action with
  | send tagged | endForwarder other | report tagged | dropDiscontinuityTx =>
    obtain ⟨-, heq⟩ := Option.ite_none_right_eq_some.mp h
    obtain rfl := Option.some.inj heq
    exact .inl ⟨rfl, rfl, hstaged⟩
  | recv =>
    cases recvStep_cases h with
    | move => exact .inl ⟨rfl, rfl, hstaged⟩
    | takeDiscontinuity ht =>
      exact .inl (staging rfl rfl (hs.discontinuityLanes _ (by rw [ht]; exact List.mem_cons_self)))
    | takeEvent ht =>
      exact .inl (staging rfl rfl (hs.eventLanes _ (by rw [ht]; exact List.mem_cons_self)))
    | @hand t fair _ hpop =>
      obtain ⟨hlanePop, hfirst⟩ := hs.valid.popRoundRobin_some hpop
      obtain ⟨-, hlt, hfair, -, hothers, -, hnext⟩ := hs.valid.popLane hlanePop
      refine .inr ⟨t, rfl, ?_⟩
      by_cases hlane : t.laneIndex = lane
      · exact .inl hlane
      · have hin := hs.valid.lane_of_staged hstaged
        refine .inr ⟨by rw [hothers lane (Ne.symm hlane)]; exact hstaged, ?_⟩
        exact FairTaggedEventQueue.turnsBefore_popped hs.valid hfair hlt hin hlane
          (hfirst lane hstaged) hnext

theorem handed_step {action : FanInAction ε} (h : s.step capacity action = some s') :
    ∃ served, s'.handed = s.handed ++ served := by
  have staging : ∀ (before : EventFanIn ε) (t : TaggedStreamEvent ε),
      ∃ served, (before.stage t).handed = before.handed ++ served := by
    intro before t
    rw [stage]
    split
    · exact ⟨[], (List.append_nil _).symm⟩
    · next invalid _ => exact ⟨[invalid], rfl⟩
  cases action with
  | recv =>
    cases recvStep_cases h with
    | move => exact ⟨[], (List.append_nil _).symm⟩
    | takeDiscontinuity => exact staging _ _
    | takeEvent => exact staging _ _
    | @hand t => exact ⟨[t], rfl⟩
  | _ =>
    obtain ⟨-, heq⟩ := Option.ite_none_right_eq_some.mp h
    obtain rfl := Option.some.inj heq
    exact ⟨[], (List.append_nil _).symm⟩

/-- Over a whole run: as long as the lane itself is not served, each event handed over
brings its turn nearer. -/
theorem turns_run {actions : List (FanInAction ε)} (hs : s.Kept laneCount)
    (h : Run (Step capacity) s actions s') {lane : Nat} (hstaged : s.fair.staged lane ≠ []) :
    ∃ served, s'.handed = s.handed ++ served ∧
      (ofLane lane served = [] → served.length ≤ s.fair.turnsBefore lane) := by
  induction h with
  | nil s => exact ⟨[], (List.append_nil _).symm, fun _ => Nat.zero_le _⟩
  | @cons s mid s' action actions hstep hrun ih =>
    have hmid : mid.Kept laneCount := hs.step hstep
    rcases turns_step hs hstep hstaged with ⟨hsame, hturn, hstill⟩ | ⟨t, hhanded, hcase⟩
    · obtain ⟨served, hserved, hless⟩ := ih hmid hstill
      exact ⟨served, hsame ▸ hserved, fun hnone => hturn ▸ hless hnone⟩
    · have extends_ : ∃ served, s'.handed = mid.handed ++ served := by
        refine hrun.relates
          (R := fun a b : EventFanIn ε => ∃ served, b.handed = a.handed ++ served)
          (fun a => ⟨[], (List.append_nil _).symm⟩) ?_ ?_
        · rintro a b c ⟨served, hb⟩ ⟨served', hc⟩
          exact ⟨served ++ served', by rw [hc, hb, List.append_assoc]⟩
        · intro a action b hab
          exact handed_step hab
      rcases hcase with hown | ⟨hstill, hnearer⟩
      · obtain ⟨served, hserved⟩ := extends_
        refine ⟨t :: served, by rw [hserved, hhanded, List.append_assoc]; rfl, fun hnone => ?_⟩
        rw [ofLane, List.filter_cons, if_pos (decide_eq_true hown)] at hnone
        cases hnone
      · obtain ⟨served, hserved, hless⟩ := ih hmid hstill
        refine ⟨t :: served, by rw [hserved, hhanded, List.append_assoc]; rfl, fun hnone => ?_⟩
        have hrest : ofLane lane served = [] := by
          rw [ofLane, List.filter_cons] at hnone
          split at hnone
          · cases hnone
          · exact hnone
        have hlength := hless hrest
        rw [List.length_cons]
        omega

/-! ## The collector's own steps end -/

/-- How far a phase is from the next event taken, handed over or waited for. -/
def phaseWork (discontinuityReady eventReady : Bool) : RecvPhase → Nat
  | .busy => 10
  | .tryDiscontinuities => 9
  | .tryEvents => 8
  | .pop => 7
  | .guardDiscontinuities => 6
  | .guardEvents _ => 5
  | .pollDiscontinuities _ _ => 2
  | .pollEvents d e => if d && discontinuityReady && !(e && eventReady) then 4 else 1
  | .parked d e => if d && discontinuityReady || e && eventReady then 3 else 0
  | .returnedNone => 0

/-- Counts down with every step of the collector. Each event has to be taken and handed
over; between two of these `recv` goes once through its phases. -/
def work (s : EventFanIn ε) : Nat :=
  11 * (2 * (s.events.length + s.discontinuities.length) + s.fair.pendingCount) +
    phaseWork s.discontinuityReady s.eventReady s.phase

theorem work_move {p : RecvPhase} (h : RecvMove s s.phase p) : { s with phase := p }.work < s.work := by
  rw [work, work]
  apply Nat.add_lt_add_left
  change phaseWork s.discontinuityReady s.eventReady p < _
  generalize s.phase = from_ at h
  cases h with
  | discontinuityPending e hdisc htx =>
    have hready : s.discontinuityReady = false := by rw [discontinuityReady, hdisc, htx]; rfl
    rw [hready]
    simp [phaseWork]
  | discontinuityDisabled e => simp [phaseWork]
  | eventPending d hevents hopen =>
    have hready : s.eventReady = false := by
      rw [eventReady, hevents, Bool.eq_false_iff.mpr (fun hnil => hopen (List.isEmpty_iff.mp hnil))]
      rfl
    rw [hready]
    cases d <;> cases s.discontinuityReady <;> decide
  | eventDisabled d => cases d <;> cases s.discontinuityReady <;> cases s.eventReady <;> decide
  | eventsClosed d hevents hclosed =>
    cases d <;> cases s.discontinuityReady <;> cases s.eventReady <;> decide
  | wake d e hready =>
    simp only [phaseWork, hready, if_true]
    omega
  | _ => simp [phaseWork]

theorem work_stage (hvalid : s.fair.Valid laneCount) {t : TaggedStreamEvent ε}
    (hlane : t.laneIndex < laneCount) :
    (s.stage t).work =
      11 * (2 * (s.events.length + s.discontinuities.length) + s.fair.pendingCount + 1) + 9 := by
  obtain ⟨fair, heq, -, -, hcount, -⟩ := stage_eq hvalid hlane
  rw [heq, work, phaseWork]
  simp only
  omega

theorem le_work (s : EventFanIn ε) :
    11 * (2 * (s.events.length + s.discontinuities.length) + s.fair.pendingCount) ≤ s.work :=
  Nat.le_add_right _ _

theorem recv_work (hs : s.Kept laneCount) (h : s.recvStep = some s') : s'.work < s.work := by
  have hle := le_work s
  cases recvStep_cases h with
  | move hmove => exact work_move hmove
  | @takeDiscontinuity t rest ht _ =>
    have hlane := hs.discontinuityLanes _ (by rw [ht]; exact List.mem_cons_self)
    rw [work_stage (s := { s with discontinuities := rest }) hs.valid hlane]
    rw [ht, List.length_cons] at hle
    simp only
    omega
  | @takeEvent t rest ht _ =>
    have hlane := hs.eventLanes _ (by rw [ht]; exact List.mem_cons_self)
    rw [work_stage (s := { s with events := rest }) hs.valid hlane]
    rw [ht, List.length_cons] at hle
    simp only
    omega
  | @hand t fair hphase hpop =>
    obtain ⟨hlanePop, -⟩ := hs.valid.popRoundRobin_some hpop
    obtain ⟨-, -, -, -, -, hcount, -⟩ := hs.valid.popLane hlanePop
    rw [work, work, hphase, phaseWork, phaseWork]
    simp only
    omega

theorem recv_frame (h : s.recvStep = some s') :
    s'.forwarders = s.forwarders ∧ s'.discontinuityTx = s.discontinuityTx := by
  cases recvStep_cases h with
  | move => exact ⟨rfl, rfl⟩
  | takeDiscontinuity =>
    unfold stage
    split <;> exact ⟨rfl, rfl⟩
  | takeEvent =>
    unfold stage
    split <;> exact ⟨rfl, rfl⟩
  | hand => exact ⟨rfl, rfl⟩

/-! ## When `recv` ends at the right moment -/

/-- Nothing is on its way to the collector. -/
def Drained (s : EventFanIn ε) : Prop :=
  s.events = [] ∧ s.discontinuities = [] ∧ ∀ lane, s.fair.staged lane = []

/-- In its phase, `recv` may act on what it sees closed. -/
def AttentiveAt (s : EventFanIn ε) : RecvPhase → Prop
  | .guardDiscontinuities => s.discontinuityTx = false → s.discontinuities = []
  | .guardEvents d => s.forwarders = [] → d = false ∧ s.events = []
  | .pollDiscontinuities true _ => s.discontinuityTx = false → s.discontinuities = [] →
      s.forwarders = [] ∧ s.events = []
  | .pollEvents _ true => s.forwarders = [] → s.events = [] → s.discontinuities = []
  | _ => True

/-- `recv` acts on a closed channel only where nothing is left to wait for. -/
def Attentive (s : EventFanIn ε) : FanInAction ε → Prop
  | .recv => s.AttentiveAt s.phase
  | _ => True

instance (s : EventFanIn ε) : (p : RecvPhase) → Decidable (s.AttentiveAt p)
  | .guardDiscontinuities =>
    inferInstanceAs (Decidable (s.discontinuityTx = false → s.discontinuities = []))
  | .guardEvents d => inferInstanceAs (Decidable (s.forwarders = [] → d = false ∧ s.events = []))
  | .pollDiscontinuities true _ =>
    inferInstanceAs (Decidable (s.discontinuityTx = false → s.discontinuities = [] →
      s.forwarders = [] ∧ s.events = []))
  | .pollEvents _ true =>
    inferInstanceAs (Decidable (s.forwarders = [] → s.events = [] → s.discontinuities = []))
  | .busy | .tryDiscontinuities | .tryEvents | .pop | .pollDiscontinuities false _
  | .pollEvents _ false | .parked _ _ | .returnedNone => inferInstanceAs (Decidable True)

instance (s : EventFanIn ε) : (action : FanInAction ε) → Decidable (s.Attentive action)
  | .recv => inferInstanceAs (Decidable (s.AttentiveAt s.phase))
  | .send _ | .endForwarder _ | .report _ | .dropDiscontinuityTx => inferInstanceAs (Decidable True)

abbrev StepAttentive (capacity : Nat) (s : EventFanIn ε) (action : FanInAction ε)
    (s' : EventFanIn ε) : Prop :=
  s.Attentive action ∧ s.step capacity action = some s'

/-- What the fan-in owes the collector in a state `s`. -/
structure HandsOver (laneCount capacity : Nat) (s : EventFanIn ε) : Prop where
  exact : s.Exact
  inTurn : ∀ lane, s.fair.staged lane ≠ [] → ∀ actions s', Run (Step capacity) s actions s' →
    ∃ served, s'.handed = s.handed ++ served ∧
      (ofLane lane served = [] → served.length ≤ laneCount - 1)
  noneIsFinal : s.phase = .returnedNone → s.forwarders = [] ∧ s.Drained
  ends : ∀ n s', Run (StepAttentive capacity) s (List.replicate n .recv) s' →
    n ≤ s.work ∧ (s'.recvStep = none →
      s'.Drained ∧ (s'.phase = .returnedNone ↔ s.forwarders = []))

/-- What an attentive run keeps. -/
structure Listening (s : EventFanIn ε) : Prop where
  quiet : s.phase.discontinuitiesDisabled = true → s.discontinuities = []
  listens : s.phase.eventsDisabled = false
  final : s.phase = .returnedNone → s.forwarders = [] ∧ s.events = [] ∧ s.discontinuities = []

theorem listening_start (laneCount pendingLimit : Nat) :
    (start laneCount pendingLimit : EventFanIn ε).Listening := by
  constructor
  · intro h
    cases h
  · rfl
  · intro h
    cases h

theorem listening_of_phase (hd : s.phase.discontinuitiesDisabled = false)
    (he : s.phase.eventsDisabled = false) (hfinal : s.phase ≠ .returnedNone) : s.Listening := by
  constructor
  · intro h
    rw [hd] at h
    cases h
  · exact he
  · intro h
    exact absurd h hfinal

theorem Kept.stage_phase (hs : s.Kept laneCount) (before : EventFanIn ε) (hfair : before.fair = s.fair)
    {t : TaggedStreamEvent ε} (hlane : t.laneIndex < laneCount) :
    (before.stage t).phase = .tryDiscontinuities := by
  obtain ⟨fair, heq, -⟩ := stage_eq (hfair ▸ hs.valid) hlane
  rw [heq]

theorem Listening.move (hs : s.Kept laneCount) (hl : s.Listening) (ha : s.Attentive .recv)
    {p : RecvPhase} (hmove : RecvMove s s.phase p) : { s with phase := p }.Listening := by
  obtain ⟨hquiet, hlistens, hfinal⟩ := hl
  have hclosed := hs.discontinuitiesClosed
  rw [Attentive] at ha
  generalize s.phase = from_ at hmove hquiet hlistens hfinal ha hclosed
  constructor
  · cases hmove <;> simp_all [RecvPhase.discontinuitiesDisabled, AttentiveAt]
  · cases hmove with
    | select d hany =>
      cases hforwarders : s.forwarders with
      | nil =>
        rw [(ha hforwarders).1, hforwarders] at hany
        cases hany
      | cons lane rest => rfl
    | _ => simp_all [RecvPhase.eventsDisabled]
  · cases hmove <;> simp_all [RecvPhase.discontinuitiesDisabled, AttentiveAt]

theorem Listening.step (hs : s.Kept laneCount) (hl : s.Listening) {action : FanInAction ε}
    (ha : s.Attentive action) (h : s.step capacity action = some s') : s'.Listening := by
  cases action with
  | send tagged =>
    obtain ⟨⟨-, -, hphase⟩, heq⟩ := Option.ite_none_right_eq_some.mp h
    obtain rfl := Option.some.inj heq
    exact { hl with final := fun hnone => absurd hnone hphase }
  | endForwarder lane =>
    obtain ⟨-, heq⟩ := Option.ite_none_right_eq_some.mp h
    obtain rfl := Option.some.inj heq
    refine { hl with final := fun hnone => ?_ }
    obtain ⟨hforwarders, hrest⟩ := hl.final hnone
    exact ⟨by rw [hforwarders]; rfl, hrest⟩
  | report tagged =>
    obtain ⟨⟨-, htx, hphase⟩, heq⟩ := Option.ite_none_right_eq_some.mp h
    obtain rfl := Option.some.inj heq
    refine { hl with quiet := fun hdisabled => ?_, final := fun hnone => absurd hnone hphase }
    rw [hs.discontinuitiesClosed hdisabled] at htx
    cases htx
  | dropDiscontinuityTx =>
    obtain ⟨-, heq⟩ := Option.ite_none_right_eq_some.mp h
    obtain rfl := Option.some.inj heq
    exact { hl with }
  | recv =>
    cases recvStep_cases h with
    | move hmove => exact hl.move hs ha hmove
    | @takeDiscontinuity t rest ht _ =>
      have hphase := hs.stage_phase { s with discontinuities := rest } rfl
        (hs.discontinuityLanes t (by rw [ht]; exact List.mem_cons_self))
      exact listening_of_phase (by rw [hphase]; rfl) (by rw [hphase]; rfl) (by rw [hphase]; decide)
    | @takeEvent t rest ht _ =>
      have hphase := hs.stage_phase { s with events := rest } rfl
        (hs.eventLanes t (by rw [ht]; exact List.mem_cons_self))
      exact listening_of_phase (by rw [hphase]; rfl) (by rw [hphase]; rfl) (by rw [hphase]; decide)
    | hand => exact listening_of_phase rfl rfl (fun h => by cases h)

/-- The collector only stops when it waits in its select or is done. -/
theorem stopped_cases (h : s.recvStep = none) :
    s.phase = .returnedNone ∨
      ∃ d e, s.phase = .parked d e ∧ (d && s.discontinuityReady || e && s.eventReady) = false := by
  cases hphase : s.phase with
  | returnedNone => exact .inl rfl
  | parked d e =>
    simp only [recvStep, hphase] at h
    split at h
    · cases h
    · next hnot => exact .inr ⟨d, e, rfl, Bool.eq_false_iff.mpr hnot⟩
  | _ =>
    exfalso
    simp only [recvStep, hphase] at h
    grind

/-- Where the collector's own steps stop, everything sent has been handed over. -/
theorem drained_of_stopped (hs : s.Kept laneCount) (hl : s.Listening) (hstop : s.recvStep = none) :
    s.Drained ∧ (s.phase = .returnedNone ↔ s.forwarders = []) := by
  have hstaged : s.phase.pastPop = true → ∀ lane, s.fair.staged lane = [] :=
    fun hpast lane => hs.valid.staged_nil (hs.emptied hpast) lane
  rcases stopped_cases hstop with hphase | ⟨d, e, hphase, hready⟩
  · obtain ⟨hforwarders, hevents, hdiscontinuities⟩ := hl.final hphase
    exact ⟨⟨hevents, hdiscontinuities, hstaged (by rw [hphase]; rfl)⟩,
      ⟨fun _ => hforwarders, fun _ => hphase⟩⟩
  · -- the event branch is enabled, so a forwarder is alive
    have he : e = true := by
      have hlistens := hl.listens
      rw [hphase] at hlistens
      simpa [RecvPhase.eventsDisabled] using hlistens
    rw [he, Bool.true_and, Bool.or_eq_false_iff] at hready
    obtain ⟨hdisc, hevent⟩ := hready
    rw [eventReady, Bool.or_eq_false_iff] at hevent
    have hevents : s.events = [] := by simpa using hevent.1
    have hopen : s.forwarders ≠ [] := by simpa using hevent.2
    have hdiscontinuities : s.discontinuities = [] := by
      cases d with
      | false => exact hl.quiet (by rw [hphase]; rfl)
      | true =>
        rw [discontinuityReady, Bool.true_and, Bool.or_eq_false_iff] at hdisc
        simpa using hdisc.1
    refine ⟨⟨hevents, hdiscontinuities, hstaged (by rw [hphase]; rfl)⟩, ?_⟩
    rw [hphase]
    constructor
    · intro h
      cases h
    · intro h
      exact absurd h hopen

/-- The collector's own steps, as many as there are. -/
theorem own_run {n : Nat} (hs : s.Kept laneCount) (hl : s.Listening)
    (h : Run (StepAttentive capacity) s (List.replicate n .recv) s') :
    n + s'.work ≤ s.work ∧ s'.Kept laneCount ∧ s'.Listening ∧ s'.forwarders = s.forwarders := by
  induction n generalizing s with
  | zero =>
    cases h
    exact ⟨by omega, hs, hl, rfl⟩
  | succ n ih =>
    cases h with
    | cons hstep hrun =>
      obtain ⟨hwork, hs', hl', hforwarders⟩ := ih (hs.step hstep.2) (hl.step hs hstep.1 hstep.2) hrun
      have hless := recv_work hs hstep.2
      exact ⟨by omega, hs', hl', hforwarders.trans (recv_frame hstep.2).1⟩

/-- What was sent is handed over once and in order, each lane within a round, `None` comes
last, and the collector left alone hands over the rest and returns `None` exactly when no
forwarder is left. -/
theorem handsOver_run {pendingLimit : Nat} {actions : List (FanInAction ε)}
    (h : Run (StepAttentive capacity) (start laneCount pendingLimit) actions s) :
    s.HandsOver laneCount capacity := by
  have hkept : ∀ s action s', s.Kept laneCount ∧ s.Listening →
      StepAttentive (ε := ε) capacity s action s' → s'.Kept laneCount ∧ s'.Listening := by
    rintro s action s' ⟨hs, hl⟩ ⟨ha, hstep⟩
    exact ⟨hs.step hstep, hl.step hs ha hstep⟩
  obtain ⟨hs, hl⟩ := h.invariant hkept
    ⟨kept_start laneCount pendingLimit, listening_start laneCount pendingLimit⟩
  constructor
  · exact hs.exact
  · intro lane hstaged actions s' hrun
    obtain ⟨served, hserved, hless⟩ := turns_run hs hrun hstaged
    have hlane := hs.valid.lane_of_staged hstaged
    have hturn : s.fair.turnsBefore lane < laneCount := by
      rw [FairTaggedEventQueue.turnsBefore, hs.valid.lanes]
      exact Nat.mod_lt _ (by omega)
    exact ⟨served, hserved, fun hnone => by have := hless hnone; omega⟩
  · intro hnone
    exact ⟨(hl.final hnone).1, (hl.final hnone).2.1, (hl.final hnone).2.2,
      hs.valid.staged_nil (hs.emptied (by rw [hnone]; rfl))⟩
  · intro n s' hrun
    obtain ⟨hwork, hs', hl', hforwarders⟩ := own_run hs hl hrun
    refine ⟨by omega, fun hstop => ?_⟩
    rw [← hforwarders]
    exact drained_of_stopped hs' hl' hstop

/-! ## Exactly when `recv` returns after the last forwarder -/

theorem drained_move (hs : s.Kept laneCount) (hdrained : s.Drained) (h : s.recvStep = some s') :
    ∃ p, RecvMove s s.phase p ∧ s' = { s with phase := p } := by
  obtain ⟨hevents, hdiscontinuities, hstaged⟩ := hdrained
  cases recvStep_cases h with
  | move hmove => exact ⟨_, hmove, rfl⟩
  | takeDiscontinuity ht =>
    rw [hdiscontinuities] at ht
    cases ht
  | takeEvent ht =>
    rw [hevents] at ht
    cases ht
  | hand _ hpop =>
    obtain ⟨hlanePop, -⟩ := hs.valid.popRoundRobin_some hpop
    obtain ⟨-, -, -, hhead, -⟩ := hs.valid.popLane hlanePop
    rw [hstaged] at hhead
    cases hhead

/-- All is drained and no forwarder is left. -/
structure Over (laneCount : Nat) (s : EventFanIn ε) : Prop where
  kept : s.Kept laneCount
  ended : s.forwarders = []
  drained : s.Drained

theorem Over.recv (hs : s.Over laneCount) (h : s.recvStep = some s') :
    s'.Over laneCount ∧ ∃ p, RecvMove s s.phase p ∧ s' = { s with phase := p } := by
  obtain ⟨p, hmove, rfl⟩ := drained_move hs.kept hs.drained h
  exact ⟨⟨hs.kept.move hmove, hs.ended, hs.drained⟩, p, hmove, rfl⟩

/-- `recv` will see that the data channel is closed. -/
def SeesTheEnd (s : EventFanIn ε) : Prop :=
  s.discontinuityTx = false ∨ s.phase.awaitsEvents = true ∨ s.phase = .returnedNone

theorem seesTheEnd_recv (hs : s.Over laneCount) (h : s.recvStep = some s') :
    s'.SeesTheEnd ↔ s.SeesTheEnd := by
  obtain ⟨-, p, hmove, rfl⟩ := hs.recv h
  rw [SeesTheEnd, SeesTheEnd]
  have hclosed := hs.kept.discontinuitiesClosed
  generalize s.phase = from_ at hmove hclosed
  cases hmove with
  | select d hany => simp [RecvPhase.awaitsEvents, hs.ended]
  | allDisabled => simp_all [RecvPhase.discontinuitiesDisabled]
  | discontinuitiesClosed e hdisc htx => simp [htx]
  | _ => simp [RecvPhase.awaitsEvents]

theorem returnsNone_of_seesTheEnd (hs : s.Over laneCount) (hsees : s.SeesTheEnd) :
    ∃ n s', Run (Step capacity) s (List.replicate n .recv) s' ∧ s'.phase = .returnedNone := by
  generalize hwork : s.work = remaining
  induction remaining using Nat.strongRecOn generalizing s with
  | ind remaining ih =>
    cases hstep : s.recvStep with
    | some mid =>
      have hless := recv_work hs.kept hstep
      obtain ⟨n, s', hrun, hnone⟩ := ih mid.work (by omega) (hs.recv hstep).1
        ((seesTheEnd_recv hs hstep).mpr hsees) rfl
      exact ⟨n + 1, s', .cons hstep hrun, hnone⟩
    | none =>
      rcases stopped_cases hstep with hnone | ⟨d, e, hphase, hready⟩
      · exact ⟨0, s, .nil s, hnone⟩
      · -- a parked select of which one branch is enabled has something to answer
        exfalso
        have hclosed := hs.kept.discontinuitiesClosed
        have hlistens := hs.kept.listens
        rw [SeesTheEnd, hphase] at hsees
        rw [hphase] at hclosed hlistens
        have hevent : s.eventReady = true := by simp [eventReady, hs.ended]
        rw [hevent, Bool.and_true, Bool.or_eq_false_iff] at hready
        obtain ⟨hd, rfl⟩ := hready
        have htx : s.discontinuityTx = false := by simpa [RecvPhase.awaitsEvents] using hsees
        have hopen : d = true := by
          simpa [RecvPhase.eventsDisabled, RecvPhase.discontinuitiesDisabled] using hlistens
        simp [discontinuityReady, htx, hopen] at hd

/-- Once every forwarder has ended and everything is drained, `recv` comes to return `None`
exactly if the discontinuity channel is closed too or its select still awaits events. -/
theorem returnsNone_iff (hs : s.Over laneCount) :
    (∃ n s', Run (Step capacity) s (List.replicate n .recv) s' ∧ s'.phase = .returnedNone) ↔
      s.SeesTheEnd := by
  constructor
  · rintro ⟨n, s', hrun, hnone⟩
    induction n generalizing s with
    | zero =>
      cases hrun
      exact .inr (.inr hnone)
    | succ n ih =>
      cases hrun with
      | cons hstep hrest =>
        exact (seesTheEnd_recv hs hstep).mp (ih (hs.recv hstep).1 hrest)
  · intro hsees
    exact returnsNone_of_seesTheEnd hs hsees

/-- **The fan-in is exact and ends** in every run in which `recv` is attentive. With every
forwarder gone and everything handed over, it ends exactly if the discontinuity channel is
closed as well or the last forwarder went while the select awaited events. -/
theorem fan_in_hands_over (laneCount pendingLimit capacity : Nat) :
    (∀ (actions : List (FanInAction ε)) s,
      Run (StepAttentive capacity) (start laneCount pendingLimit) actions s →
        s.HandsOver laneCount capacity) ∧
    ∀ (actions : List (FanInAction ε)) s,
      Run (Step capacity) (start laneCount pendingLimit) actions s → s.forwarders = [] → s.Drained →
        ((∃ n s', Run (Step capacity) s (List.replicate n .recv) s' ∧ s'.phase = .returnedNone) ↔
          s.SeesTheEnd) := by
  constructor
  · intro actions s hrun
    exact handsOver_run hrun
  · intro actions s hrun hended hdrained
    exact returnsNone_iff ⟨kept_run hrun, hended, hdrained⟩

/-- One lane, one event; the forwarder ends while the select awaits events. -/
def endsWaiting : List (FanInAction Unit) :=
  .send ⟨0, ()⟩ :: List.replicate 14 .recv ++ .endForwarder 0 :: List.replicate 3 .recv

theorem fan_in_hands_over_waiting :
    ∃ s : EventFanIn Unit, s.phase = .returnedNone ∧ s.discontinuityTx = true ∧
      s.HandsOver 1 64 := by
  obtain ⟨s, hrun, hnone, htx⟩ := exists_run_of_exec
    (by decide : (exec (fun (s : EventFanIn Unit) action =>
        if s.Attentive action then s.step 64 action else none) (start 1 64) endsWaiting).any
      (fun s => s.phase = .returnedNone ∧ s.discontinuityTx = true) = true)
  exact ⟨s, hnone, htx, (fan_in_hands_over 1 64 64).1 endsWaiting s
    (hrun.mono fun _ _ _ hstep => Option.ite_none_right_eq_some.mp hstep)⟩

/-- The same forwarder ends while the collector is busy with its event. -/
def endsBusy : List (FanInAction Unit) :=
  .send ⟨0, ()⟩ :: List.replicate 6 .recv ++ .endForwarder 0 :: List.replicate 8 .recv

/-- `discontinuity_tx` is dropped while the select waits. -/
def dropsWaiting : List (FanInAction Unit) :=
  List.replicate 8 .recv ++ .dropDiscontinuityTx :: List.replicate 2 .recv

/-- An event is sent, and both channels close, after `recv` has looked into them. -/
def closesUnseen : List (FanInAction Unit) :=
  List.replicate 3 .recv ++ .send ⟨0, ()⟩ :: .endForwarder 0 :: .dropDiscontinuityTx ::
    List.replicate 3 .recv

/-- `recv` waits for ever with nothing left to come; it returns `None` over a living
forwarder; it returns `None` over an event in its channel. -/
theorem fan_in_misses_the_end :
    (∃ s : EventFanIn Unit, Run (Step 64) (start 1 64) endsBusy s ∧ s.forwarders = [] ∧
      s.Drained ∧ s.discontinuityTx = true ∧ s.recvStep = none ∧ s.phase ≠ .returnedNone) ∧
    (∃ s : EventFanIn Unit, Run (Step 64) (start 1 64) dropsWaiting s ∧ s.forwarders = [0] ∧
      s.phase = .returnedNone) ∧
    ∃ s : EventFanIn Unit, Run (Step 64) (start 1 64) closesUnseen s ∧ s.events = [⟨0, ()⟩] ∧
      s.phase = .returnedNone := by
  refine ⟨?_, ?_, ?_⟩
  · obtain ⟨s, hrun, hended, hevents, hdiscontinuities, hcount, htx, hphase⟩ := exists_run_of_exec
      (by decide : (exec (fun (s : EventFanIn Unit) action => s.step 64 action) (start 1 64)
          endsBusy).any (fun s => s.forwarders = [] ∧ s.events = [] ∧ s.discontinuities = [] ∧
        s.fair.pendingCount = 0 ∧ s.discontinuityTx = true ∧ s.phase = .parked true false) = true)
    have hs := kept_run hrun
    refine ⟨s, hrun, hended, ⟨hevents, hdiscontinuities, hs.valid.staged_nil hcount⟩, htx, ?_, ?_⟩
    · simp [recvStep, hphase, discontinuityReady, hdiscontinuities, htx]
    · rw [hphase]
      decide
  · exact exists_run_of_exec
      (p := fun s : EventFanIn Unit => s.forwarders = [0] ∧ s.phase = .returnedNone) (by decide)
  · exact exists_run_of_exec
      (p := fun s : EventFanIn Unit => s.events = [⟨0, ()⟩] ∧ s.phase = .returnedNone) (by decide)

end EventFanIn

end Zulangue.Stream
