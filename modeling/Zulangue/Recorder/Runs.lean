import Zulangue.Recorder.Beginnings

/-!
# What every run keeps

A world is sound when its store is in a phase, its operations have what they count on, and no request
was sent before the frames of its session. A careful step keeps it so.
-/

namespace Zulangue.Recorder

open Zulangue.Lib
open Zulangue.Callback (CaptureState)
open Zulangue.PushGate (State)

section
variable {Session : Type}

def World.Notified (w : World Session) (session : Session) : Prop := ∃ message, (message, session) ∈ w.notifications

structure World.Sound (w : World Session) : Prop where
  phase : w.store.Phase w.callbacks w.Notified
  gates : w.store.GatesSound
  awaits : ∀ operation ∈ w.operations, w.store.Awaits operation
  prompt : ∀ unpushed ∈ w.requests, unpushed = 0

variable {callbacks callbacks' : List (Session × Nat)} {notified notified' : Session → Prop} {s : Store Session}
  {session : Session} {w : World Session} {next : Next Session} {operation : Operation Session}

theorem initial_sound : (World.initial : World Session).Sound := by
  refine ⟨.closed ⟨rfl, rfl, rfl, rfl⟩, ?_, ?_, ?_⟩
  · intro session gate hcontra
    cases hcontra
  · intro operation hcontra
    cases hcontra
  · intro unpushed hcontra
    cases hcontra

theorem Store.Open.mono (h : s.Open callbacks notified session) (hnotified : notified session → notified' session) :
    s.Open callbacks notified' session := by
  obtain ⟨gate, hgate, haborted, hadmits⟩ := h.admits
  refine ⟨h.unleased, h.listening, h.pushGate, gate, hgate, haborted, fun token htoken => ?_⟩
  obtain ⟨hsame, haccepting⟩ := hadmits token htoken
  exact ⟨hsame, haccepting.imp_right hnotified⟩

theorem Store.Phase.mono (h : s.Phase callbacks notified)
    (hnotified : ∀ session, s.sessionId = some session → notified session → notified' session) :
    s.Phase callbacks notified' := by
  cases h with
  | opened hopen hactive hmic => exact .opened (hopen.mono (hnotified _ hopen.listening.shown)) hactive hmic
  | leased hleased => exact .leased hleased
  | closed hclosed => exact .closed hclosed

theorem mem_appended {operations : List (Operation Session)} {next : Option (Operation Session)}
    (hmem : operation ∈ operations ++ next.toList) : operation ∈ operations ∨ next = some operation :=
  (List.mem_append.mp hmem).imp_right Option.mem_toList.mp

/-- A stretch of an operation that begins, ends or goes on. -/
theorem World.Sound.goes (h : w.Sound) (hgood : Good callbacks' notified' w.store next)
    {operations : List (Operation Session)} {notifications : List (AudioTerminal × Session)} {requests : List Nat}
    (hoperations : ∀ operation ∈ operations, operation ∈ w.operations ∨ next.2 = some operation)
    (hnotified : ∀ session, notified' session → ∃ message, (message, session) ∈ notifications)
    (hrequests : ∀ unpushed ∈ requests, unpushed ∈ w.requests ∨ unpushed ∈ Operation.request next.1 next.2) :
    World.Sound ⟨next.1, operations, callbacks', notifications, requests⟩ := by
  refine ⟨hgood.phase.mono fun session _ => hnotified session, hgood.sound, ?_, ?_⟩
  · intro operation hmem
    obtain hold | hnew := hoperations operation hmem
    · exact hgood.carries.awaits (h.awaits operation hold)
    · exact hgood.awaits operation hnew
  · intro unpushed hmem
    obtain hold | hnew := hrequests unpushed hmem
    · exact h.prompt unpushed hold
    · exact hgood.prompt unpushed hnew

theorem released_or_open {callbacks : List (Session × Nat)} {notified : Session → Prop} (h : s.Phase callbacks notified)
    {token : AudioToken Session} (htoken : s.audioToken = some token) :
    ∃ session, s.Open callbacks notified session ∧ s.isActive = true ∧ s.MicMatches := by
  cases h with
  | opened hopen hactive hmic => exact ⟨_, hopen, hactive, hmic⟩
  | leased hleased => cases htoken.symm.trans hleased.released
  | closed hclosed => cases htoken.symm.trans hclosed.released

/-- A stretch that begins an operation, or none. -/
theorem World.Sound.begins (h : w.Sound) (hgood : Good w.callbacks w.Notified w.store next) :
    World.Sound { w with store := next.1, operations := w.operations ++ next.2.toList } :=
  h.goes hgood (fun _ hmem => mem_appended hmem) (fun _ hnotified => hnotified) fun _ hmem => .inl hmem

/-- A stretch of an operation that goes on or ends. -/
theorem World.Sound.turns (h : w.Sound) (hgood : Good w.callbacks w.Notified w.store next)
    {operations : List (Operation Session)} (hturns : Turns w.operations operation next.2 operations) :
    World.Sound { w with store := next.1, operations } :=
  h.goes hgood (fun _ hmem => hturns.mem_of_mem hmem) (fun _ hnotified => hnotified) fun _ hmem => .inl hmem

theorem World.Sound.stays (h : w.Sound) {s : Store Session} (hgood : Good w.callbacks w.Notified w.store (s, none)) :
    World.Sound { w with store := s } :=
  h.goes hgood (fun _ hmem => .inl hmem) (fun _ hnotified => hnotified) fun _ hmem => .inl hmem

theorem ringOverflow_sound {token : AudioToken Session} (h : w.Sound) (htoken : w.store.audioToken = some token) :
    World.Sound
      { w with
        store := { w.store with audioToken := some { token with overflowed := true } }
        notifications := w.notifications ++ [(.localAudioOverflow, token.gate)] } := by
  obtain ⟨shown, hopen, hactive, hmic⟩ := released_or_open h.phase htoken
  obtain ⟨gate, hgate, haborted, hadmits⟩ := hopen.admits
  refine ⟨.opened ⟨hopen.unleased, hopen.listening.congr rfl, hopen.pushGate, gate, hgate, haborted, ?_⟩ hactive
    ⟨fun _ => rfl, fun hpaused => ?_⟩, h.gates, ?_, h.prompt⟩
  · rintro other ⟨⟩
    obtain ⟨hsame, hstill⟩ := hadmits token htoken
    refine ⟨hsame, hstill.imp_right ?_⟩
    rintro ⟨message, hmem⟩
    exact ⟨message, List.mem_append_left _ hmem⟩
  · cases (hmic.paused hpaused).symm.trans htoken
  · intro operation hmem lease hlease
    refine ⟨(h.awaits operation hmem lease hlease).1, fun hcurrent => ?_⟩
    cases hopen.unleased.symm.trans hcurrent

theorem repaired_good (h : w.Sound) (revision : Option Nat) :
    Good w.callbacks w.Notified w.store ({ w.store with lastAppliedRevision := revision }, none) :=
  Stays.good (.inl ⟨rfl, rfl, rfl, rfl, rfl, rfl, rfl, rfl, rfl, rfl, rfl, rfl⟩) h.phase h.gates

end

section
variable {Session : Type} [DecidableEq Session] {capacity : Nat} {w w' : World Session} {s : Store Session}
  {session : Session} {action : Action Session}

/-! ## What a step must not do -/

def World.Careful (w : World Session) : Action Session → Prop
  | .prepared reply subscribed => w.store.Idle ∧ ∀ initial, reply = some initial → Recordable subscribed initial
  | .callback event generation => w.store.Hears event generation → w.store.Tells event
  | .returned (.pauseRequest lease _) reply _ subscribed => w.store.Rejects lease reply → subscribed = true
  | .returned (.pauseReconcile lease _) reply _ _ => w.store.Resolves lease reply
  | .returned (.resumeReconcile lease) reply _ _ => w.store.Resumes lease reply
  | _ => True

def CarefulStep (capacity : Nat) (w : World Session) (action : Action Session) (w' : World Session) : Prop :=
  Step capacity w action w' ∧ w.Careful action

/-! ## Operations go on -/

theorem afterFence_good {operation : Operation Session} {read : Reply Session} {next : Next Session}
    {callbacks : List (Session × Nat)} {notified : Session → Prop} (hphase : s.Phase callbacks notified)
    (hsound : s.GatesSound) (hawaits : s.Awaits operation) (hdrained : s.Drained operation.fence)
    (hnext : operation.afterFence read s = some next) : Good callbacks notified s next := by
  cases operation with
  | pauseFence lease gate microphone =>
    obtain rfl := Option.some.inj hnext
    exact pauseFenced_good hphase hsound hawaits hdrained read
  | stopFence lease gate microphone =>
    obtain rfl := Option.some.inj hnext
    exact stopFenced_good hphase hsound hawaits hdrained read
  | terminalFence lease gate message =>
    obtain rfl := Option.some.inj hnext
    exact terminalFenced_good hphase hsound (hawaits lease rfl).1 gate message read
  | interruptFence lease gate =>
    obtain rfl := Option.some.inj hnext
    exact interruptFenced_good hphase hsound (hawaits lease rfl).1
  | _ => cases hnext

theorem afterReply_good {operation : Operation Session} {reply read : Reply Session} {subscribed : Bool} {next : Next Session}
    (h : w.Sound) (hawaits : w.store.Awaits operation) (hcareful : w.Careful (.returned operation reply read subscribed))
    (hnext : operation.afterReply reply read subscribed w.store = some next) :
    Good w.callbacks w.Notified w.store next := by
  cases operation with
  | pauseRequest lease gate =>
    obtain rfl := Option.some.inj hnext
    exact pauseReturned_good h.phase h.gates hawaits hcareful
  | pauseReconcile lease gate =>
    obtain rfl := Option.some.inj hnext
    exact pauseReconciled_good h.phase h.gates hawaits hcareful subscribed
  | resumeRequest lease =>
    obtain rfl := Option.some.inj hnext
    exact resumeReturned_good h.phase h.gates hawaits reply subscribed
  | resumeReconcile lease =>
    obtain rfl := Option.some.inj hnext
    exact resumeReconciled_good h.phase h.gates hawaits hcareful subscribed
  | stopRequest lease =>
    obtain rfl := Option.some.inj hnext
    exact stopReturned_good h.phase h.gates (hawaits lease rfl).1 reply read
  | interrupting lease =>
    obtain rfl := Option.some.inj hnext
    exact interrupted_good h.phase h.gates reply
  | _ => cases hnext

/-! ## Steps -/

/-- A transition begins, or there is none to begin. -/
theorem Store.Phase.converges {callbacks : List (Session × Nat)} {notified : Session → Prop}
    (h : s.Phase callbacks notified) (session : Session) :
    s.Open callbacks notified session ∧ s.isActive = true ∨ s.beginConvergence session = none := by
  cases h with
  | @opened shown hopen hactive hmic =>
    by_cases hsame : shown = session
    · subst hsame
      exact .inl ⟨hopen, hactive⟩
    · refine .inr (beginConvergence_none fun hcontra => hsame ?_)
      exact Option.some.inj (hopen.listening.shown.symm.trans hcontra.2.1)
  | leased hleased =>
    refine .inr (beginConvergence_none fun hcontra => ?_)
    cases hcontra.1.symm.trans hleased.current
  | closed hclosed =>
    refine .inr (beginConvergence_none fun hcontra => ?_)
    have hactive := hcontra.2.2
    rw [Store.isActive, hclosed.terminal] at hactive
    cases hactive

theorem beginStop_step (h : w.Sound) (session : Session) :
    Good w.callbacks w.Notified w.store (w.store.beginStop session) := by
  obtain ⟨hopen, hactive⟩ | hnone := h.phase.converges session
  · exact hopen.beginStop_good hactive h.gates
  · rw [Store.beginStop, hnone]
    exact good_rest h.phase h.gates

/-- The notification that is taken is for the session that records, or for none. -/
theorem notify_good {message : AudioTerminal} {notifications : List (AudioTerminal × Session)} (h : w.Sound)
    (hturns : Turns w.notifications (message, session) none notifications) :
    Good w.callbacks (fun session => ∃ message, (message, session) ∈ notifications) w.store
      (w.store.handleAudioTerminal message session) := by
  obtain ⟨hopen, hactive⟩ | hnone := h.phase.converges session
  · exact hopen.handleAudioTerminal_good hactive h.gates message
  · rw [Store.handleAudioTerminal, hnone]
    refine good_rest ?_ h.gates
    cases hphase : h.phase with
    | @opened shown hopen hactive hmic =>
      refine .opened (hopen.mono ?_) hactive hmic
      rintro ⟨other, hother⟩
      obtain hsame | hkept := hturns.eq_or_mem hother
      · obtain ⟨rfl, rfl⟩ := Prod.mk.inj hsame
        rw [beginConvergence_eq hopen.unleased hopen.listening.shown hopen.listening.live hactive] at hnone
        cases hnone
      · exact ⟨other, hkept⟩
    | leased hleased => exact .leased hleased
    | closed hclosed => exact .closed hclosed

/-! ## Frames -/

/-- What one step of a gate does to it. -/
structure Gate.Advances (gate gate' : Gate) (told : Bool) : Prop where
  aborted : gate.state ≠ .aborted → gate'.state ≠ .aborted
  accepting : gate.state = .accepting → gate'.state = .accepting ∨ told = true
  shut : gate.state ≠ .accepting → gate'.state ≠ .accepting
  sound : gate.Sound → gate'.Sound

theorem submit_advances (capacity : Nat) (gate : Gate) :
    gate.Advances (gate.submit capacity).1 (gate.submit capacity).2.isSome := by
  unfold Gate.submit
  split
  · rename_i hshut
    exact ⟨id, fun hcontra => absurd hcontra hshut, id, id⟩
  · rename_i haccepting
    push Not at haccepting
    have hnone : gate.Sound → ¬ 0 < gate.discarded := by
      intro hsound hdiscarded
      obtain hcontra | hcontra := hsound hdiscarded <;> cases haccepting.symm.trans hcontra
    split
    · exact ⟨fun _ hcontra => (by cases hcontra), fun _ => .inr rfl, fun hcontra => absurd haccepting hcontra,
        fun hsound hdiscarded => absurd hdiscarded (hnone hsound)⟩
    · exact ⟨id, .inl, id, id⟩

theorem pushAcceptedFrame_advances (fails : Bool) (gate : Gate) :
    gate.Advances (gate.pushAcceptedFrame fails).1 (gate.pushAcceptedFrame fails).2.isSome := by
  unfold Gate.pushAcceptedFrame
  split
  · rename_i hended
    exact ⟨id, .inl, id, fun _ _ => hended⟩
  · split
    · exact ⟨fun _ hcontra => (by cases hcontra), fun _ => .inr rfl, fun _ hcontra => (by cases hcontra), fun _ _ => .inr rfl⟩
    · exact ⟨id, .inl, id, id⟩

section
variable {gate gate' : Gate} {told : Bool}

theorem gates_advanced (hgate : s.gates session = some gate) :
    (s.updateGate (some session) fun _ => gate').gates session = some gate' := by
  rw [gates_updateGate, if_pos rfl, hgate]
  rfl

theorem gates_other {other : Session} (hother : session ≠ other) (f : Gate → Gate) :
    (s.updateGate (some session) f).gates other = s.gates other := by
  rw [gates_updateGate, if_neg fun hcontra => hother (Option.some.inj hcontra)]

theorem gateShut_advances (hgate : s.gates session = some gate) (hadvances : gate.Advances gate' told) {other : Session}
    (h : s.GateShut other) : (s.updateGate (some session) fun _ => gate').GateShut other := by
  obtain ⟨old, hold, hshut, haborted⟩ := h
  by_cases hother : session = other
  · subst hother
    obtain rfl := Option.some.inj (hgate.symm.trans hold)
    exact ⟨gate', gates_advanced hgate, hadvances.shut hshut, hadvances.aborted haborted⟩
  · exact ⟨old, (gates_other hother _).trans hold, hshut, haborted⟩

theorem gateThere_advances (hgate : s.gates session = some gate) (hadvances : gate.Advances gate' told) {other : Session}
    (h : s.GateThere other) : (s.updateGate (some session) fun _ => gate').GateThere other := by
  obtain ⟨old, hold, haborted⟩ := h
  by_cases hother : session = other
  · subst hother
    obtain rfl := Option.some.inj (hgate.symm.trans hold)
    exact ⟨gate', gates_advanced hgate, hadvances.aborted haborted⟩
  · exact ⟨old, (gates_other hother _).trans hold, haborted⟩

theorem gateDrained_advances (hgate : s.gates session = some gate) (hpending : 0 < gate.pendingCount) {other : Session}
    (h : s.GateDrained other) : (s.updateGate (some session) fun _ => gate').GateDrained other := by
  obtain ⟨old, hold, hclosed, hnone⟩ := h
  by_cases hother : session = other
  · subst hother
    obtain rfl := Option.some.inj (hgate.symm.trans hold)
    omega
  · exact ⟨old, (gates_other hother _).trans hold, hclosed, hnone⟩

theorem holds_advances (hgate : s.gates session = some gate) (hadvances : gate.Advances gate' told)
    (hpending : 0 < gate.pendingCount) {operation : Operation Session} (h : s.Holds operation) :
    (s.updateGate (some session) fun _ => gate').Holds operation := by
  cases operation with
  | preparing | stopRequest | interrupting => trivial
  | pauseFence lease => exact ⟨h.1, h.2.1, gateShut_advances hgate hadvances h.2.2⟩
  | pauseRequest lease | pauseReconcile lease => exact ⟨h.1, h.2.1, gateDrained_advances hgate hpending h.2.2⟩
  | resumeRequest lease | resumeReconcile lease => exact ⟨h.1, gateThere_advances hgate hadvances h.2⟩
  | stopFence lease | terminalFence lease | interruptFence lease => exact ⟨h.1, gateShut_advances hgate hadvances h.2⟩

theorem admits_advances {notified notified' : Session → Prop} (hgate : s.gates session = some gate)
    (hadvances : gate.Advances gate' told) (hmono : ∀ session, notified session → notified' session)
    (htold : told = true → notified' session) {other : Session} (h : s.Admits notified other) :
    (s.updateGate (some session) fun _ => gate').Admits notified' other := by
  obtain ⟨old, hold, haborted, hadmits⟩ := h
  by_cases hother : session = other
  · subst hother
    obtain rfl := Option.some.inj (hgate.symm.trans hold)
    refine ⟨gate', gates_advanced hgate, hadvances.aborted haborted, fun token htoken => ?_⟩
    obtain ⟨hsame, haccepting | hnotified⟩ := hadmits token htoken
    · exact ⟨hsame, (hadvances.accepting haccepting).imp_right htold⟩
    · exact ⟨hsame, .inr (hmono _ hnotified)⟩
  · refine ⟨old, (gates_other hother _).trans hold, haborted, fun token htoken => ?_⟩
    obtain ⟨hsame, hstill⟩ := hadmits token htoken
    exact ⟨hsame, hstill.imp_right (hmono _)⟩

end

/-- A gate goes on while its store has no transition, or while the gate is not drained. -/
theorem World.Sound.advances {gate : Gate} {moved : Gate × Option AudioTerminal} (h : w.Sound)
    (hgate : w.store.gates session = some gate) (hadvances : gate.Advances moved.1 moved.2.isSome)
    (hundrained : w.store.lease = none ∨ 0 < gate.pendingCount) :
    World.Sound
      { w with
        store := w.store.updateGate (some session) fun _ => moved.1
        notifications := w.notifications ++ (moved.2.map (·, session)).toList } := by
  have hmono : ∀ session', w.Notified session' →
      ∃ message, (message, session') ∈ w.notifications ++ (moved.2.map (·, session)).toList := by
    rintro session' ⟨message, hmem⟩
    exact ⟨message, List.mem_append_left _ hmem⟩
  have htold : moved.2.isSome = true → ∃ message, (message, session) ∈ w.notifications ++ (moved.2.map (·, session)).toList := by
    intro hsome
    obtain ⟨message, hmessage⟩ := Option.isSome_iff_exists.mp hsome
    refine ⟨message, List.mem_append_right _ ?_⟩
    rw [hmessage]
    exact List.mem_singleton_self _
  refine ⟨?_, ?_, ?_, h.prompt⟩
  · cases h.phase with
    | opened hopen hactive hmic =>
      have hadmits := admits_advances hgate hadvances hmono htold hopen.admits
      refine .opened ⟨hopen.unleased, hopen.listening.congr rfl, hopen.pushGate, hadmits⟩ hactive ?_
      exact ⟨hmic.recording, hmic.paused⟩
    | leased hleased =>
      exact .leased ⟨hleased.current, hleased.known, hleased.listening.congr rfl,
        hleased.generation, hleased.draining, hleased.released⟩
    | closed hclosed => exact .closed ⟨hclosed.unleased, hclosed.terminal, hclosed.released, hclosed.unheard⟩
  · refine gatesSound_updateGate h.gates fun _ _ _ _ => hadvances.sound (h.gates session gate hgate)
  · intro operation hmem lease hlease
    obtain ⟨hknown, hholds⟩ := h.awaits operation hmem lease hlease
    refine ⟨hknown, fun hcurrent => ?_⟩
    obtain hunleased | hpending := hundrained
    · cases hunleased.symm.trans hcurrent
    · exact holds_advances hgate hadvances hpending (hholds hcurrent)

/-- A careful step keeps the world sound. -/
theorem step_sound (h : w.Sound) (hstep : CarefulStep capacity w action w') : w'.Sound := by
  obtain ⟨hstep, hcareful⟩ := hstep
  cases hstep with
  | start hidle hunleased =>
    have hawaits : w.store.Awaits .preparing := by
      intro lease hcontra
      cases hcontra
    exact h.begins (good_next h.phase h.gates hawaits fun _ hcontra => (by cases hcontra))
  | unprepared hturns =>
    have hrest : Good w.callbacks w.Notified w.store (w.store, none) := good_rest h.phase h.gates
    exact h.turns hrest hturns
  | @prepared operations reply subscribed hnew hturns =>
    obtain ⟨hidle, hrecordable⟩ := hcareful
    have hclosed := h.phase.closed_of_idle hidle
    have hregistered : ∀ initial, reply = some initial → (initial.sessionId, w.store.callbackGeneration + 1) ∈
        w.callbacks ++ (reply.map fun initial => (initial.sessionId, w.store.callbackGeneration + 1)).toList := by
      rintro initial rfl
      exact List.mem_append_right _ (List.mem_singleton_self _)
    have hgood : Good _ w.Notified w.store (w.store.prepared reply subscribed) :=
      prepared_good hclosed h.gates hregistered hrecordable
    exact h.goes hgood (fun _ hmem => hturns.mem_of_mem hmem) (fun _ hnotified => hnotified) fun _ hmem => .inl hmem
  | select hnone hunleased hrecording hshown hgate htoken =>
    have hactive : w.store.isActive = true := by
      rw [Store.isActive, hrecording]
      rfl
    obtain ⟨session, hopen, hmic⟩ := h.phase.open_of hunleased hactive
    obtain rfl := Option.some.inj (hshown.symm.trans hopen.listening.shown)
    refine h.goes (selectAudioInputDevice_good hopen hactive hmic h.gates htoken _) (fun _ hmem => ?_)
      (fun _ hnotified => hnotified) fun _ hmem => .inl hmem
    exact .inr (Option.mem_toList.mp hmem)
  | pause hshown hrecording hunleased =>
    have hactive : w.store.isActive = true := by
      rw [Store.isActive, hrecording]
      rfl
    obtain ⟨session, hopen, -⟩ := h.phase.open_of hunleased hactive
    obtain rfl := Option.some.inj (hshown.symm.trans hopen.listening.shown)
    exact h.begins (beginPause_good hopen h.gates)
  | resume hshown hpaused hunleased =>
    have hactive : w.store.isActive = true := by
      rw [Store.isActive, hpaused]
      rfl
    obtain ⟨session, hopen, hmic⟩ := h.phase.open_of hunleased hactive
    obtain rfl := Option.some.inj (hshown.symm.trans hopen.listening.shown)
    exact h.begins (beginResume_good hopen hmic h.gates hpaused)
  | stop hshown => exact h.begins (beginStop_step h _)
  | retry hrequired hcurrent =>
    have hknown := (leased_of_isCurrent h.phase hcurrent).known
    exact h.begins (interrupting_good h.phase h.gates hknown)
  | notify hturns =>
    exact h.goes (notify_good h hturns) (fun _ hmem => mem_appended hmem) (fun _ hnotified => hnotified) fun _ hmem => .inl hmem
  | callback hregistered => exact h.stays (receiveCaptureCallback_good h.phase h.gates _ hcareful)
  | fenced hdrained hnext hturns =>
    have hgood := afterFence_good h.phase h.gates (h.awaits _ hturns.mem) hdrained hnext
    exact h.goes hgood (fun _ hmem => hturns.mem_of_mem hmem) (fun _ hnotified => hnotified)
      fun _ hmem => List.mem_append.mp hmem
  | returned hnext hturns => exact h.turns (afterReply_good h (h.awaits _ hturns.mem) hcareful hnext) hturns
  | frame htoken hgate =>
    obtain ⟨session, hopen, -⟩ := released_or_open h.phase htoken
    exact h.advances hgate (submit_advances capacity _) (.inl hopen.unleased)
  | push hgate hpending => exact h.advances hgate (pushAcceptedFrame_advances _ _) (.inr hpending)
  | ringOverflow htoken => exact ringOverflow_sound h htoken
  | repaired => exact h.stays (repaired_good h _)

theorem run_sound {actions : List (Action Session)} (h : Run (CarefulStep capacity) .initial actions w) : w.Sound :=
  h.invariant (fun _ _ _ hsound hstep => step_sound hsound hstep) initial_sound

end

end Zulangue.Recorder
