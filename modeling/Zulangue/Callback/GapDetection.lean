import Zulangue.Callback.Publishing

/-!
# The stream of a mailbox

The promise in every run whose ACKs and overlays change no event that a snapshot covers.
-/

namespace Zulangue.Callback

open Zulangue.Lib

variable {U : Type}

/-! ## One step -/

theorem advance_idle {w : World U} (h : w.acking = none) (store : Store U) (mailbox : Mailbox U) :
    advance w store mailbox = { advance w store mailbox with acking := none } := by
  cases w
  cases h
  rfl

theorem lookup_filter {l : List (Nat × U)} {sequences : List Nat} {sequence : Nat} (h : sequence ∈ sequences) :
    (l.filter (·.1 ∈ sequences)).lookup sequence = l.lookup sequence := by
  induction l with
  | nil => rfl
  | cons p rest ih =>
    obtain ⟨k, utterance⟩ := p
    by_cases hkey : sequence = k
    · subst hkey
      rw [List.filter_cons_of_pos (by simpa using h), List.lookup_cons_self, List.lookup_cons_self]
    · have hne : (sequence == k) = false := beq_eq_false_iff_ne.mpr hkey
      rw [List.filter_cons]
      split
      · rw [List.lookup_cons, List.lookup_cons, hne, ih]
      · rw [List.lookup_cons, hne, ih]

theorem lookup_loadUtterances {store : Store U} {sequences : List Nat} {full : Bool} {sequence : Nat}
    (h : full = true ∨ sequence ∈ (loadUtterances store sequences full).map (·.1)) :
    (loadUtterances store sequences full).lookup sequence = store.utterances.lookup sequence := by
  cases full with
  | true => rfl
  | false =>
    have hmem := h.resolve_left Bool.false_ne_true
    obtain ⟨p, hp, rfl⟩ := List.mem_map.mp hmem
    rw [loadUtterances, if_neg Bool.false_ne_true] at hp ⊢
    exact lookup_filter (by simpa using List.of_mem_filter hp)

theorem send_fails {store : Store U} {sequences : List Nat} {full refreshes : Bool} {m : Mailbox U}
    (h : (m.closed || !refreshes) = true) :
    send store sequences full refreshes m = { m with nextRevision := m.nextRevision + 1 } := by
  rw [send, if_pos h]

theorem send_eq {store : Store U} {sequences : List Nat} {full refreshes : Bool} {m : Mailbox U}
    (h : (m.closed || !refreshes) = false) :
    send store sequences full refreshes m = { m with
      event := some (refreshed store m sequences full m.nextRevision)
      remoteTruth := settledOverlay store m
      nextRevision := m.nextRevision + 1
      lastEnqueuedAppliedRevision := max m.lastEnqueuedAppliedRevision store.run.realtimeLoroAppliedRevision } := by
  rw [send, h, if_neg Bool.false_ne_true]

theorem publishAck_waits {applied : Nat} {fallback : Option (Event U)} {m : Mailbox U} {event : Event U}
    (h : m.event = some event) : publishAck applied fallback m = { m with
      event := some (raiseApplied applied event)
      lastEnqueuedAppliedRevision := max m.lastEnqueuedAppliedRevision applied } := by
  cases m
  cases h
  rfl

theorem publishAck_idle {applied : Nat} {fallback : Option (Event U)} {m : Mailbox U} {event : Event U}
    (h : m.event = none) (hfallback : fallback = some event) : publishAck applied fallback m = { m with
      event := some { raiseApplied applied event with eventRevision := m.nextRevision }
      nextRevision := m.nextRevision + 1
      lastEnqueuedAppliedRevision :=
        max m.lastEnqueuedAppliedRevision (raiseApplied applied event).run.realtimeLoroAppliedRevision } := by
  cases m
  cases h
  cases hfallback
  rfl

theorem Inv.send {w : World U} (h : Inv w) {sequences : List Nat} {full refreshes : Bool} (hacking : w.acking = none)
    (hopen : (w.mailbox.closed || !refreshes) = false) :
    Inv (announce (.event ((loadUtterances w.store sequences full).map (·.1)) full) w.mailbox.nextRevision true
      (advance w w.store (send w.store sequences full refreshes w.mailbox))) := by
  rw [advance_idle hacking, send_eq hopen]
  refine h.publish (refreshed w.store w.mailbox sequences full w.mailbox.nextRevision) rfl rfl rfl (Nat.le_refl _)
    (applied_overlay _ _) rfl ?_ ?_
  · intro part hpart
    cases part with
    | captureState => trivial
    | remote => trivial
    | applied => trivial
    | utterance sequence => exact hpart
  · intro part hpart
    refine ⟨w.now + 1, Nat.le_refl _, ?_, fun a ha => Nat.le_succ_of_le (h.announced a ha).2, fun _ => rfl⟩
    rw [history_now]
    cases part with
    | captureState => rfl
    | remote => rfl
    | applied => rfl
    | utterance sequence => exact lookup_loadUtterances hpart

theorem Inv.overlay {w : World U} (h : Inv w) {overlay : RemoteTruthOverlay} {event : Event U} (hacking : w.acking = none)
    (hwaits : w.mailbox.event = some event) (huncovered : Uncovered w) :
    Inv (announce .overlaid event.eventRevision true (advance w w.store (setRemoteTruthOverlay overlay w.mailbox))) := by
  have happlied := (h.pending event hwaits).applied
  show Inv (announce .overlaid event.eventRevision true
    { advance w w.store (setRemoteTruthOverlay overlay w.mailbox) with acking := w.acking })
  refine h.amend (applyRemoteTruthOverlay event.run (some overlay)) huncovered hwaits ?_ rfl
    (Nat.le_refl _) (Nat.le_refl _) happlied rfl hacking ?_ ?_
  · show w.mailbox.event.map _ = _
    rw [hwaits]
    rfl
  · intro part hpart
    cases part with
    | captureState => trivial
    | remote => trivial
    | applied => trivial
    | utterance sequence => cases hpart
  · intro part
    cases part with
    | remote => exact .inl rfl
    | captureState => exact .inr ⟨fun hcarried => hcarried, fun _ hshows => hshows⟩
    | applied => exact .inr ⟨fun hcarried => hcarried, fun _ hshows => hshows⟩
    | utterance sequence => exact .inr ⟨fun hcarried => hcarried, fun _ hshows => hshows⟩

theorem Inv.raise {w : World U} (h : Inv w) {acking : Acking U} {revision : Nat} {event : Event U}
    (hadvances : w.store.run.realtimeLoroAppliedRevision < revision) (hwaits : w.mailbox.event = some event)
    (huncovered : Uncovered w) :
    Inv (announce .raised event.eventRevision true
      { advance w (ackRealtimeLoroProjection revision w.store) (publishAck revision acking.fallback w.mailbox) with
        acking := none }) := by
  have happlied := (h.pending event hwaits).applied
  have hsame : max event.run.realtimeLoroAppliedRevision revision =
      max w.store.run.realtimeLoroAppliedRevision revision := by omega
  rw [publishAck_waits hwaits]
  refine h.amend (raiseApplied revision event).run huncovered hwaits rfl rfl (Nat.le_max_left _ _)
    (Nat.le_max_left _ _) (Nat.le_of_eq hsame) rfl rfl ?_ ?_
  · intro part hpart
    cases part with
    | captureState => trivial
    | remote => trivial
    | applied => trivial
    | utterance sequence => cases hpart
  · intro part
    cases part with
    | applied => exact .inl (hsame.trans (applied_overlay (ackRealtimeLoroProjection revision w.store).run w.mailbox.remoteTruth).symm)
    | captureState => exact .inr ⟨fun hcarried => hcarried, fun _ hshows => hshows⟩
    | remote => exact .inr ⟨fun hcarried => hcarried, fun _ hshows => hshows⟩
    | utterance sequence => exact .inr ⟨fun hcarried => hcarried, fun _ hshows => hshows⟩

theorem Inv.publishAck {w : World U} (h : Inv w) {acking : Acking U} {revision : Nat} {event : Event U}
    (hacking : w.acking = some acking) (hadvances : w.store.run.realtimeLoroAppliedRevision < revision)
    (hidle : w.mailbox.event = none) (hfallback : acking.fallback = some event) :
    Inv (announce .ack w.mailbox.nextRevision true
      { advance w (ackRealtimeLoroProjection revision w.store)
          (Callback.publishAck revision acking.fallback w.mailbox) with
        acking := none }) := by
  obtain ⟨-, hutterances, hfull, happlied, time, htime, hstate, hremote, hafter⟩ := h.acking acking hacking event hfallback
  have hsame : max event.run.realtimeLoroAppliedRevision revision =
      max w.store.run.realtimeLoroAppliedRevision revision := by omega
  rw [publishAck_idle hidle hfallback]
  refine h.publish { raiseApplied revision event with eventRevision := w.mailbox.nextRevision } rfl rfl rfl
    (Nat.le_max_left _ _) hsame rfl ?_ ?_
  · intro part hpart
    cases part with
    | captureState => trivial
    | remote => trivial
    | applied => trivial
    | utterance sequence => cases hpart
  · intro part hpart
    cases part with
    | captureState =>
      refine ⟨time, Nat.le_succ_of_le htime, ?_, hafter, fun hcarried => by cases hcarried⟩
      rw [history_advance w _ _ htime]
      exact hstate
    | remote =>
      refine ⟨time, Nat.le_succ_of_le htime, ?_, hafter, fun hcarried => by cases hcarried⟩
      rw [history_advance w _ _ htime]
      exact hremote
    | applied =>
      refine ⟨w.now + 1, Nat.le_refl _, ?_, fun a ha => Nat.le_succ_of_le (h.announced a ha).2, fun _ => rfl⟩
      rw [history_now]
      exact hsame.trans (applied_overlay (ackRealtimeLoroProjection revision w.store).run w.mailbox.remoteTruth).symm
    | utterance sequence =>
      cases hpart with
      | inl hfull' =>
        have htrue : event.isFullSnapshot = true := hfull'
        rw [hfull] at htrue
        cases htrue
      | inr hmem =>
        have hnone : sequence ∈ event.utterances.map (·.1) := hmem
        rw [hutterances] at hnone
        cases hnone

theorem Inv.step {w w' : World U} {action : Action U} (h : Inv w) (hstep : CarefulStep w action w') : Inv w' := by
  obtain ⟨hstep, hcareful⟩ := hstep
  cases hstep with
  | write hle => exact h.quiet_same rfl rfl hle
  | sendFails hacking hfails =>
    rw [send_fails hfails]
    exact h.fail hacking rfl rfl
  | send hacking hopen => exact h.send hacking hopen
  | setOverlay _ hidle =>
    refine h.quiet_same ?_ rfl (Nat.le_refl _)
    show w.mailbox.event.map _ = _
    rw [hidle]
    rfl
  | overlay hacking hwaits => exact h.overlay hacking hwaits hcareful
  | clearOverlay _ => exact h.quiet_same rfl rfl (Nat.le_refl _)
  | beginAck _ => exact h.beginAck
  | failAck => exact h.quiet rfl rfl (Nat.le_refl _) fun _ ha => by cases ha
  | commitAck _ _ _ => exact h.quiet rfl rfl (Nat.le_max_left _ _) fun _ ha => by cases ha
  | raise _ _ _ hadvances hwaits => exact h.raise hadvances hwaits (hcareful hadvances)
  | publishAck hacking _ _ hadvances hidle hfallback => exact h.publishAck hacking hadvances hidle hfallback
  | take hacking hwaits => exact h.take hacking hwaits
  | close => exact h.quiet_same rfl rfl (Nat.le_refl _)
  | snapshot _ => exact h.readSnapshot
  | reload _ => exact h.reload
  | receive hinbox hclient hreceive =>
    have hquiet : Inv (advance w w.store w.mailbox) := h.quiet_same rfl rfl (Nat.le_refl _)
    exact hquiet.receive hinbox hclient hreceive

/-- In every run the revisions say what was lost, a snapshot covers all up to its own, and the
client shows what was published last. -/
theorem callbacks_detect_gaps {store : Store U} {actions : List (Action U)} {w : World U}
    (hrun : Run CarefulStep (start store) actions w) : CallbackStream w :=
  (hrun.invariant (fun _ _ _ hi hs => hi.step hs) (start_inv store)).stream

/-! ## An ACK for an event that a snapshot covers -/

def recording : Store String where
  run := {
    captureState := .recording
    remote := { remoteHealth := .live, providerErrorType := none, providerRequestId := none }
    realtimeLoroAppliedRevision := 0 }
  realtimeLoroDesiredRevision := 1
  utterances := [(0, "hello")]

/-- A delta waits while an ACK advances, and the client takes it. -/
theorem callbacks_detect_gaps_sample : ∃ w, Run CarefulStep (start recording)
      [.reload, .send [0] false true, .beginAck, .commitAck 1, .take, .receive] w ∧ CallbackStream w ∧
    w.client.map (·.run.realtimeLoroAppliedRevision) = some 1 := by
  have huncovered : Uncovered (announce (.event [0] false) 1 true
      (advance { readSnapshot (start recording) with client := some (.install (fullSnapshot recording .new)) } recording
        (send recording [0] false true (readSnapshot (start recording)).mailbox))) := by
    intro event hevent s hs
    obtain rfl := Option.some.inj hevent
    rw [List.mem_singleton.mp hs]
    exact Nat.one_pos
  have hrun : ∃ w, Run CarefulStep (start recording)
      [.reload, .send [0] false true, .beginAck, .commitAck 1, .take, .receive] w ∧
      w.client.map (·.run.realtimeLoroAppliedRevision) = some 1 :=
    ⟨_, .cons ⟨.reload rfl, trivial⟩ (.cons ⟨.send rfl rfl, trivial⟩ (.cons ⟨.beginAck rfl, trivial⟩ (.cons
      ⟨.raise rfl (Nat.le_refl 1) rfl Nat.one_pos rfl, fun _ => huncovered⟩ (.cons ⟨.take rfl rfl, trivial⟩ (.cons
      ⟨.receive rfl rfl rfl, trivial⟩ (.nil _)))))), rfl⟩
  obtain ⟨w, hrun, happlied⟩ := hrun
  exact ⟨w, hrun, callbacks_detect_gaps hrun, happlied⟩

/-- The snapshot has the revision of the delta that waits; the ACK then changes the delta, which
the client takes for covered. -/
theorem ack_after_snapshot_is_missed : ∃ w, Run Step (start recording)
      [.send [0] false true, .reload, .beginAck, .commitAck 1, .take, .receive] w ∧ ¬ CallbackStream w ∧
    w.mailbox.event = none ∧ w.inbox = [] ∧ w.store.run.realtimeLoroAppliedRevision = 1 ∧
    w.client.map (·.run.realtimeLoroAppliedRevision) = some 0 := by
  refine ⟨_, .cons (.send rfl rfl) (.cons (.reload rfl) (.cons (.beginAck rfl) (.cons
    (.raise rfl (Nat.le_refl 1) rfl Nat.one_pos rfl) (.cons (.take rfl rfl) (.cons (.receive rfl rfl rfl) (.nil _)))))), ?_, rfl, rfl, rfl,
    rfl⟩
  intro h
  have hlater := h.later _ List.mem_cons_self _ List.mem_cons_self (by decide)
  exact absurd hlater (by decide)

end Zulangue.Callback
