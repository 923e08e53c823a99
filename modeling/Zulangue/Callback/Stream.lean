import Mathlib.Data.List.Nodup
import Zulangue.Callback.Mailbox

/-!
# Gaps and checkpoints

What the events and the snapshots of a mailbox promise: revisions say what was lost, a snapshot
covers all up to its own, and a client that follows the rules shows the store.
-/

namespace Zulangue.Callback

variable {U : Type}

/-! ## What is shown -/

/-- The parts of what a client shows. -/
inductive Part where
  | captureState
  | remote
  | applied
  | utterance (sequence : Nat)

def Shows (part : Part) (run : CaptureRun) (utterances : Nat → Option U) (store : Store U) : Prop :=
  match part with
  | .captureState => run.captureState = store.run.captureState
  | .remote => run.remote = store.run.remote
  | .applied => run.realtimeLoroAppliedRevision = store.run.realtimeLoroAppliedRevision
  | .utterance sequence => utterances sequence = store.utterances.lookup sequence

def Publication.Carries : Publication → Part → Prop
  | .event sequences full, .utterance sequence => full = true ∨ sequence ∈ sequences
  | .event _ _, _ => True
  | .ack, .applied => True
  | .ack, _ => False
  | .raised, .applied => True
  | .raised, _ => False
  | .overlaid, .remote => True
  | .overlaid, _ => False

/-- What is published under a revision of its own. -/
def Publication.allocates : Publication → Bool
  | .event _ _ => true
  | .ack => true
  | .raised => false
  | .overlaid => false

def Event.Carries (event : Event U) : Part → Prop
  | .utterance sequence => event.isFullSnapshot = true ∨ sequence ∈ event.utterances.map (·.1)
  | _ => True

/-! ## What is promised -/

/-- The stream of a mailbox and its snapshots. -/
structure CallbackStream (w : World U) : Prop where
  /-- Revisions are allocated in the order of publication. -/
  allocation : ((w.announced.filter (·.publication.allocates)).map (·.revision)).Pairwise (· < ·)
  delivery : (w.delivered.map (·.event.eventRevision)).Pairwise (· < ·)
  /-- Between two consecutive revisions that are delivered nothing is lost. -/
  noLoss : ∀ d ∈ w.delivered, ∀ d' ∈ w.delivered, d'.event.eventRevision = d.event.eventRevision + 1 →
    ∀ a ∈ w.announced, a.publication.allocates = true → d.event.eventRevision < a.revision →
      a.revision ≤ d'.event.eventRevision → a.enqueued = true ∧ a.revision = d'.event.eventRevision
  /-- A snapshot shows all of the store, as it was after whatever is published up to its revision. -/
  checkpoint : ∀ s ∈ w.snapshots, s.event.run = (w.history s.time).run ∧
    s.event.utterances = (w.history s.time).utterances ∧
    ∀ a ∈ w.announced, a.revision ≤ s.event.eventRevision → a.time ≤ s.time
  /-- What is delivered later is new, or was there for the snapshot to show. -/
  later : ∀ s ∈ w.snapshots, ∀ d ∈ w.delivered, s.time < d.takenAt →
    s.event.eventRevision < d.event.eventRevision ∨ d.changedAt ≤ s.time
  watermark : (w.delivered.map (·.event.run.realtimeLoroAppliedRevision)).Pairwise (· ≤ ·) ∧
    ∀ d ∈ w.delivered,
      d.event.run.realtimeLoroAppliedRevision ≤ (w.history d.takenAt).run.realtimeLoroAppliedRevision
  /-- Once all is handed over, the client shows each part whose last change was enqueued. -/
  client : ∀ c, w.client = some c → w.mailbox.event = none → w.inbox = [] →
    ∀ part, ∀ a ∈ w.announced, a.enqueued = true → a.publication.Carries part →
      (∀ time, a.time ≤ time → time ≤ w.now → Shows part (truth w.store w.mailbox).run
        (fun sequence => (truth w.store w.mailbox).utterances.lookup sequence) (w.history time)) →
      Shows part c.run c.utterances (truth w.store w.mailbox)

/-- No snapshot covers the event that waits. -/
def Uncovered (w : World U) : Prop :=
  ∀ event, w.mailbox.event = some event → ∀ s ∈ w.snapshots, s.event.eventRevision < event.eventRevision

/-- An event that waits is changed in its place only while no snapshot covers it. -/
def Careful (w : World U) : Action U → Prop
  | .setOverlay _ => Uncovered w
  | .commitAck revision => w.store.run.realtimeLoroAppliedRevision < revision → Uncovered w
  | _ => True

def CarefulStep (w : World U) (action : Action U) (w' : World U) : Prop := Step w action w' ∧ Careful w action

/-! ## The invariant -/

/-- A part as it was at some time, after all that is published of it up to a revision. -/
def Fresh (w : World U) (part : Part) (run : CaptureRun) (utterances : Nat → Option U) (revision : Nat) : Prop :=
  ∃ time ≤ w.now, Shows part run utterances (w.history time) ∧
    ∀ a ∈ w.announced, a.revision ≤ revision → a.publication.Carries part → a.time ≤ time

structure EventOk (w : World U) (event : Event U) : Prop where
  fresh : ∀ part, event.Carries part →
    Fresh w part event.run (fun sequence => event.utterances.lookup sequence) event.eventRevision
  only : ∀ a ∈ w.announced, a.revision = event.eventRevision → ∀ part, a.publication.Carries part → event.Carries part
  allocated : ∃ a ∈ w.announced, a.publication.allocates = true ∧ a.enqueued = true ∧ a.revision = event.eventRevision

structure PendingOk (w : World U) (event : Event U) : Prop where
  ok : EventOk w event
  delivered : ∀ d ∈ w.delivered, d.event.eventRevision < event.eventRevision ∧
    d.event.run.realtimeLoroAppliedRevision ≤ event.run.realtimeLoroAppliedRevision
  applied : event.run.realtimeLoroAppliedRevision ≤ w.store.run.realtimeLoroAppliedRevision
  changed : ∀ s ∈ w.snapshots, s.event.eventRevision < event.eventRevision ∨ w.changedAt ≤ s.time

structure AckingOk (w : World U) (event : Event U) : Prop where
  idle : w.mailbox.event = none
  utterances : event.utterances = []
  full : event.isFullSnapshot = false
  applied : event.run.realtimeLoroAppliedRevision ≤ w.store.run.realtimeLoroAppliedRevision
  fresh : ∃ time ≤ w.now, event.run.captureState = (w.history time).run.captureState ∧
    event.run.remote = (w.history time).run.remote ∧ ∀ a ∈ w.announced, a.time ≤ time

structure DeliveryOk (w : World U) (d : Delivery U) : Prop where
  allocated : ∃ a ∈ w.announced, a.publication.allocates = true ∧ a.enqueued = true ∧
    a.revision = d.event.eventRevision
  taken : d.takenAt ≤ w.now
  applied : d.event.run.realtimeLoroAppliedRevision ≤ (w.history d.takenAt).run.realtimeLoroAppliedRevision
  store : d.event.run.realtimeLoroAppliedRevision ≤ w.store.run.realtimeLoroAppliedRevision

structure SnapshotOk (w : World U) (s : Snapshot U) : Prop where
  revision : s.event.eventRevision < w.mailbox.nextRevision
  time : s.time ≤ w.now
  run : s.event.run = (w.history s.time).run
  utterances : s.event.utterances = (w.history s.time).utterances
  covers : ∀ a ∈ w.announced, a.revision ≤ s.event.eventRevision → a.time ≤ s.time

structure ClientOk (w : World U) (client : Client U) : Prop where
  fresh : ∀ part, Fresh w part client.run client.utterances client.lastApplied
  ahead : (∃ d ∈ w.delivered, client.lastApplied ≤ d.event.eventRevision) ∨
    ∃ s ∈ w.snapshots, client.lastApplied ≤ s.event.eventRevision

/-- Something that is enqueued has reached the client or is on its way. -/
def Reached (w : World U) (revision : Nat) : Prop :=
  (∃ c, w.client = some c ∧ revision ≤ c.lastApplied) ∨ (∃ event ∈ w.inbox, revision ≤ event.eventRevision) ∨
    ∃ event, w.mailbox.event = some event ∧ revision ≤ event.eventRevision

structure Inv (w : World U) : Prop where
  truth : w.history w.now = truth w.store w.mailbox
  positive : 0 < w.mailbox.nextRevision
  changedAt : w.changedAt ≤ w.now
  announced : ∀ a ∈ w.announced, a.revision < w.mailbox.nextRevision ∧ a.time ≤ w.now
  allocation : ((w.announced.filter (·.publication.allocates)).map (·.revision)).Pairwise (· < ·)
  pending : ∀ event, w.mailbox.event = some event → PendingOk w event
  acking : ∀ acking, w.acking = some acking → ∀ event, acking.fallback = some event → AckingOk w event
  inbox : ∀ event ∈ w.inbox, EventOk w event ∧ ∃ d ∈ w.delivered, d.event = event
  client : ∀ c, w.client = some c → ClientOk w c
  reached : ∀ a ∈ w.announced, a.enqueued = true → Reached w a.revision
  delivered : ∀ d ∈ w.delivered, DeliveryOk w d
  delivery : (w.delivered.map (·.event.eventRevision)).Pairwise (· < ·)
  watermark : (w.delivered.map (·.event.run.realtimeLoroAppliedRevision)).Pairwise (· ≤ ·)
  snapshots : ∀ s ∈ w.snapshots, SnapshotOk w s
  later : ∀ s ∈ w.snapshots, ∀ d ∈ w.delivered, s.time < d.takenAt →
    s.event.eventRevision < d.event.eventRevision ∨ d.changedAt ≤ s.time

theorem start_inv (store : Store U) : Inv (start store) where
  truth := rfl
  positive := Nat.one_pos
  changedAt := Nat.le_refl _
  announced := fun _ h => by cases h
  allocation := List.Pairwise.nil
  pending := fun _ h => by cases h
  acking := fun _ h => by cases h
  inbox := fun _ h => by cases h
  client := fun _ h => by cases h
  reached := fun _ h => by cases h
  delivered := fun _ h => by cases h
  delivery := List.Pairwise.nil
  watermark := List.Pairwise.nil
  snapshots := fun _ h => by cases h
  later := fun _ h => by cases h

/-! ## The invariant gives the promise -/

theorem Shows.trans {part : Part} {run : CaptureRun} {utterances : Nat → Option U} {a b : Store U}
    (h : Shows part run utterances a) (h' : Shows part b.run (fun sequence => b.utterances.lookup sequence) a) :
    Shows part run utterances b := by
  cases part with
  | captureState => exact Eq.trans h (Eq.symm h')
  | remote => exact Eq.trans h (Eq.symm h')
  | applied => exact Eq.trans h (Eq.symm h')
  | utterance sequence => exact Eq.trans h (Eq.symm h')

theorem allocated_unique {announced : List Announcement}
    (h : ((announced.filter (·.publication.allocates)).map (·.revision)).Pairwise (· < ·)) {a b : Announcement}
    (ha : a ∈ announced) (hb : b ∈ announced) (ha' : a.publication.allocates = true)
    (hb' : b.publication.allocates = true) (hsame : a.revision = b.revision) : a = b := by
  have hnodup : ((announced.filter (·.publication.allocates)).map (·.revision)).Nodup := h.imp Nat.ne_of_lt
  exact List.inj_on_of_nodup_map hnodup (List.mem_filter.mpr ⟨ha, ha'⟩) (List.mem_filter.mpr ⟨hb, hb'⟩) hsame

theorem Inv.stream {w : World U} (h : Inv w) : CallbackStream w where
  allocation := h.allocation
  delivery := h.delivery
  noLoss := by
    intro d _ d' hd' hnext a ha hallocates hafter hupTo
    obtain ⟨b, hb, hb', henqueued, hrevision⟩ := (h.delivered d' hd').allocated
    have hsame : a.revision = d'.event.eventRevision := by omega
    rw [allocated_unique h.allocation ha hb hallocates hb' (hsame.trans hrevision.symm)]
    exact ⟨henqueued, hrevision⟩
  checkpoint := fun s hs => ⟨(h.snapshots s hs).run, (h.snapshots s hs).utterances, (h.snapshots s hs).covers⟩
  later := h.later
  watermark := ⟨h.watermark, fun d hd => (h.delivered d hd).applied⟩
  client := by
    intro c hc hidle hinbox part a ha henqueued hcarries hsince
    have hreached : a.revision ≤ c.lastApplied := by
      obtain ⟨c', hc', hle⟩ | ⟨event, hevent, -⟩ | ⟨event, hevent, -⟩ := h.reached a ha henqueued
      · rw [hc] at hc'
        rwa [Option.some.inj hc']
      · rw [hinbox] at hevent
        cases hevent
      · rw [hidle] at hevent
        cases hevent
    obtain ⟨time, htime, hshows, hafter⟩ := (h.client c hc).fresh part
    exact hshows.trans (hsince time (hafter a ha hreached hcarries) htime)

end Zulangue.Callback
