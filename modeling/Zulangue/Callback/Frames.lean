import Zulangue.Callback.Stream

/-!
# What publishes nothing

Steps under which whatever was published, delivered and shown stays as it is.
-/

namespace Zulangue.Callback

variable {U : Type}

/-! ## What goes on -/

/-- Time went on, and nothing new is published at or below a revision. -/
structure Extends (w w' : World U) (revision : Nat) : Prop where
  now : w.now ≤ w'.now
  history : ∀ time ≤ w.now, w'.history time = w.history time
  kept : ∀ a ∈ w.announced, a ∈ w'.announced
  published : ∀ a ∈ w'.announced, a ∈ w.announced ∨ revision < a.revision

theorem Fresh.extend {w w' : World U} {part : Part} {run : CaptureRun} {utterances : Nat → Option U} {revision : Nat}
    (h : Fresh w part run utterances revision) (hextends : Extends w w' revision) :
    Fresh w' part run utterances revision := by
  obtain ⟨time, htime, hshows, hafter⟩ := h
  refine ⟨time, Nat.le_trans htime hextends.now, ?_, ?_⟩
  · rwa [hextends.history time htime]
  · intro a ha hrevision hcarries
    cases hextends.published a ha with
    | inl hold => exact hafter a hold hrevision hcarries
    | inr hnew => omega

theorem EventOk.extend {w w' : World U} {event : Event U} (h : EventOk w event)
    (hextends : Extends w w' event.eventRevision) : EventOk w' event where
  fresh := fun part hcarries => (h.fresh part hcarries).extend hextends
  only := by
    intro a ha hsame part hcarries
    cases hextends.published a ha with
    | inl hold => exact h.only a hold hsame part hcarries
    | inr hnew => omega
  allocated := by
    obtain ⟨a, ha, h'⟩ := h.allocated
    exact ⟨a, hextends.kept a ha, h'⟩

theorem DeliveryOk.extend {w w' : World U} {d : Delivery U} (h : DeliveryOk w d) {revision : Nat}
    (hextends : Extends w w' revision)
    (hstore : w.store.run.realtimeLoroAppliedRevision ≤ w'.store.run.realtimeLoroAppliedRevision) :
    DeliveryOk w' d where
  allocated := by
    obtain ⟨a, ha, h'⟩ := h.allocated
    exact ⟨a, hextends.kept a ha, h'⟩
  taken := Nat.le_trans h.taken hextends.now
  applied := by
    rw [hextends.history d.takenAt h.taken]
    exact h.applied
  store := Nat.le_trans h.store hstore

theorem SnapshotOk.extend {w w' : World U} {s : Snapshot U} (h : SnapshotOk w s)
    (hextends : Extends w w' s.event.eventRevision) (hnext : w.mailbox.nextRevision ≤ w'.mailbox.nextRevision) :
    SnapshotOk w' s where
  revision := Nat.lt_of_lt_of_le h.revision hnext
  time := Nat.le_trans h.time hextends.now
  run := by
    rw [hextends.history s.time h.time]
    exact h.run
  utterances := by
    rw [hextends.history s.time h.time]
    exact h.utterances
  covers := by
    intro a ha hrevision
    cases hextends.published a ha with
    | inl hold => exact h.covers a hold hrevision
    | inr hnew => omega

theorem AckingOk.extend {w w' : World U} {event : Event U} (h : AckingOk w event) {revision : Nat}
    (hextends : Extends w w' revision) (hannounced : w'.announced = w.announced)
    (hevent : w'.mailbox.event = w.mailbox.event)
    (hstore : w.store.run.realtimeLoroAppliedRevision ≤ w'.store.run.realtimeLoroAppliedRevision) :
    AckingOk w' event where
  idle := hevent.trans h.idle
  utterances := h.utterances
  full := h.full
  applied := Nat.le_trans h.applied hstore
  fresh := by
    obtain ⟨time, htime, hstate, hremote, hafter⟩ := h.fresh
    refine ⟨time, Nat.le_trans htime hextends.now, ?_⟩
    rw [hextends.history time htime, hannounced]
    exact ⟨hstate, hremote, hafter⟩

theorem history_advance (w : World U) (store : Store U) (mailbox : Mailbox U) {time : Nat} (h : time ≤ w.now) :
    (advance w store mailbox).history time = w.history time :=
  Function.update_of_ne (β := fun _ => Store U) (by omega) _ _

theorem history_now (w : World U) (store : Store U) (mailbox : Mailbox U) :
    (advance w store mailbox).history (w.now + 1) = truth store mailbox :=
  Function.update_self (β := fun _ => Store U) _ _ _

/-- A step that publishes nothing. -/
theorem extends_advance (w : World U) (store : Store U) (mailbox : Mailbox U) (acking : Option (Acking U)) (revision : Nat) :
    Extends w { advance w store mailbox with acking } revision where
  now := Nat.le_succ _
  history := fun _ htime => history_advance w store mailbox htime
  kept := fun _ ha => ha
  published := fun _ ha => .inl ha

@[simp] theorem applied_overlay (run : CaptureRun) (overlay : Option RemoteTruthOverlay) :
    (applyRemoteTruthOverlay run overlay).realtimeLoroAppliedRevision = run.realtimeLoroAppliedRevision := by
  cases overlay with
  | none => rfl
  | some overlay => rfl

@[simp] theorem captureState_overlay (run : CaptureRun) (overlay : Option RemoteTruthOverlay) :
    (applyRemoteTruthOverlay run overlay).captureState = run.captureState := by
  cases overlay with
  | none => rfl
  | some overlay => rfl

/-! ## Steps that publish nothing -/

theorem Inv.quiet {w : World U} (h : Inv w) {store : Store U} {mailbox : Mailbox U} {acking : Option (Acking U)}
    (hevent : mailbox.event = w.mailbox.event) (hnext : mailbox.nextRevision = w.mailbox.nextRevision)
    (hstore : w.store.run.realtimeLoroAppliedRevision ≤ store.run.realtimeLoroAppliedRevision)
    (hacking : ∀ a, acking = some a → ∀ event, a.fallback = some event →
      AckingOk { advance w store mailbox with acking } event) :
    Inv { advance w store mailbox with acking } := by
  have hextends := extends_advance w store mailbox acking
  constructor
  · exact history_now w store mailbox
  · exact hnext ▸ h.positive
  · exact Nat.le_succ_of_le h.changedAt
  · intro a ha
    obtain ⟨hrevision, htime⟩ := h.announced a ha
    exact ⟨hnext ▸ hrevision, Nat.le_succ_of_le htime⟩
  · exact h.allocation
  · intro event hpending
    have hok := h.pending event (hevent.symm.trans hpending)
    exact ⟨hok.ok.extend (hextends _), hok.delivered, Nat.le_trans hok.applied hstore, hok.changed⟩
  · exact hacking
  · intro event hmem
    exact ⟨(h.inbox event hmem).1.extend (hextends _), (h.inbox event hmem).2⟩
  · intro c hc
    exact ⟨fun part => ((h.client c hc).fresh part).extend (hextends _), (h.client c hc).ahead⟩
  · intro a ha henqueued
    obtain hclient | hinbox | ⟨event, hpending, hle⟩ := h.reached a ha henqueued
    · exact .inl hclient
    · exact .inr (.inl hinbox)
    · exact .inr (.inr ⟨event, hevent.trans hpending, hle⟩)
  · exact fun d hd => (h.delivered d hd).extend (hextends 0) hstore
  · exact h.delivery
  · exact h.watermark
  · exact fun s hs => (h.snapshots s hs).extend (hextends _) (Nat.le_of_eq hnext.symm)
  · exact h.later

theorem Inv.quiet_same {w : World U} (h : Inv w) {store : Store U} {mailbox : Mailbox U}
    (hevent : mailbox.event = w.mailbox.event) (hnext : mailbox.nextRevision = w.mailbox.nextRevision)
    (hstore : w.store.run.realtimeLoroAppliedRevision ≤ store.run.realtimeLoroAppliedRevision) :
    Inv (advance w store mailbox) := by
  show Inv { advance w store mailbox with acking := w.acking }
  refine h.quiet hevent hnext hstore ?_
  intro a ha event hfallback
  exact (h.acking a ha event hfallback).extend (extends_advance w store mailbox w.acking 0) rfl hevent hstore

theorem Inv.beginAck {w : World U} (h : Inv w) :
    Inv { advance w w.store w.mailbox with acking := some (beginAck w.store w.mailbox) } := by
  refine h.quiet rfl rfl (Nat.le_refl _) ?_
  intro a ha event hfallback
  obtain rfl := Option.some.inj ha
  rw [Callback.beginAck] at hfallback
  dsimp only at hfallback
  split at hfallback
  · next hidle =>
    obtain rfl := Option.some.inj hfallback
    rw [Bool.and_eq_true, Option.isNone_iff_eq_none] at hidle
    refine ⟨hidle.2, rfl, rfl, ?_, w.now + 1, Nat.le_refl _, ?_⟩
    · rw [applied_overlay]
      exact Nat.le_refl _
    · refine ⟨?_, ?_, fun a ha => Nat.le_succ_of_le (h.announced a ha).2⟩
      · rw [show ({ advance w w.store w.mailbox with acking := _ } : World U).history (w.now + 1) = _ from
          history_now w w.store w.mailbox]
        rfl
      · rw [show ({ advance w w.store w.mailbox with acking := _ } : World U).history (w.now + 1) = _ from
          history_now w w.store w.mailbox]
        rfl
  · cases hfallback

/-! ## Snapshots -/

theorem extends_same {w w' : World U} (hnow : w'.now = w.now) (hhistory : w'.history = w.history)
    (hannounced : w'.announced = w.announced) (revision : Nat) : Extends w w' revision where
  now := Nat.le_of_eq hnow.symm
  history := fun time _ => congrFun hhistory time
  kept := fun _ ha => hannounced ▸ ha
  published := fun _ ha => .inl (hannounced ▸ ha)

theorem Inv.addSnapshot {w : World U} (h : Inv w) {s : Snapshot U} (hok : SnapshotOk w s) (hnow : s.time = w.now) :
    Inv { w with snapshots := w.snapshots ++ [s] } := by
  have hextends : ∀ revision, Extends w { w with snapshots := w.snapshots ++ [s] } revision :=
    extends_same rfl rfl rfl
  have hsplit : ∀ {s'}, s' ∈ w.snapshots ++ [s] → s' ∈ w.snapshots ∨ s' = s := by
    intro s' hs'
    rwa [List.mem_append, List.mem_singleton] at hs'
  constructor
  · exact h.truth
  · exact h.positive
  · exact h.changedAt
  · exact h.announced
  · exact h.allocation
  · intro event hpending
    have hevent := h.pending event hpending
    refine ⟨hevent.ok.extend (hextends _), hevent.delivered, hevent.applied, ?_⟩
    intro s' hs'
    cases hsplit hs' with
    | inl hold => exact hevent.changed s' hold
    | inr hnew =>
      rw [hnew, hnow]
      exact .inr h.changedAt
  · exact fun a ha event hfallback => (h.acking a ha event hfallback).extend (hextends 0) rfl rfl (Nat.le_refl _)
  · exact fun event hmem => ⟨(h.inbox event hmem).1.extend (hextends _), (h.inbox event hmem).2⟩
  · intro c hc
    refine ⟨fun part => ((h.client c hc).fresh part).extend (hextends _), (h.client c hc).ahead.imp_right ?_⟩
    rintro ⟨s', hs', hle⟩
    exact ⟨s', List.mem_append_left _ hs', hle⟩
  · exact h.reached
  · exact fun d hd => (h.delivered d hd).extend (hextends 0) (Nat.le_refl _)
  · exact h.delivery
  · exact h.watermark
  · intro s' hs'
    cases hsplit hs' with
    | inl hold => exact (h.snapshots s' hold).extend (hextends _) (Nat.le_refl _)
    | inr hnew =>
      rw [hnew]
      exact hok.extend (hextends _) (Nat.le_refl _)
  · intro s' hs' d hd htime
    cases hsplit hs' with
    | inl hold => exact h.later s' hold d hd htime
    | inr hnew =>
      rw [hnew, hnow] at htime
      exact absurd htime (Nat.not_lt.mpr (h.delivered d hd).taken)

theorem Inv.readSnapshot {w : World U} (h : Inv w) : Inv (readSnapshot w) := by
  have hquiet : Inv (advance w w.store { w.mailbox with remoteTruth := settledOverlay w.store w.mailbox }) :=
    h.quiet_same rfl rfl (Nat.le_refl _)
  refine hquiet.addSnapshot ⟨?_, Nat.le_refl _, ?_, ?_, ?_⟩ rfl
  · exact Nat.sub_lt h.positive Nat.one_pos
  · exact (congrArg Store.run (history_now w w.store { w.mailbox with remoteTruth := _ })).symm
  · exact (congrArg Store.utterances (history_now w w.store { w.mailbox with remoteTruth := _ })).symm
  · exact fun a ha _ => Nat.le_succ_of_le (h.announced a ha).2

theorem shows_of_eq {part : Part} {event : Event U} {store : Store U} (hrun : event.run = store.run)
    (hutterances : event.utterances = store.utterances) :
    Shows part event.run (fun sequence => event.utterances.lookup sequence) store := by
  cases part with
  | captureState => exact congrArg CaptureRun.captureState hrun
  | remote => exact congrArg CaptureRun.remote hrun
  | applied => exact congrArg CaptureRun.realtimeLoroAppliedRevision hrun
  | utterance sequence => exact congrArg (fun utterances => utterances.lookup sequence) hutterances

theorem Inv.setClient {w : World U} (h : Inv w) {c : Client U} {inbox : List (Event U)} (hok : ClientOk w c)
    (hinbox : ∀ event ∈ inbox, event ∈ w.inbox)
    (hreached : ∀ a ∈ w.announced, a.enqueued = true →
      a.revision ≤ c.lastApplied ∨ (∃ event ∈ inbox, a.revision ≤ event.eventRevision) ∨
        ∃ event, w.mailbox.event = some event ∧ a.revision ≤ event.eventRevision) :
    Inv { w with inbox, client := some c } := by
  have hextends : ∀ revision, Extends w { w with inbox, client := some c } revision := extends_same rfl rfl rfl
  constructor
  · exact h.truth
  · exact h.positive
  · exact h.changedAt
  · exact h.announced
  · exact h.allocation
  · intro event hpending
    have hevent := h.pending event hpending
    exact ⟨hevent.ok.extend (hextends _), hevent.delivered, hevent.applied, hevent.changed⟩
  · exact fun a ha event hfallback => (h.acking a ha event hfallback).extend (hextends 0) rfl rfl (Nat.le_refl _)
  · intro event hmem
    obtain ⟨hevent, hdelivered⟩ := h.inbox event (hinbox event hmem)
    exact ⟨hevent.extend (hextends _), hdelivered⟩
  · intro c' hc'
    obtain rfl := Option.some.inj hc'
    exact ⟨fun part => (hok.fresh part).extend (hextends _), hok.ahead⟩
  · intro a ha henqueued
    exact (hreached a ha henqueued).imp_left fun hle => ⟨c, rfl, hle⟩
  · exact fun d hd => (h.delivered d hd).extend (hextends 0) (Nat.le_refl _)
  · exact h.delivery
  · exact h.watermark
  · exact fun s hs => (h.snapshots s hs).extend (hextends _) (Nat.le_refl _)
  · exact h.later

theorem SnapshotOk.install {w : World U} {s : Snapshot U} (h : SnapshotOk w s) (hmem : s ∈ w.snapshots) :
    ClientOk w (.install s.event) where
  fresh := by
    intro part
    exact ⟨s.time, h.time, shows_of_eq h.run h.utterances, fun a ha hrevision _ => h.covers a ha hrevision⟩
  ahead := .inr ⟨s, hmem, Nat.le_refl _⟩

theorem Inv.reload {w : World U} (h : Inv w) :
    Inv { Callback.readSnapshot w with client := some (.install (fullSnapshot w.store w.mailbox)) } := by
  have hread := h.readSnapshot
  have hmem : { event := fullSnapshot w.store w.mailbox, time := w.now + 1 } ∈ (Callback.readSnapshot w).snapshots :=
    List.mem_append_right _ (List.mem_singleton.mpr rfl)
  refine hread.setClient ((hread.snapshots _ hmem).install hmem) (fun _ hevent => hevent) ?_
  intro a ha _
  have hlt := (h.announced a ha).1
  exact .inl (Nat.le_sub_one_of_lt hlt)

/-! ## The client takes an event -/

theorem EventOk.install {w : World U} {event : Event U} (h : EventOk w event) (hfull : event.isFullSnapshot = true)
    (part : Part) :
    Fresh w part (Client.install event).run (Client.install event).utterances (Client.install event).lastApplied := by
  refine h.fresh part ?_
  cases part with
  | utterance sequence => exact .inl hfull
  | captureState => trivial
  | remote => trivial
  | applied => trivial

theorem lookup_eq_none {l : List (Nat × U)} {sequence : Nat} (h : sequence ∉ l.map (·.1)) : l.lookup sequence = none := by
  rw [List.lookup_eq_none_iff]
  intro p hp
  rw [bne_iff_ne]
  rintro rfl
  exact h (List.mem_map_of_mem hp)

theorem exists_lookup {l : List (Nat × U)} {sequence : Nat} (h : sequence ∈ l.map (·.1)) :
    ∃ utterance, l.lookup sequence = some utterance := by
  rw [← Option.ne_none_iff_exists']
  intro hnone
  obtain ⟨p, hp, rfl⟩ := List.mem_map.mp h
  rw [List.lookup_eq_none_iff] at hnone
  exact bne_iff_ne.mp (hnone p hp) rfl

theorem EventOk.merge {w : World U} {event : Event U} {client : Client U} (h : EventOk w event)
    (hclient : ClientOk w client) (hdelta : event.isFullSnapshot = false)
    (hnext : event.eventRevision = client.lastApplied + 1) (part : Part) :
    Fresh w part (client.merge event).run (client.merge event).utterances (client.merge event).lastApplied := by
  by_cases hcarries : event.Carries part
  · obtain ⟨time, htime, hshows, hafter⟩ := h.fresh part hcarries
    refine ⟨time, htime, ?_, hafter⟩
    cases part with
    | captureState => exact hshows
    | remote => exact hshows
    | applied => exact hshows
    | utterance sequence =>
      have hmem : sequence ∈ event.utterances.map (·.1) := by
        cases hcarries with
        | inl hfull =>
          rw [hdelta] at hfull
          cases hfull
        | inr hmem => exact hmem
      obtain ⟨utterance, hlookup⟩ := exists_lookup hmem
      show (event.utterances.lookup sequence).or _ = _
      rw [← show event.utterances.lookup sequence = _ from hshows, hlookup]
      rfl
  · cases part with
    | captureState => exact absurd trivial hcarries
    | remote => exact absurd trivial hcarries
    | applied => exact absurd trivial hcarries
    | utterance sequence =>
      obtain ⟨time, htime, hshows, hafter⟩ := hclient.fresh (.utterance sequence)
      refine ⟨time, htime, ?_, ?_⟩
      · show (event.utterances.lookup sequence).or _ = _
        rw [lookup_eq_none fun hmem => hcarries (.inr hmem)]
        exact hshows
      · intro a ha hrevision hcarried
        rcases Nat.lt_or_ge a.revision event.eventRevision with hlt | hge
        · exact hafter a ha (by omega) hcarried
        · exact absurd (h.only a ha (Nat.le_antisymm hrevision hge) _ hcarried) hcarries

theorem Inv.receive {w : World U} (h : Inv w) {event : Event U} {rest : List (Event U)} {client client' : Client U}
    (hinbox : w.inbox = event :: rest) (hclient : w.client = some client)
    (hreceive : client.receive event = some client') : Inv { w with inbox := rest, client := some client' } := by
  have hmem : event ∈ w.inbox := by
    rw [hinbox]
    exact List.mem_cons_self
  obtain ⟨hevent, d, hd, rfl⟩ := h.inbox event hmem
  have hok := h.client client hclient
  have hreceived : ClientOk w client' ∧ client.lastApplied ≤ client'.lastApplied ∧
      d.event.eventRevision ≤ client'.lastApplied := by
    rw [Client.receive] at hreceive
    split at hreceive
    · next hcovered =>
      obtain rfl := Option.some.inj hreceive
      exact ⟨hok, Nat.le_refl _, hcovered⟩
    · next hnew =>
      have hlater : client.lastApplied ≤ d.event.eventRevision := Nat.le_of_lt (Nat.not_le.mp hnew)
      split at hreceive
      · next hfull =>
        obtain rfl := Option.some.inj hreceive
        exact ⟨⟨hevent.install hfull, .inl ⟨d, hd, Nat.le_refl _⟩⟩, hlater, Nat.le_refl _⟩
      · next hdelta =>
        split at hreceive
        · next hnext =>
          obtain rfl := Option.some.inj hreceive
          rw [Bool.not_eq_true] at hdelta
          exact ⟨⟨hevent.merge hok hdelta hnext, .inl ⟨d, hd, Nat.le_refl _⟩⟩, hlater, Nat.le_refl _⟩
        · cases hreceive
  obtain ⟨hok', hlast, hrevision⟩ := hreceived
  refine h.setClient hok' ?_ ?_
  · intro other hother
    rw [hinbox]
    exact List.mem_cons_of_mem _ hother
  · intro a ha henqueued
    obtain ⟨c, hc, hle⟩ | ⟨other, hother, hle⟩ | hpending := h.reached a ha henqueued
    · rw [hclient] at hc
      obtain rfl := Option.some.inj hc
      exact .inl (Nat.le_trans hle hlast)
    · rw [hinbox] at hother
      cases List.mem_cons.mp hother with
      | inl hhead =>
        rw [hhead] at hle
        exact .inl (Nat.le_trans hle hrevision)
      | inr hrest => exact .inr (.inl ⟨other, hrest, hle⟩)
    · exact .inr (.inr hpending)

end Zulangue.Callback
