import Zulangue.Callback.Frames

/-!
# What is published

A revision of its own, with an event or without, a change of the event that waits, and its
delivery.
-/

namespace Zulangue.Callback

variable {U : Type}

/-! ## Publishing -/

theorem mem_announced {w : World U} {publication : Publication} {revision : Nat} {enqueued : Bool} {a : Announcement}
    (h : a ∈ (announce publication revision enqueued w).announced) :
    a ∈ w.announced ∨ a = { revision, publication, enqueued, time := w.now } := by
  rwa [announce, List.mem_append, List.mem_singleton] at h

theorem extends_announce (w : World U) (store : Store U) (mailbox : Mailbox U) (acking : Option (Acking U))
    (publication : Publication) (enqueued : Bool) {revision revision' : Nat} (h : revision < revision') :
    Extends w (announce publication revision' enqueued { advance w store mailbox with acking }) revision where
  now := Nat.le_succ _
  history := fun _ htime => history_advance w store mailbox htime
  kept := fun _ ha => List.mem_append_left _ ha
  published := by
    intro a ha
    cases mem_announced ha with
    | inl hold => exact .inl hold
    | inr hnew =>
      rw [hnew]
      exact .inr h

theorem allocation_concat {announced : List Announcement} {a : Announcement}
    (h : ((announced.filter (·.publication.allocates)).map (·.revision)).Pairwise (· < ·))
    (hnew : ∀ b ∈ announced, b.revision < a.revision) :
    (((announced ++ [a]).filter (·.publication.allocates)).map (·.revision)).Pairwise (· < ·) := by
  rw [List.filter_append, List.map_append, List.pairwise_append]
  refine ⟨h, ?_, ?_⟩
  · rw [List.filter_singleton]
    cases a.publication.allocates with
    | true => exact List.pairwise_singleton _ _
    | false => exact List.Pairwise.nil
  · intro x hx y hy
    obtain ⟨b, hb, rfl⟩ := List.mem_map.mp hx
    obtain ⟨c, hc, rfl⟩ := List.mem_map.mp hy
    rw [List.mem_singleton.mp (List.mem_of_mem_filter hc)]
    exact hnew b (List.mem_of_mem_filter hb)

theorem PendingOk.revision_lt {w : World U} {event : Event U} (h : PendingOk w event) (hw : Inv w) :
    event.eventRevision < w.mailbox.nextRevision := by
  obtain ⟨a, ha, -, -, hrevision⟩ := h.ok.allocated
  rw [← hrevision]
  exact (hw.announced a ha).1

theorem DeliveryOk.revision_lt {w : World U} {d : Delivery U} (h : DeliveryOk w d) (hw : Inv w) :
    d.event.eventRevision < w.mailbox.nextRevision := by
  obtain ⟨a, ha, -, -, hrevision⟩ := h.allocated
  rw [← hrevision]
  exact (hw.announced a ha).1

theorem ClientOk.last_lt {w : World U} {client : Client U} (h : ClientOk w client) {revision : Nat}
    (hdelivered : ∀ d ∈ w.delivered, d.event.eventRevision < revision)
    (hsnapshots : ∀ s ∈ w.snapshots, s.event.eventRevision < revision) : client.lastApplied < revision := by
  obtain ⟨d, hd, hle⟩ | ⟨s, hs, hle⟩ := h.ahead
  · exact Nat.lt_of_le_of_lt hle (hdelivered d hd)
  · exact Nat.lt_of_le_of_lt hle (hsnapshots s hs)

section
variable {w : World U} (store : Store U) {mailbox : Mailbox U} (acking : Option (Acking U)) (publication : Publication)
  (enqueued : Bool)

theorem Inv.announced_announce (h : Inv w) (hnext : mailbox.nextRevision = w.mailbox.nextRevision + 1) :
    ∀ a ∈ (announce publication w.mailbox.nextRevision enqueued { advance w store mailbox with acking }).announced,
      a.revision < mailbox.nextRevision ∧ a.time ≤ w.now + 1 := by
  intro a ha
  rw [hnext]
  cases mem_announced ha with
  | inl hold => exact ⟨Nat.lt_succ_of_lt (h.announced a hold).1, Nat.le_succ_of_le (h.announced a hold).2⟩
  | inr hnew =>
    rw [hnew]
    exact ⟨Nat.lt_succ_self _, Nat.le_refl _⟩

theorem Inv.inbox_announce (h : Inv w) :
    ∀ event ∈ w.inbox, EventOk (announce publication w.mailbox.nextRevision enqueued
      { advance w store mailbox with acking }) event ∧ ∃ d ∈ w.delivered, d.event = event := by
  intro event hmem
  obtain ⟨hok, d, hd, rfl⟩ := h.inbox event hmem
  have hlt := (h.delivered d hd).revision_lt h
  exact ⟨hok.extend (extends_announce w store mailbox acking publication enqueued hlt), d, hd, rfl⟩

theorem Inv.client_announce (h : Inv w) :
    ∀ c, w.client = some c → ClientOk (announce publication w.mailbox.nextRevision enqueued
      { advance w store mailbox with acking }) c := by
  intro c hc
  have hlast := (h.client c hc).last_lt (fun d hd => (h.delivered d hd).revision_lt h)
    fun s hs => (h.snapshots s hs).revision
  have hextends := extends_announce w store mailbox acking publication enqueued hlast
  exact ⟨fun part => ((h.client c hc).fresh part).extend hextends, (h.client c hc).ahead⟩

theorem Inv.snapshots_announce (h : Inv w) (hnext : mailbox.nextRevision = w.mailbox.nextRevision + 1) :
    ∀ s ∈ w.snapshots, SnapshotOk (announce publication w.mailbox.nextRevision enqueued
      { advance w store mailbox with acking }) s := by
  intro s hs
  have hextends := extends_announce w store mailbox acking publication enqueued (h.snapshots s hs).revision
  refine (h.snapshots s hs).extend hextends ?_
  exact hnext ▸ Nat.le_succ _

end

/-- An event is published under a revision of its own. -/
theorem Inv.publish {w : World U} (h : Inv w) {store : Store U} {mailbox : Mailbox U} {publication : Publication}
    (event : Event U) (hevent : mailbox.event = some event)
    (hrevision : event.eventRevision = w.mailbox.nextRevision)
    (hnext : mailbox.nextRevision = w.mailbox.nextRevision + 1)
    (hstore : w.store.run.realtimeLoroAppliedRevision ≤ store.run.realtimeLoroAppliedRevision)
    (happlied : event.run.realtimeLoroAppliedRevision = store.run.realtimeLoroAppliedRevision)
    (hallocates : publication.allocates = true) (hcarries : ∀ part, publication.Carries part → event.Carries part)
    (hfresh : ∀ part, event.Carries part → ∃ time ≤ w.now + 1,
      Shows part event.run (fun sequence => event.utterances.lookup sequence) ((advance w store mailbox).history time) ∧
      (∀ a ∈ w.announced, a.time ≤ time) ∧ (publication.Carries part → time = w.now + 1)) :
    Inv (announce publication w.mailbox.nextRevision true { advance w store mailbox with acking := none }) := by
  have hextends : ∀ {revision}, revision < w.mailbox.nextRevision → Extends w
      (announce publication w.mailbox.nextRevision true { advance w store mailbox with acking := none }) revision :=
    extends_announce w store mailbox none publication true
  have hself : { revision := w.mailbox.nextRevision, publication, enqueued := true, time := w.now + 1 } ∈
      (announce publication w.mailbox.nextRevision true { advance w store mailbox with acking := none }).announced :=
    List.mem_append_right _ (List.mem_singleton.mpr rfl)
  constructor
  · exact history_now w store mailbox
  · exact hnext ▸ Nat.succ_pos _
  · exact Nat.le_refl _
  · exact h.announced_announce store none publication true hnext
  · exact allocation_concat h.allocation fun b hb => (h.announced b hb).1
  · intro event' hpending
    obtain rfl := Option.some.inj (hevent.symm.trans hpending)
    refine ⟨⟨?_, ?_, ?_⟩, ?_, ?_, ?_⟩
    · intro part hpart
      obtain ⟨time, htime, hshows, hafter, hnow⟩ := hfresh part hpart
      refine ⟨time, htime, hshows, ?_⟩
      intro a ha _ hcarried
      cases mem_announced ha with
      | inl hold => exact hafter a hold
      | inr hnew =>
        subst hnew
        exact Nat.le_of_eq (hnow hcarried).symm
    · intro a ha hsame part hcarried
      cases mem_announced ha with
      | inl hold =>
        have hlt := (h.announced a hold).1
        omega
      | inr hnew =>
        subst hnew
        exact hcarries part hcarried
    · exact ⟨_, hself, hallocates, rfl, hrevision.symm⟩
    · intro d hd
      rw [hrevision, happlied]
      exact ⟨(h.delivered d hd).revision_lt h, Nat.le_trans (h.delivered d hd).store hstore⟩
    · exact Nat.le_of_eq happlied
    · intro s hs
      rw [hrevision]
      exact .inl (h.snapshots s hs).revision
  · intro a ha
    cases ha
  · exact h.inbox_announce store none publication true
  · exact h.client_announce store none publication true
  · intro a ha henqueued
    refine .inr (.inr ⟨event, hevent, ?_⟩)
    rw [hrevision]
    cases mem_announced ha with
    | inl hold => exact Nat.le_of_lt (h.announced a hold).1
    | inr hnew => exact Nat.le_of_eq (congrArg Announcement.revision hnew)
  · exact fun d hd => (h.delivered d hd).extend (hextends h.positive) hstore
  · exact h.delivery
  · exact h.watermark
  · exact h.snapshots_announce store none publication true hnext
  · exact h.later

/-- A revision is allocated, and nothing comes of it. -/
theorem Inv.fail {w : World U} (h : Inv w) (hacking : w.acking = none) {publication : Publication} {mailbox : Mailbox U}
    (hevent : mailbox.event = w.mailbox.event) (hnext : mailbox.nextRevision = w.mailbox.nextRevision + 1) :
    Inv (announce publication w.mailbox.nextRevision false (advance w w.store mailbox)) := by
  have hextends : ∀ {revision}, revision < w.mailbox.nextRevision → Extends w
      (announce publication w.mailbox.nextRevision false (advance w w.store mailbox)) revision :=
    extends_announce w w.store mailbox w.acking publication false
  constructor
  · exact history_now w w.store mailbox
  · exact hnext ▸ Nat.succ_pos _
  · exact Nat.le_succ_of_le h.changedAt
  · exact h.announced_announce w.store w.acking publication false hnext
  · exact allocation_concat h.allocation fun b hb => (h.announced b hb).1
  · intro event hpending
    have hok := h.pending event (hevent.symm.trans hpending)
    exact ⟨hok.ok.extend (hextends (hok.revision_lt h)), hok.delivered, hok.applied, hok.changed⟩
  · intro a ha
    have hnone : none = some a := hacking.symm.trans ha
    cases hnone
  · exact h.inbox_announce w.store w.acking publication false
  · exact h.client_announce w.store w.acking publication false
  · intro a ha henqueued
    cases mem_announced ha with
    | inl hold =>
      obtain hclient | hinbox | ⟨event, hpending, hle⟩ := h.reached a hold henqueued
      · exact .inl hclient
      · exact .inr (.inl hinbox)
      · exact .inr (.inr ⟨event, hevent.trans hpending, hle⟩)
    | inr hnew =>
      rw [hnew] at henqueued
      cases henqueued
  · exact fun d hd => (h.delivered d hd).extend (hextends h.positive) (Nat.le_refl _)
  · exact h.delivery
  · exact h.watermark
  · exact h.snapshots_announce w.store w.acking publication false hnext
  · exact h.later

/-- The event that waits is changed in its place. -/
theorem Inv.amend {w : World U} (h : Inv w) {store : Store U} {mailbox : Mailbox U} {acking : Option (Acking U)}
    {publication : Publication} {event : Event U} (run : CaptureRun) (huncovered : Uncovered w)
    (hwaits : w.mailbox.event = some event) (hevent : mailbox.event = some { event with run })
    (hnext : mailbox.nextRevision = w.mailbox.nextRevision)
    (hstore : w.store.run.realtimeLoroAppliedRevision ≤ store.run.realtimeLoroAppliedRevision)
    (hraised : event.run.realtimeLoroAppliedRevision ≤ run.realtimeLoroAppliedRevision)
    (happlied : run.realtimeLoroAppliedRevision ≤ store.run.realtimeLoroAppliedRevision)
    (hallocates : publication.allocates = false) (hacking : acking = none)
    (hcarries : ∀ part, publication.Carries part → event.Carries part)
    (hparts : ∀ part, Shows part run (fun sequence => event.utterances.lookup sequence) (Callback.truth store mailbox) ∨
      ¬ publication.Carries part ∧ ∀ other, Shows part event.run (fun sequence => event.utterances.lookup sequence) other →
        Shows part run (fun sequence => event.utterances.lookup sequence) other) :
    Inv (announce publication event.eventRevision true { advance w store mailbox with acking }) := by
  have hpending := h.pending event hwaits
  have hextends : ∀ {revision}, revision < event.eventRevision → Extends w
      (announce publication event.eventRevision true { advance w store mailbox with acking }) revision :=
    extends_announce w store mailbox acking publication true
  constructor
  · exact history_now w store mailbox
  · exact hnext ▸ h.positive
  · exact Nat.le_refl _
  · intro a ha
    show a.revision < mailbox.nextRevision ∧ a.time ≤ w.now + 1
    rw [hnext]
    cases mem_announced ha with
    | inl hold => exact ⟨(h.announced a hold).1, Nat.le_succ_of_le (h.announced a hold).2⟩
    | inr hnew =>
      rw [hnew]
      exact ⟨hpending.revision_lt h, Nat.le_refl _⟩
  · rw [announce, List.filter_append, List.filter_singleton, hallocates, cond_false, List.append_nil]
    exact h.allocation
  · intro event' hevent'
    obtain rfl := Option.some.inj (hevent.symm.trans hevent')
    refine ⟨⟨?_, ?_, ?_⟩, ?_, happlied, fun s hs => .inl (huncovered event hwaits s hs)⟩
    · intro part hpart
      cases hparts part with
      | inl hshows =>
        refine ⟨w.now + 1, Nat.le_refl _, ?_, ?_⟩
        · rwa [← history_now w store mailbox] at hshows
        · intro a ha _ _
          cases mem_announced ha with
          | inl hold => exact Nat.le_succ_of_le (h.announced a hold).2
          | inr hnew => exact Nat.le_of_eq (congrArg Announcement.time hnew)
      | inr hkept =>
        obtain ⟨hnot, hsame⟩ := hkept
        obtain ⟨time, htime, hshows, hafter⟩ := hpending.ok.fresh part hpart
        refine ⟨time, Nat.le_succ_of_le htime, ?_, ?_⟩
        · refine hsame _ ?_
          rwa [show (announce publication event.eventRevision true
            { advance w store mailbox with acking }).history time = _ from history_advance w store mailbox htime]
        · intro a ha hrevision hcarried
          cases mem_announced ha with
          | inl hold => exact hafter a hold hrevision hcarried
          | inr hnew =>
            subst hnew
            exact absurd hcarried hnot
    · intro a ha hsame part hcarried
      cases mem_announced ha with
      | inl hold => exact hpending.ok.only a hold hsame part hcarried
      | inr hnew =>
        subst hnew
        exact hcarries part hcarried
    · obtain ⟨a, ha, h'⟩ := hpending.ok.allocated
      exact ⟨a, List.mem_append_left _ ha, h'⟩
    · intro d hd
      obtain ⟨hrevision, hle⟩ := hpending.delivered d hd
      exact ⟨hrevision, Nat.le_trans hle hraised⟩
  · intro a ha
    have hnone : none = some a := hacking.symm.trans ha
    cases hnone
  · intro event' hmem
    obtain ⟨hok, d, hd, rfl⟩ := h.inbox event' hmem
    exact ⟨hok.extend (hextends (hpending.delivered d hd).1), d, hd, rfl⟩
  · intro c hc
    have hlast := (h.client c hc).last_lt (fun d hd => (hpending.delivered d hd).1) (huncovered event hwaits)
    exact ⟨fun part => ((h.client c hc).fresh part).extend (hextends hlast), (h.client c hc).ahead⟩
  · intro a ha henqueued
    cases mem_announced ha with
    | inl hold =>
      obtain hclient | hinbox | ⟨event', hevent', hle⟩ := h.reached a hold henqueued
      · exact .inl hclient
      · exact .inr (.inl hinbox)
      · rw [hwaits] at hevent'
        obtain rfl := Option.some.inj hevent'
        exact .inr (.inr ⟨_, hevent, hle⟩)
    | inr hnew => exact .inr (.inr ⟨_, hevent, Nat.le_of_eq (congrArg Announcement.revision hnew)⟩)
  · intro d hd
    exact (h.delivered d hd).extend (hextends (hpending.delivered d hd).1) hstore
  · exact h.delivery
  · exact h.watermark
  · intro s hs
    exact (h.snapshots s hs).extend (hextends (huncovered event hwaits s hs)) (Nat.le_of_eq hnext.symm)
  · exact h.later

/-! ## The dispatcher -/

theorem pairwise_concat {α β : Type} {R : β → β → Prop} {f : α → β} {l : List α} {x : α} (h : (l.map f).Pairwise R)
    (hx : ∀ y ∈ l, R (f y) (f x)) : ((l ++ [x]).map f).Pairwise R := by
  rw [List.map_append, List.pairwise_append]
  refine ⟨h, List.pairwise_singleton _ _, ?_⟩
  intro a ha b hb
  obtain ⟨y, hy, rfl⟩ := List.mem_map.mp ha
  rw [List.mem_singleton.mp hb]
  exact hx y hy

theorem Inv.take {w : World U} (h : Inv w) (hacking : w.acking = none) {event : Event U}
    (hwaits : w.mailbox.event = some event) :
    Inv { advance w w.store { w.mailbox with event := none } with
      inbox := w.inbox ++ [event]
      delivered := w.delivered ++ [{ event, changedAt := w.changedAt, takenAt := w.now + 1 }] } := by
  have hpending := h.pending event hwaits
  have hextends : ∀ revision, Extends w { advance w w.store { w.mailbox with event := none } with
      inbox := w.inbox ++ [event]
      delivered := w.delivered ++ [{ event, changedAt := w.changedAt, takenAt := w.now + 1 }] } revision := fun revision =>
    ⟨Nat.le_succ _, fun _ htime => history_advance w _ _ htime, fun _ ha => ha, fun _ ha => .inl ha⟩
  have hsplit : ∀ {d}, d ∈ w.delivered ++ [{ event, changedAt := w.changedAt, takenAt := w.now + 1 }] →
      d ∈ w.delivered ∨ d = { event, changedAt := w.changedAt, takenAt := w.now + 1 } := by
    intro d hd
    rwa [List.mem_append, List.mem_singleton] at hd
  constructor
  · exact history_now w w.store { w.mailbox with event := none }
  · exact h.positive
  · exact Nat.le_succ_of_le h.changedAt
  · exact fun a ha => ⟨(h.announced a ha).1, Nat.le_succ_of_le (h.announced a ha).2⟩
  · exact h.allocation
  · intro event' hpending'
    cases hpending'
  · intro a ha
    have hnone : none = some a := hacking.symm.trans ha
    cases hnone
  · intro event' hmem
    rw [List.mem_append, List.mem_singleton] at hmem
    cases hmem with
    | inl hold =>
      obtain ⟨hok, d, hd, hsame⟩ := h.inbox event' hold
      exact ⟨hok.extend (hextends _), d, List.mem_append_left _ hd, hsame⟩
    | inr hnew =>
      rw [hnew]
      exact ⟨hpending.ok.extend (hextends _), _, List.mem_append_right _ (List.mem_singleton.mpr rfl), rfl⟩
  · intro c hc
    refine ⟨fun part => ((h.client c hc).fresh part).extend (hextends _), (h.client c hc).ahead.imp_left ?_⟩
    rintro ⟨d, hd, hle⟩
    exact ⟨d, List.mem_append_left _ hd, hle⟩
  · intro a ha henqueued
    obtain hclient | ⟨other, hother, hle⟩ | ⟨event', hevent', hle⟩ := h.reached a ha henqueued
    · exact .inl hclient
    · exact .inr (.inl ⟨other, List.mem_append_left _ hother, hle⟩)
    · rw [hwaits] at hevent'
      obtain rfl := Option.some.inj hevent'
      exact .inr (.inl ⟨event, List.mem_append_right _ (List.mem_singleton.mpr rfl), hle⟩)
  · intro d hd
    cases hsplit hd with
    | inl hold => exact (h.delivered d hold).extend (hextends 0) (Nat.le_refl _)
    | inr hnew =>
      rw [hnew]
      refine ⟨hpending.ok.allocated, Nat.le_refl _, ?_, hpending.applied⟩
      refine Nat.le_trans hpending.applied (Nat.le_of_eq ?_)
      exact (applied_overlay w.store.run w.mailbox.remoteTruth).symm.trans
        (congrArg (·.run.realtimeLoroAppliedRevision) (history_now w w.store { w.mailbox with event := none })).symm
  · exact pairwise_concat h.delivery fun d hd => (hpending.delivered d hd).1
  · exact pairwise_concat h.watermark fun d hd => (hpending.delivered d hd).2
  · exact fun s hs => (h.snapshots s hs).extend (hextends _) (Nat.le_refl _)
  · intro s hs d hd htime
    cases hsplit hd with
    | inl hold => exact h.later s hs d hold htime
    | inr hnew =>
      rw [hnew]
      exact hpending.changed s hs

end Zulangue.Callback
