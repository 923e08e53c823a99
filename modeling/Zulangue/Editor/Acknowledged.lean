import Zulangue.Editor.Sessions

/-!
# Acknowledged edits

No acknowledged edit is lost, as long as the flush of a last close succeeds and nobody opens the
document with a snapshot read before it.
-/

namespace Zulangue.Editor

open Zulangue.Lib

variable {Edit : Type}

/-- The snapshot an opening has in its hands. -/
def Opener.Has (opener : Opener Edit) (doc : List Edit) : Prop := opener.stage = .read doc ∨ opener.stage = .notOpen doc

/-- The last owner closes after a flush that succeeded, and every opening that has read the snapshot
has read the one that is now on disk. -/
def Careful (w : World Edit) : Action Edit → Prop
  | .close => bridgeClose w.session = none → w.flushFailed = false ∧
      ∀ opener ∈ w.openers, ∀ doc, opener.Has doc → doc = w.snapshot
  | _ => True

def CarefulStep (w : World Edit) (action : Action Edit) (w' : World Edit) : Prop := Step w action w' ∧ Careful w action

structure World.Ok (w : World Edit) : Prop where
  opened : ∀ session, w.session = some session → ∀ edit ∈ w.acknowledged, edit ∈ session.doc
  closed : w.session = none → ∀ edit ∈ w.acknowledged, edit ∈ w.snapshot
  openers : w.session = none → ∀ opener ∈ w.openers, ∀ doc, opener.Has doc → doc = w.snapshot
  applied : ∀ edit, w.holder = .applied edit → ∃ session, w.session = some session ∧ edit ∈ session.doc
  writing : ∀ bytes flusher, w.holder = .write bytes flusher → ∃ session, w.session = some session ∧ session.doc = bytes
  closing : w.holder = .close → w.flushFailed = true ∨ ∀ edit ∈ w.acknowledged, edit ∈ w.snapshot
  scheduled : w.flushFailed = true → w.session.isSome = true

section
variable {w w' : World Edit} {action : Action Edit}

theorem start_ok (disk : Option (List Edit)) : (World.start disk).Ok := by
  refine ⟨?_, ?_, ?_, ?_, ?_, ?_, ?_⟩
  · intro session hcontra
    cases hcontra
  · intro _ edit hcontra
    cases hcontra
  · intro _ opener hcontra
    cases hcontra
  · intro edit hcontra
    cases hcontra
  · intro bytes flusher hcontra
    cases hcontra
  · intro hcontra
    cases hcontra
  · intro hcontra
    cases hcontra

/-- An opening goes on without the bridge. -/
theorem World.Ok.turn (h : w.Ok) {opener : Opener Edit} {next : Option (Opener Edit)} {openers : List (Opener Edit)}
    (hturn : Turns w.openers opener next openers)
    (hnext : ∀ opener', next = some opener' → ∀ doc, opener'.Has doc → doc = w.snapshot ∨ opener.Has doc) :
    World.Ok { w with openers } := by
  refine ⟨h.opened, h.closed, ?_, h.applied, h.writing, h.closing, h.scheduled⟩
  intro hclosed opener' hmem doc hhas
  obtain hold | hnew := hturn.mem_of_mem hmem
  · exact h.openers hclosed opener' hold doc hhas
  · obtain hread | hkept := hnext opener' hnew doc hhas
    · exact hread
    · exact h.openers hclosed opener hturn.mem doc hkept

/-- The bridge counts one owner more, or takes the snapshot that is on disk. -/
theorem World.Ok.bridgeOpen (h : w.Ok) {opener : Opener Edit} {doc : List Edit} (hmem : opener ∈ w.openers)
    (hhas : opener.Has doc) (openers : List (Opener Edit)) :
    World.Ok { w with openers, session := some (Editor.bridgeOpen w.session doc) } := by
  have hkeeps : ∀ session, w.session = some session → (Editor.bridgeOpen w.session doc).doc = session.doc := by
    intro session hsession
    rw [hsession]
    rfl
  have hcontains : ∀ edit ∈ w.acknowledged, edit ∈ (Editor.bridgeOpen w.session doc).doc := by
    intro edit hedit
    cases hsession : w.session with
    | some session =>
      rw [← hsession, hkeeps session hsession]
      exact h.opened session hsession edit hedit
    | none =>
      have hdisk := h.openers hsession opener hmem doc hhas
      change edit ∈ doc
      rw [hdisk]
      exact h.closed hsession edit hedit
  refine ⟨?_, fun hcontra => (by cases hcontra), fun hcontra => (by cases hcontra), ?_, ?_, h.closing, fun _ => rfl⟩
  · intro session hsession edit hedit
    obtain rfl := Option.some.inj hsession
    exact hcontains edit hedit
  · intro edit hholder
    obtain ⟨session, hsession, hin⟩ := h.applied edit hholder
    refine ⟨_, rfl, ?_⟩
    rw [hkeeps session hsession]
    exact hin
  · intro bytes flusher hholder
    obtain ⟨session, hsession, hdoc⟩ := h.writing bytes flusher hholder
    exact ⟨_, rfl, (hkeeps session hsession).trans hdoc⟩

theorem next_ne_applied (flusher : Flusher) (edit : Edit) : flusher.next ≠ .applied edit := by
  cases flusher <;> exact fun hcontra => (by cases hcontra)

theorem next_ne_write (flusher flusher' : Flusher) (bytes : List Edit) : flusher.next ≠ .write bytes flusher' := by
  cases flusher <;> exact fun hcontra => (by cases hcontra)

/-- A write ends, and either the snapshot has all the edits or the failure is known. -/
theorem World.Ok.written (h : w.Ok) {bytes : List Edit} {flusher : Flusher} (hholder : w.holder = .write bytes flusher)
    {disk : Option (List Edit)} {flushFailed : Bool} (hwritten : flushFailed = true ∨ disk = some bytes) :
    World.Ok { w with holder := flusher.next, disk, flushFailed } := by
  obtain ⟨session, hsession, rfl⟩ := h.writing bytes flusher hholder
  have hopen : w.session ≠ none := fun hcontra => by
    rw [hsession] at hcontra
    cases hcontra
  refine ⟨h.opened, fun hcontra => absurd hcontra hopen, fun hcontra => absurd hcontra hopen,
    fun edit hcontra => absurd hcontra (next_ne_applied flusher edit),
    fun bytes flusher' hcontra => absurd hcontra (next_ne_write flusher flusher' bytes), fun _ => ?_, fun _ => ?_⟩
  · refine hwritten.imp_right ?_
    rintro rfl edit hedit
    exact h.opened session hsession edit hedit
  · exact Option.isSome_iff_exists.mpr ⟨session, hsession⟩

theorem step_ok (h : w.Ok) (hstep : CarefulStep w action w') : w'.Ok := by
  obtain ⟨hstep, hcareful⟩ := hstep
  cases hstep with
  | openEditor =>
    refine ⟨h.opened, h.closed, ?_, h.applied, h.writing, h.closing, h.scheduled⟩
    intro hclosed opener hmem doc hhas
    obtain hold | hnew := List.mem_append.mp hmem
    · exact h.openers hclosed opener hold doc hhas
    · obtain rfl := List.mem_singleton.mp hnew
      obtain hcontra | hcontra := hhas <;> cases hcontra
  | read hturn =>
    refine h.turn hturn ?_
    rintro opener' hnext doc (hhas | hhas)
    · obtain rfl := Option.some.inj hnext
      exact .inl (Stage.read.inj hhas).symm
    · obtain rfl := Option.some.inj hnext
      cases hhas
  | retains hturn hstage => exact h.bridgeOpen hturn.mem (.inl hstage) _
  | findsOpen hturn => exact h.turn hturn fun _ hcontra => (by cases hcontra)
  | findsClosed hturn hstage =>
    refine h.turn hturn ?_
    rintro opener' hnext doc (hhas | hhas)
    · obtain rfl := Option.some.inj hnext
      cases hhas
    · obtain rfl := Option.some.inj hnext
      exact .inr (.inl (hstage.trans (congrArg _ (Stage.notOpen.inj hhas))))
  | opens hturn hstage => exact h.bridgeOpen hturn.mem (.inr hstage) _
  | applyEdit _ hsession =>
    refine ⟨?_, fun hcontra => (by cases hcontra), fun hcontra => (by cases hcontra), ?_,
      fun _ _ hcontra => (by cases hcontra), fun hcontra => (by cases hcontra), fun _ => rfl⟩
    · intro session heq edit hedit
      obtain rfl := Option.some.inj heq
      exact List.mem_append_left _ (h.opened _ hsession edit hedit)
    · intro edit heq
      obtain rfl := Holder.applied.inj heq
      exact ⟨_, rfl, List.mem_append_right _ (List.mem_singleton_self _)⟩
  | applyFails hfree hsession =>
    have hidle : ∀ {holder : Holder Edit}, w.holder = holder → holder = .free := fun heq => heq.symm.trans hfree
    refine ⟨?_, fun hcontra => (by cases hcontra), fun hcontra => (by cases hcontra), fun _ hcontra => ?_,
      fun _ _ hcontra => ?_, fun hcontra => ?_, fun _ => rfl⟩
    · intro session heq edit hedit
      obtain rfl := Option.some.inj heq
      exact List.mem_append_left _ (h.opened _ hsession edit hedit)
    · cases hidle hcontra
    · cases hidle hcontra
    · cases hidle hcontra
  | enqueue hholder =>
    obtain ⟨session, hsession, hin⟩ := h.applied _ hholder
    refine ⟨?_, fun hcontra => ?_, h.openers, fun _ hcontra => (by cases hcontra), fun _ _ hcontra => (by cases hcontra),
      fun hcontra => (by cases hcontra), h.scheduled⟩
    · intro session' hsession' edit hedit
      obtain rfl := Option.some.inj (hsession.symm.trans hsession')
      obtain hold | hnew := List.mem_append.mp hedit
      · exact h.opened _ hsession edit hold
      · rw [List.mem_singleton.mp hnew]
        exact hin
    · cases hsession.symm.trans hcontra
  | closeEditor | tick | flushAll =>
    exact ⟨h.opened, h.closed, h.openers, fun _ hcontra => (by cases hcontra), fun _ _ hcontra => (by cases hcontra),
      fun hcontra => (by cases hcontra), h.scheduled⟩
  | exports hholder hsession =>
    refine ⟨h.opened, h.closed, h.openers, fun _ hcontra => (by cases hcontra), ?_, fun hcontra => (by cases hcontra),
      h.scheduled⟩
    intro bytes flusher heq
    obtain ⟨rfl, -⟩ := Holder.write.inj heq
    exact ⟨_, hsession, rfl⟩
  | exportFails hholder hsession =>
    rename_i flusher
    exact ⟨h.opened, h.closed, h.openers, fun edit hcontra => absurd hcontra (next_ne_applied flusher edit),
      fun bytes flusher' hcontra => absurd hcontra (next_ne_write flusher flusher' bytes), fun _ => .inr (h.closed hsession),
      h.scheduled⟩
  | write hholder => exact h.written hholder (.inr rfl)
  | writeFails hholder => exact h.written hholder (.inl rfl)
  | syncFails hholder => exact h.written hholder (.inl rfl)
  | close hholder =>
    have hdoc : ∀ session, bridgeClose w.session = some session → ∃ old, w.session = some old ∧ old.doc = session.doc := by
      intro session hkept
      cases hsession : w.session with
      | none =>
        rw [hsession] at hkept
        cases hkept
      | some old =>
        rw [hsession, bridgeClose] at hkept
        split at hkept
        · obtain rfl := Option.some.inj hkept
          exact ⟨old, rfl, rfl⟩
        · cases hkept
    refine ⟨?_, ?_, fun hlast => (hcareful hlast).2, fun _ hcontra => (by cases hcontra), fun _ _ hcontra => (by cases hcontra),
      fun hcontra => (by cases hcontra), ?_⟩
    · intro session hkept edit hedit
      obtain ⟨old, hold, heq⟩ := hdoc session hkept
      rw [← heq]
      exact h.opened old hold edit hedit
    · intro hlast edit hedit
      obtain hfailed | hsaved := h.closing hholder
      · rw [(hcareful hlast).1] at hfailed
        cases hfailed
      · exact hsaved edit hedit
    · intro hfailed
      change w.flushFailed = true at hfailed
      by_contra hlast
      rw [Bool.not_eq_true, Option.isSome_eq_false_iff, Option.isNone_iff_eq_none] at hlast
      rw [(hcareful hlast).1] at hfailed
      cases hfailed

/-- Every acknowledged edit is in the open document or in the snapshot. -/
def World.Keeps (w : World Edit) : Prop := ∀ edit ∈ w.acknowledged,
  (∃ session, w.session = some session ∧ edit ∈ session.doc) ∨ edit ∈ w.snapshot

/-- The document after a step is opened with all that the snapshot has. -/
def World.OpensFresh (w : World Edit) : Prop := ∀ {action : Action Edit} {w' : World Edit} {session : OpenSession Edit},
  Step w action w' → w.session = none → w'.session = some session → ∀ edit ∈ w.snapshot, edit ∈ session.doc

theorem World.Ok.opensFresh (h : w.Ok) : w.OpensFresh := by
  intro action w' session hstep hclosed hopened edit hedit
  have hopens : ∀ {opener : Opener Edit} {doc : List Edit}, opener ∈ w.openers → opener.Has doc →
      some (Editor.bridgeOpen w.session doc) = some session → edit ∈ session.doc := by
    intro opener doc hmem hhas heq
    obtain rfl := Option.some.inj heq
    rw [hclosed]
    change edit ∈ doc
    rw [h.openers hclosed opener hmem doc hhas]
    exact hedit
  cases hstep with
  | retains hturn hstage => exact hopens hturn.mem (.inl hstage) hopened
  | opens hturn hstage => exact hopens hturn.mem (.inr hstage) hopened
  | applyEdit _ hsession | applyFails _ hsession => cases hclosed.symm.trans hsession
  | close =>
    change bridgeClose w.session = some session at hopened
    rw [hclosed] at hopened
    cases hopened
  | _ => cases hclosed.symm.trans hopened

/-- No acknowledged edit is lost, whoever opens, edits, closes and flushes. -/
theorem edits_kept {disk : Option (List Edit)} {actions : List (Action Edit)}
    (h : Run CarefulStep (World.start disk) actions w) :
    w.Keeps ∧ (w.flushFailed = true → w.scheduled = true ∨ w.session.isSome = true) ∧ w.OpensFresh ∧
      (w.session = none → ∀ edit ∈ w.acknowledged, edit ∈ w.snapshot) := by
  have hok := h.invariant (I := World.Ok) (fun _ _ _ => step_ok) (start_ok disk)
  refine ⟨fun edit hedit => ?_, fun hfailed => .inr (hok.scheduled hfailed), hok.opensFresh, hok.closed⟩
  cases hsession : w.session with
  | some session => exact .inl ⟨session, rfl, hok.opened session hsession edit hedit⟩
  | none => exact .inr (hok.closed hsession edit hedit)

end

/-! ## An edit and a close -/

theorem edits_kept_sample : ∃ w : World Nat, w.acknowledged = [7] ∧ w.session = none ∧ 7 ∈ w.snapshot := by
  have hopen : Run CarefulStep (World.start (none : Option (List Nat))) [.openEditor true, .run, .run, .applyEdit 7, .run] _ :=
    .cons ⟨.openEditor, trivial⟩ <| .cons ⟨.read (.single _ _) rfl, trivial⟩ <|
      .cons ⟨.retains (.single _ _) rfl rfl, trivial⟩ <| .cons ⟨.applyEdit rfl rfl, trivial⟩ <|
      .cons ⟨.enqueue rfl, trivial⟩ <| .nil _
  have hclose := hopen.append (.cons ⟨.closeEditor rfl, trivial⟩ <| .cons ⟨.exports rfl rfl, trivial⟩ <|
    .cons ⟨.write rfl, trivial⟩ <| .cons ⟨.close rfl, fun _ => ⟨rfl, fun _ hcontra => (by cases hcontra)⟩⟩ <| .nil _)
  refine ⟨_, rfl, rfl, (edits_kept hclose).2.2.2 rfl 7 (List.mem_singleton_self 7)⟩

/-- The snapshot cannot be written when the last owner closes. -/
theorem last_close_loses_edit : ∃ (w : World Nat) (actions : List (Action Nat)), Run Step (World.start none) actions w ∧
    w.flushFailed = true ∧ w.scheduled = false ∧ ¬ w.Keeps := by
  have hopen : Run Step (World.start (none : Option (List Nat))) [.openEditor true, .run, .run, .applyEdit 7, .run] _ :=
    .cons .openEditor <| .cons (.read (.single _ _) rfl) <| .cons (.retains (.single _ _) rfl rfl) <|
      .cons (.applyEdit rfl rfl) <| .cons (.enqueue rfl) <| .nil _
  have hclose := hopen.append (.cons (.closeEditor rfl) <| .cons (.exports rfl rfl) <| .cons (.writeFails rfl) <|
    .cons (.close rfl) <| .nil _)
  refine ⟨_, _, hclose, rfl, rfl, fun hkeeps => ?_⟩
  obtain ⟨session, hcontra, -⟩ | hcontra := hkeeps 7 (List.mem_singleton_self 7)
  · cases hcontra
  · cases hcontra

end Zulangue.Editor
