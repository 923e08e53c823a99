import Zulangue.AsyncTab.Section
import Zulangue.AsyncTab.Tab

/-!
# What projections keep

A projection works on a run that is `projecting`. As long as edits are applied only when every section
in the document is of a run that is `ready`, it finds its own section whole and takes nothing of a user
away.
-/

namespace Zulangue.AsyncTab

open Zulangue.Lib
open Zulangue.PostStop (AsyncTaskState)

section
variable {Session : Type}

def Ready (runs : List (LinkedRun Session)) (session : Session) : Prop :=
  ∃ run ∈ runs, run.sessionId = session ∧ run.asyncProjectionState = .ready

/-- Every run with post-stop work is `ready`. -/
def World.AllReady (w : World Session) : Prop :=
  ∀ run ∈ w.runs, run.asyncTaskState ≠ .none → run.asyncProjectionState = .ready

/-- Some run with post-stop work holds the tab locked. -/
def World.HeldBack (w : World Session) : Prop :=
  ∃ run ∈ w.runs, run.asyncTaskState ≠ .none ∧ (run.asyncTaskState ≠ .completed ∨ run.projected = false)

theorem isEditorWritable_iff {w : World Session} :
    w.isEditorWritable = true ↔ (∃ run ∈ w.runs, run.asyncTaskState ≠ .none) ∧ ¬ w.HeldBack := by
  rw [World.isEditorWritable]
  constructor
  · intro h
    split at h
    · cases h
    · rename_i hsome
      rw [List.isEmpty_iff] at hsome
      obtain ⟨run, hrun⟩ := List.exists_mem_of_ne_nil _ hsome
      rw [List.mem_filter, decide_eq_true_iff] at hrun
      refine ⟨⟨run, hrun⟩, ?_⟩
      rintro ⟨other, hother, hwork, hopen⟩
      have hdone := List.all_eq_true.mp h other (List.mem_filter.mpr ⟨hother, decide_eq_true hwork⟩)
      rw [decide_eq_true_iff] at hdone
      obtain hopen | hrow := hopen
      · exact hopen hdone.1
      · rw [hdone.2] at hrow
        cases hrow
  · rintro ⟨⟨run, hrun, hwork⟩, hheld⟩
    have hmem : run ∈ w.runs.filter fun run => run.asyncTaskState ≠ .none :=
      List.mem_filter.mpr ⟨hrun, decide_eq_true hwork⟩
    rw [if_neg (fun hcontra => List.ne_nil_of_mem hmem (List.isEmpty_iff.mp hcontra)), List.all_eq_true]
    intro other hother
    rw [List.mem_filter, decide_eq_true_iff] at hother
    rw [decide_eq_true_iff]
    by_contra hopen
    refine hheld ⟨other, hother.1, hother.2, ?_⟩
    by_cases hdone : other.asyncTaskState = .completed
    · exact .inr (Bool.eq_false_of_not_eq_true fun hrow => hopen ⟨hdone, hrow⟩)
    · exact .inl hdone

/-- The lock goes by the tasks: it is right unless all of them are done before their projections. -/
theorem lock_iff {w : World Session} : (w.isEditorWritable = true → w.AllReady) ↔ w.AllReady ∨ w.HeldBack := by
  rw [isEditorWritable_iff]
  constructor
  · intro h
    by_cases hready : w.AllReady
    · exact .inl hready
    · refine .inr ?_
      by_contra hheld
      refine hready (h ⟨?_, hheld⟩)
      by_contra hnone
      exact hready fun run hrun hwork => absurd ⟨run, hrun, hwork⟩ hnone
  · rintro (hready | hheld) ⟨-, hfree⟩
    · exact hready
    · exact absurd hheld hfree

/-! ## The runs -/

theorem moveAsyncTask_eq {run run' : LinkedRun Session} {state : AsyncTaskState} (h : moveAsyncTask state run = some run') :
    run.asyncTaskState ≠ .completed ∧ run'.sessionId = run.sessionId ∧
      (run'.asyncProjectionState = run.asyncProjectionState ∨
        run'.asyncProjectionState = .pending ∧ run'.asyncTaskState = .completed) := by
  rw [moveAsyncTask] at h
  split at h
  · rename_i hvalid
    obtain rfl := Option.some.inj h
    refine ⟨fun hcontra => ?_, rfl, ?_⟩
    · rw [hcontra] at hvalid
      cases hvalid
    · change (if state = .completed then _ else _) = _ ∨ (if state = .completed then _ else _) = _ ∧ state = _
      by_cases hdone : state = .completed
      · rw [if_pos hdone]
        exact .inr ⟨rfl, hdone⟩
      · rw [if_neg hdone]
        exact .inl rfl
  · cases h

theorem setAsyncProjectionState_eq {run run' : LinkedRun Session} {expected next : AsyncProjectionState}
    (h : setAsyncProjectionState expected next run = some run') :
    run.asyncProjectionState = expected ∧ run.asyncTaskState = .completed ∧
      run' = { run with asyncProjectionState := next } := by
  rw [setAsyncProjectionState] at h
  split at h
  · rename_i hvalid
    exact ⟨hvalid.2.1, hvalid.2.2.1, (Option.some.inj h).symm⟩
  · cases h

/-- Every running projection has its run `projecting`, and to itself. -/
structure RunsOk (runs : List (LinkedRun Session)) (projections : List (Projection Session)) : Prop where
  linked : (runs.map LinkedRun.sessionId).Nodup
  alone : (projections.map Projection.session).Nodup
  projecting : ∀ projection ∈ projections,
    ∃ run ∈ runs, run.sessionId = projection.session ∧ run.asyncProjectionState = .projecting
  tasks : ∀ run ∈ runs, run.asyncProjectionState ≠ .none → run.asyncTaskState = .completed

variable {runs runs' : List (LinkedRun Session)} {projections projections' : List (Projection Session)}
  {run run' : LinkedRun Session} {session : Session}

theorem RunsOk.projecting_of (h : RunsOk runs projections) {projection : Projection Session}
    (hprojection : projection ∈ projections) (hrun : run ∈ runs) (hsession : projection.session = run.sessionId) :
    run.asyncProjectionState = .projecting := by
  obtain ⟨other, hother, hid, hstate⟩ := h.projecting projection hprojection
  obtain rfl := List.inj_on_of_nodup_map h.linked hother hrun (hid.trans hsession)
  exact hstate

theorem RunsOk.not_ready (h : RunsOk runs projections) {projection : Projection Session}
    (hprojection : projection ∈ projections) : ¬ Ready runs projection.session := by
  rintro ⟨run, hrun, hid, hready⟩
  rw [h.projecting_of hprojection hrun hid.symm] at hready
  cases hready

/-- One run goes on, perhaps with its projection. -/
theorem RunsOk.turn (h : RunsOk runs projections) (hturn : Turns runs run (some run') runs')
    (hid : run'.sessionId = run.sessionId)
    (htask : run'.asyncProjectionState ≠ .none → run'.asyncTaskState = .completed)
    (halone : (projections'.map Projection.session).Nodup)
    (hprojecting : ∀ projection ∈ projections',
      projection.session = run.sessionId ∧ run'.asyncProjectionState = .projecting ∨
        projection ∈ projections ∧ projection.session ≠ run.sessionId) : RunsOk runs' projections' := by
  refine ⟨?_, halone, ?_, ?_⟩
  · rw [hturn.map_eq hid]
    exact h.linked
  · intro projection hprojection
    obtain ⟨hsession, hstate⟩ | ⟨hold, hne⟩ := hprojecting projection hprojection
    · exact ⟨run', hturn.mem_next, hid.trans hsession.symm, hstate⟩
    · obtain ⟨other, hother, hotherid, hstate⟩ := h.projecting projection hold
      obtain rfl | hkept := hturn.eq_or_mem hother
      · exact absurd hotherid.symm hne
      · exact ⟨other, hkept, hotherid, hstate⟩
  · intro other hother
    obtain hold | hnew := hturn.mem_of_mem hother
    · exact h.tasks other hold
    · obtain rfl := Option.some.inj hnew
      exact htask

/-- A projection goes on with its run as it is. -/
theorem RunsOk.stage (h : RunsOk runs projections) {projection projection' : Projection Session}
    (hturn : Turns projections projection (some projection') projections')
    (hsession : projection'.session = projection.session) : RunsOk runs projections' := by
  refine ⟨h.linked, ?_, ?_, h.tasks⟩
  · rw [hturn.map_eq hsession]
    exact h.alone
  · intro other hother
    obtain hold | hnew := hturn.mem_of_mem hother
    · exact h.projecting other hold
    · obtain rfl := Option.some.inj hnew
      rw [hsession]
      exact h.projecting projection hturn.mem

theorem ready_of_turns (hturn : Turns runs run (some run') runs') (hid : run'.sessionId = run.sessionId)
    (hkeeps : run.asyncProjectionState = .ready → run'.asyncProjectionState = .ready) (hready : Ready runs session) :
    Ready runs' session := by
  obtain ⟨other, hother, hotherid, hstate⟩ := hready
  obtain rfl | hkept := hturn.eq_or_mem hother
  · exact ⟨run', hturn.mem_next, hid.trans hotherid, hkeeps hstate⟩
  · exact ⟨other, hkept, hotherid, hstate⟩

theorem ready_map {f : LinkedRun Session → LinkedRun Session}
    (hf : ∀ run, (f run).sessionId = run.sessionId ∧ (run.asyncProjectionState = .ready → (f run).asyncProjectionState = .ready))
    (hready : Ready runs session) : Ready (runs.map f) session := by
  obtain ⟨run, hrun, hid, hstate⟩ := hready
  exact ⟨f run, List.mem_map_of_mem hrun, (hf run).1.trans hid, (hf run).2 hstate⟩

variable [DecidableEq Session]

theorem RunsOk.ensured (h : RunsOk runs projections) (session : Session) :
    RunsOk (ensureSessionProjection session runs) projections := by
  have hkeys : (ensureSessionProjection session runs).map LinkedRun.sessionId = runs.map LinkedRun.sessionId :=
    Table.keys_update (g := fun run => { run with projected := true }) (fun _ => rfl) runs
  refine ⟨?_, h.alone, ?_, ?_⟩
  · rw [hkeys]
    exact h.linked
  · intro projection hprojection
    obtain ⟨run, hrun, hid, hstate⟩ := h.projecting projection hprojection
    refine ⟨_, List.mem_map_of_mem hrun, ?_⟩
    dsimp only
    split
    · exact ⟨hid, hstate⟩
    · exact ⟨hid, hstate⟩
  · intro run hrun
    obtain ⟨old, hold, rfl⟩ := Table.mem_update hrun
    split
    · exact h.tasks old hold
    · exact h.tasks old hold

theorem ready_ensured {other : Session} (hready : Ready runs session) :
    Ready (ensureSessionProjection other runs) session := by
  refine ready_map (fun run => ?_) hready
  split
  · exact ⟨rfl, id⟩
  · exact ⟨rfl, id⟩

/-! ## The document -/

/-- Sections of runs that are not `ready` are the projections' own. -/
def DocOk (runs : List (LinkedRun Session)) (doc : List (Glyph Session)) : Prop :=
  ∀ session, ¬ Ready runs session → Owned session doc

theorem DocOk.mono {doc : List (Glyph Session)} (h : DocOk runs doc) (hmono : ∀ session, Ready runs session → Ready runs' session) :
    DocOk runs' doc := fun session hsession => h session fun hready => hsession (hmono session hready)

structure World.Ok (w : World Session) : Prop where
  runs : RunsOk w.runs w.projections
  doc : DocOk w.runs w.doc
  disk : DocOk w.runs w.disk

/-- An edit is applied only when every section in the document is of a run that is `ready`, and marks
text as no other. -/
def Careful (w : World Session) : Action Session → Prop
  | .apply op => MarksIn (Ready w.runs) w.doc ∧ ∀ session, op.Marks session → Ready w.runs session
  | _ => True

def CarefulStep (w : World Session) (action : Action Session) (w' : World Session) : Prop :=
  Step w action w' ∧ Careful w action

variable {w w' : World Session} {action : Action Session}

theorem start_ok : (World.start : World Session).Ok := by
  have hdoc : DocOk ([] : List (LinkedRun Session)) [] := fun session _ => .of_unmarked fun _ hcontra => (by cases hcontra)
  exact ⟨⟨List.nodup_nil, List.nodup_nil, fun _ hcontra => (by cases hcontra), fun _ hcontra => (by cases hcontra)⟩, hdoc, hdoc⟩

theorem World.Ok.runs_turn (h : w.Ok) (hruns : RunsOk runs projections) (hmono : ∀ session, Ready w.runs session → Ready runs session) :
    World.Ok { w with runs, projections } := ⟨hruns, h.doc.mono hmono, h.disk.mono hmono⟩

theorem step_ok (h : w.Ok) (hstep : CarefulStep w action w') : w'.Ok := by
  obtain ⟨hstep, hcareful⟩ := hstep
  cases hstep with
  | link hfresh =>
    rename_i session projected
    refine h.runs_turn ⟨?_, h.runs.alone, ?_, ?_⟩ ?_
    · rw [List.map_append]
      exact List.nodup_append.mpr ⟨h.runs.linked, List.nodup_singleton _, by
        rintro id hid _ hnew rfl
        obtain rfl := List.mem_singleton.mp hnew
        exact hfresh hid⟩
    · intro projection hprojection
      obtain ⟨run, hrun, hrest⟩ := h.runs.projecting projection hprojection
      exact ⟨run, List.mem_append_left _ hrun, hrest⟩
    · intro run hrun
      obtain hold | hnew := List.mem_append.mp hrun
      · exact h.runs.tasks run hold
      · obtain rfl := List.mem_singleton.mp hnew
        exact fun hcontra => absurd rfl hcontra
    · rintro other ⟨run, hrun, hrest⟩
      exact ⟨run, List.mem_append_left _ hrun, hrest⟩
  | capture hturn =>
    rename_i run state runs _
    refine h.runs_turn (h.runs.turn hturn rfl (h.runs.tasks run hturn.mem) h.runs.alone fun projection hprojection => ?_)
      fun _ => ready_of_turns hturn rfl id
    by_cases hsession : projection.session = run.sessionId
    · have hstate := h.runs.projecting_of hprojection hturn.mem hsession
      exact .inl ⟨hsession, hstate⟩
    · exact .inr ⟨hprojection, hsession⟩
  | task hturn hmove =>
    rename_i run run' state runs
    obtain ⟨hopen, hid, hstate⟩ := moveAsyncTask_eq hmove
    have hnone : run.asyncProjectionState = .none := by
      by_contra hcontra
      exact hopen (h.runs.tasks run hturn.mem hcontra)
    refine h.runs_turn (h.runs.turn hturn hid ?_ h.runs.alone fun projection hprojection => .inr ⟨hprojection, ?_⟩)
      fun _ => ready_of_turns hturn hid ?_
    · obtain hsame | ⟨-, hdone⟩ := hstate
      · rw [hsame, hnone]
        exact fun hcontra => absurd rfl hcontra
      · exact fun _ => hdone
    · intro hsession
      have hcontra := h.runs.projecting_of hprojection hturn.mem hsession
      rw [hnone] at hcontra
      cases hcontra
    · rw [hnone]
      exact fun hcontra => (by cases hcontra)
  | approve => exact ⟨h.runs, h.doc, h.disk⟩
  | apply _ hdoc =>
    obtain ⟨hmarks, hop⟩ := hcareful
    exact ⟨h.runs, fun session => owned_of_marksIn (hmarks.applyEditOp hop hdoc), h.disk⟩
  | applyFails => exact ⟨h.runs, h.doc, h.disk⟩
  | begin hturn hset =>
    rename_i run run' runs stage _
    obtain ⟨hpending, htask, rfl⟩ := setAsyncProjectionState_eq hset
    have hfresh : ∀ projection ∈ w.projections, projection.session ≠ run.sessionId := by
      intro projection hprojection hsession
      rw [h.runs.projecting_of hprojection hturn.mem hsession] at hpending
      cases hpending
    refine h.runs_turn (h.runs.turn hturn rfl (fun _ => htask) ?_ ?_) fun _ => ready_of_turns hturn rfl ?_
    · rw [List.map_append]
      refine List.nodup_append.mpr ⟨h.runs.alone, List.nodup_singleton _, ?_⟩
      rintro id hid _ hnew rfl
      obtain ⟨projection, hprojection, rfl⟩ := List.mem_map.mp hid
      exact hfresh projection hprojection (List.mem_singleton.mp hnew)
    · intro projection hprojection
      obtain hold | hnew := List.mem_append.mp hprojection
      · exact .inr ⟨hold, hfresh projection hold⟩
      · obtain rfl := List.mem_singleton.mp hnew
        exact .inl ⟨rfl, rfl⟩
    · rw [hpending]
      exact fun hcontra => (by cases hcontra)
  | noSource hturn | commitFails hturn => exact h.runs_turn (h.runs.stage hturn rfl) fun _ => id
  | sync hturn hsync =>
    rename_i session projections title segments doc
    have hown := h.doc session (h.runs.not_ready hturn.mem)
    have hdoc : DocOk w.runs doc := fun other hother => owned_sync hown hsync (h.doc other hother)
    exact ⟨(h.runs.stage hturn rfl).ensured session, hdoc.mono fun _ => ready_ensured, hdoc.mono fun _ => ready_ensured⟩
  | syncFails hturn hdisk =>
    rename_i session projections title segments disk
    have hown := h.doc session (h.runs.not_ready hturn.mem)
    have hdiskok : DocOk w.runs disk := by
      obtain rfl | rfl | hsync := hdisk
      · exact h.disk
      · exact h.doc
      · exact fun other hother => owned_sync hown hsync (h.doc other hother)
    exact ⟨(h.runs.stage hturn rfl).ensured session, h.doc.mono fun _ => ready_ensured, hdiskok.mono fun _ => ready_ensured⟩
  | commit hprojection hturn hset | fail hprojection hturn hset =>
    obtain ⟨hstate, htask, rfl⟩ := setAsyncProjectionState_eq hset
    refine h.runs_turn (h.runs.turn hturn rfl (fun _ => htask) (hprojection.nodup h.runs.alone) ?_)
      fun _ => ready_of_turns hturn rfl ?_
    · intro projection hmem
      obtain hcontra | hold := hprojection.mem_of_nodup h.runs.alone hmem
      · cases hcontra
      · exact .inr hold
    · rw [hstate]
      exact fun hcontra => (by cases hcontra)
  | giveUp hprojection =>
    refine h.runs_turn ⟨h.runs.linked, hprojection.nodup h.runs.alone, ?_, h.runs.tasks⟩ fun _ => id
    intro projection hmem
    obtain hold | hcontra := hprojection.mem_of_mem hmem
    · exact h.runs.projecting projection hold
    · cases hcontra
  | retry hturn hset =>
    obtain ⟨hfailed, htask, rfl⟩ := setAsyncProjectionState_eq hset
    refine h.runs_turn (h.runs.turn hturn rfl (fun _ => htask) h.runs.alone fun projection hprojection =>
      .inr ⟨hprojection, fun hsession => ?_⟩) fun _ => ready_of_turns hturn rfl ?_
    · rw [h.runs.projecting_of hprojection hturn.mem hsession] at hfailed
      cases hfailed
    · rw [hfailed]
      exact fun hcontra => (by cases hcontra)
  | flush => exact ⟨h.runs, h.doc, h.doc⟩
  | reopen => exact ⟨h.runs, h.disk, h.disk⟩
  | crash =>
    have hkeeps : ∀ run : LinkedRun Session, (recoverUnfinishedRun run).sessionId = run.sessionId ∧
        (run.asyncProjectionState = .ready → (recoverUnfinishedRun run).asyncProjectionState = .ready) := by
      refine fun run => ⟨rfl, fun hready => ?_⟩
      rw [recoverUnfinishedRun, hready]
      rfl
    refine ⟨⟨?_, List.nodup_nil, fun _ hcontra => (by cases hcontra), ?_⟩, h.disk.mono fun _ => ready_map hkeeps,
      h.disk.mono fun _ => ready_map hkeeps⟩
    · rw [List.map_map]
      exact h.runs.linked
    · intro run hrun
      obtain ⟨old, hold, rfl⟩ := List.mem_map.mp hrun
      intro hstate
      have hsome : old.asyncProjectionState ≠ .none := by
        intro hcontra
        rw [recoverUnfinishedRun, hcontra] at hstate
        exact hstate rfl
      change (if old.captureState.isTerminal = false ∧ old.asyncTaskState = .pending then AsyncTaskState.none
        else old.asyncTaskState) = .completed
      rw [h.runs.tasks old hold hsome, if_neg (by rintro ⟨-, hcontra⟩; cases hcontra)]

/-! ## Projections -/

/-- No projection takes text of a user away, leaves two sections of its session, or changes how many
another one has. -/
def World.ProjectsSafely (w : World Session) : Prop := ∀ session w', Step w (.project session) w' →
  userText w'.doc = userText w.doc ∧ sections session w'.doc ≤ 1 ∧
    ∀ other, other ≠ session → sections other w'.doc = sections other w.doc

/-- No projection finds its range split. -/
def World.FindsRanges (w : World Session) : Prop :=
  ∀ projection ∈ w.projections, ∀ count, findUniqueMarkedRange projection.session w.doc ≠ .error (.split count)

theorem World.Ok.projectsSafely (h : w.Ok) : w.ProjectsSafely := by
  intro session w' hstep
  have hkept : (∃ projection ∈ w.projections, projection.session = session) →
      userText w.doc = userText w.doc ∧ sections session w.doc ≤ 1 ∧
        ∀ other, other ≠ session → sections other w.doc = sections other w.doc := by
    rintro ⟨projection, hprojection, rfl⟩
    exact ⟨rfl, (h.doc _ (h.runs.not_ready hprojection)).unsplit, fun _ _ => rfl⟩
  cases hstep with
  | noSource hturn | syncFails hturn | commit hturn | commitFails hturn | fail hturn | giveUp hturn =>
    exact hkept ⟨_, hturn.mem, rfl⟩
  | sync hturn hsync =>
    have hown := h.doc session (h.runs.not_ready hturn.mem)
    exact ⟨userText_sync hown hsync, Nat.le_of_eq (sections_sync hown hsync), fun _ => other_sections_sync hown hsync⟩

/-- The lock is right unless all the tasks are done before their projections, and projections keep what
users wrote in every run whose edits are careful. -/
theorem projections_keep_user_text {actions : List (Action Session)} (h : Run CarefulStep World.start actions w) :
    ((w.isEditorWritable = true → w.AllReady) ↔ w.AllReady ∨ w.HeldBack) ∧ w.ProjectsSafely ∧ w.FindsRanges := by
  have hok := h.invariant (I := World.Ok) (fun _ _ _ => step_ok) start_ok
  refine ⟨lock_iff, hok.projectsSafely, fun projection hprojection count => ?_⟩
  exact not_split (hok.doc _ (hok.runs.not_ready hprojection)) count

end

/-! ## A projection after a crash -/

/-- The only run of a Notebook. -/
def onlyRun (task : AsyncTaskState) (projection : AsyncProjectionState) : LinkedRun Nat :=
  ⟨1, .completed, task, projection, true⟩

/-- What a projection without title and tokens writes. -/
def emptySection : List (Glyph Nat) := ['#', '#', ' ', '\n'].map fun char => ⟨char, some (.session 1), false⟩

def editedSection : List (Glyph Nat) :=
  [⟨'#', some (.session 1), false⟩, ⟨'x', some (.session 1), true⟩, ⟨'#', some (.session 1), false⟩,
    ⟨' ', some (.session 1), false⟩, ⟨'\n', some (.session 1), false⟩]

theorem run_projected : ∃ actions, Run CarefulStep World.start actions
    ⟨[onlyRun .completed .projecting], emptySection, emptySection, [], [⟨1, .synced⟩]⟩ := by
  have htask : ∀ (task task' : AsyncTaskState) (projection projection' : AsyncProjectionState),
      moveAsyncTask task' (onlyRun task projection) = some (onlyRun task' projection') →
      CarefulStep ⟨[onlyRun task projection], [], [], [], []⟩ (.task (onlyRun task projection).sessionId task')
        ⟨[onlyRun task' projection'], [], [], [], []⟩ :=
    fun _ _ _ _ hmove => ⟨.task (.single _ _) hmove, trivial⟩
  have hcapture : CarefulStep ⟨[.start 1 true], [], [], [], []⟩ (.capture (LinkedRun.start 1 true).sessionId .completed)
      ⟨[onlyRun .none .none], [], [], [], []⟩ := ⟨.capture (.single _ _) rfl, trivial⟩
  have hcompleted : Run CarefulStep World.start
      [.link 1 true, .capture 1 .completed, .task 1 .pending, .task 1 .reserved, .task 1 .enqueued, .task 1 .completed]
      ⟨[onlyRun .completed .pending], [], [], [], []⟩ :=
    .cons ⟨.link List.not_mem_nil, trivial⟩ <| .cons hcapture <|
      .cons (htask .none .pending .none .none rfl) <| .cons (htask .pending .reserved .none .none rfl) <|
      .cons (htask .reserved .enqueued .none .none rfl) <| .cons (htask .enqueued .completed .none .pending rfl) <| .nil _
  have hsync : syncSessionTranscript 1 [] [] ([] : List (Glyph Nat)) = .ok emptySection := rfl
  have hprojected := hcompleted.append (.cons ⟨.begin (.single _ _) rfl (.inl rfl), trivial⟩ <|
    .cons ⟨.sync (.single _ _) hsync, trivial⟩ <| .nil _)
  exact ⟨_, hprojected⟩

theorem projections_keep_user_text_sample : ∃ w : World Nat, w.isEditorWritable = true ∧ w.doc = editedSection ∧
    w.ProjectsSafely ∧ w.FindsRanges := by
  obtain ⟨actions, hrun⟩ := run_projected
  have hready : Ready [onlyRun .completed .ready] 1 := ⟨_, List.mem_singleton_self _, rfl, rfl⟩
  have hmarks : MarksIn (Ready [onlyRun .completed .ready]) emptySection := by
    intro glyph hglyph session hmark
    obtain ⟨char, -, rfl⟩ := List.mem_map.mp hglyph
    obtain rfl := MarkValue.session.inj (Option.some.inj hmark)
    exact hready
  have happlied : applyEditOp emptySection (.insert 1 ['x']) = some editedSection := rfl
  have hedited := hrun.append (.cons ⟨.commit (.single _ _) (.single _ _) rfl, trivial⟩ <|
    .cons ⟨.approve rfl, trivial⟩ <|
    .cons ⟨.apply (.single _ _) happlied, hmarks, fun _ hcontra => (by cases hcontra)⟩ <| .nil _)
  exact ⟨_, rfl, rfl, (projections_keep_user_text hedited).2⟩

/-- After a crash between the flush and the commit the tab is open to users, and the next projection
takes away what they wrote. -/
theorem retry_deletes_user_text : ∃ (w w' : World Nat) (actions : List (Action Nat)), Run Step World.start actions w ∧
    w.isEditorWritable = true ∧ ¬ w.AllReady ∧ Step w (.project 1) w' ∧ userText w.doc ≠ [] ∧ userText w'.doc = [] := by
  obtain ⟨actions, hrun⟩ := run_projected
  have happlied : applyEditOp emptySection (.insert 1 ['x']) = some editedSection := rfl
  have hretried := (hrun.mono fun _ _ _ hstep => hstep.1).append (.cons .crash <| .cons (.approve rfl) <|
    .cons (.apply (.single _ _) happlied) <| .cons (.retry (.single _ _) rfl) <|
    .cons (.begin (.single _ _) rfl (.inl rfl)) <| .nil _)
  have hsync : syncSessionTranscript 1 [] [] editedSection = .ok emptySection := rfl
  refine ⟨_, _, _, hretried, rfl, fun hready => ?_, .sync (.single _ _) hsync, ?_, rfl⟩
  · cases hready _ (List.mem_singleton_self _) (fun hcontra => (by cases hcontra))
  · exact fun hcontra => (by cases hcontra)

end Zulangue.AsyncTab
