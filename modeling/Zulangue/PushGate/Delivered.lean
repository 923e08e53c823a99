import Zulangue.PushGate.Counted

/-!
# Delivery

Accepted frames are pushed in the order of their submission, and discarded only once the gate is
aborted or a push has failed.
-/

namespace Zulangue.PushGate

def Block.frames : Block → List AudioData
  | .pushAcceptedFrame audioData => [audioData]
  | .resumeFenceWaitersIfDrained => []

def Consumer.frames : Consumer → List AudioData
  | .load audioData | .push audioData => [audioData]
  | _ => []

/-- Accepted, and neither pushed nor discarded. -/
def World.waiting (w : World) : List AudioData := w.consumer.frames ++ w.queue.flatMap Block.frames

def World.Failed (w : World) : Prop := ∃ p ∈ w.pushes, p.2.isSome = true

/-- The states that nothing leaves but `abort`. -/
def State.Stopped (state : State) : Prop := state = .aborted ∨ state = .pushFailure

instance (state : State) : Decidable state.Stopped := inferInstanceAs (Decidable (_ ∨ _))

def Consumer.Failing : Consumer → Prop
  | .failed _ | .observe _ | .exchange _ _ => True
  | _ => False

structure Delivered (w : World) : Prop where
  inOrder : w.accepted = w.pushes.map Prod.fst ++ w.discarded ++ w.waiting
  stopped : w.discarded ≠ [] → w.state.Stopped
  first : ∀ audioData, w.consumer = .push audioData → w.discarded = []
  failing : w.consumer.Failing → w.Failed
  aborted : w.state = .aborted → w.aborted = true
  failed : w.state = .pushFailure → w.Failed

section
variable {capacity : Int} {w w' : World} {action : Action}

theorem accepted_append {submissions : List (AudioData × SubmissionResult)} {audioData : AudioData}
    {result : SubmissionResult} (hresult : result ≠ .accepted) :
    ((submissions ++ [(audioData, result)]).filter (·.2 = .accepted)).map Prod.fst =
      (submissions.filter (·.2 = .accepted)).map Prod.fst := by
  rw [List.filter_append, List.filter_cons_of_neg (by simpa using hresult), List.filter_nil, List.append_nil]

theorem refusal_ne_accepted (state : State) : state.refusal ≠ .accepted := by
  cases state <;> decide

/-- The tap refuses, or goes on. -/
theorem Delivered.tap (h : Delivered w) {w' : World} (haccepted : w'.accepted = w.accepted)
    (hwaiting : w'.waiting = w.waiting) (hpushes : w'.pushes = w.pushes) (hdiscarded : w'.discarded = w.discarded)
    (hconsumer : w'.consumer = w.consumer) (haborted : w'.aborted = w.aborted)
    (hstate : w'.state = w.state ∨ ¬ w.state.Stopped ∧ ¬ w'.state.Stopped) : Delivered w' := by
  constructor
  · rw [haccepted, hpushes, hdiscarded, hwaiting]
    exact h.inOrder
  · rw [hdiscarded]
    intro hne
    obtain heq | hnot := hstate
    · exact heq ▸ h.stopped hne
    · exact absurd (h.stopped hne) hnot.1
  · rw [hconsumer, hdiscarded]
    exact h.first
  · rw [hconsumer, World.Failed, hpushes]
    exact h.failing
  · rw [haborted]
    intro hw'
    obtain heq | hnot := hstate
    · exact h.aborted (heq.symm.trans hw')
    · exact absurd (.inl hw') hnot.2
  · rw [World.Failed, hpushes]
    intro hw'
    obtain heq | hnot := hstate
    · exact h.failed (heq.symm.trans hw')
    · exact absurd (.inr hw') hnot.2

/-- The consumer goes on, and what waits stays the same. -/
theorem Delivered.consumer (h : Delivered w) (hframes : w'.waiting = w.waiting) (haccepted : w'.accepted = w.accepted)
    (hpushes : w'.pushes = w.pushes) (hdiscarded : w'.discarded = w.discarded) (hstate : w'.state = w.state)
    (haborted : w'.aborted = w.aborted) (hfirst : ∀ audioData, w'.consumer = .push audioData → ¬ w.state.Stopped)
    (hfailing : w'.consumer.Failing → w.consumer.Failing) : Delivered w' := by
  constructor
  · rw [haccepted, hpushes, hdiscarded, hframes]
    exact h.inOrder
  · rw [hdiscarded, hstate]
    exact h.stopped
  · intro audioData hpush
    rw [hdiscarded]
    by_contra hne
    exact hfirst audioData hpush (h.stopped hne)
  · rw [World.Failed, hpushes]
    exact fun hw' => h.failing (hfailing hw')
  · rw [hstate, haborted]
    exact h.aborted
  · rw [hstate, World.Failed, hpushes]
    exact h.failed

/-- A call of `push` ends. -/
theorem Delivered.pushes (h : Delivered w) {audioData : AudioData} (hconsumer : w.consumer = .push audioData)
    {outcome : Option String} {consumer : Consumer} (hframes : consumer.frames = [])
    (hpush : ∀ audioData, consumer ≠ .push audioData) (hfailing : consumer.Failing → outcome.isSome = true) :
    Delivered { w with consumer, pushes := w.pushes ++ [(audioData, outcome)] } := by
  have hgrow : w.Failed → World.Failed { w with consumer, pushes := w.pushes ++ [(audioData, outcome)] } := by
    rintro ⟨p, hp, hsome⟩
    exact ⟨p, List.mem_append_left _ hp, hsome⟩
  constructor
  · have horder := h.inOrder
    rw [World.waiting, hconsumer, h.first audioData hconsumer, List.append_nil] at horder
    change w.accepted = (w.pushes ++ [_]).map _ ++ w.discarded ++ (consumer.frames ++ _)
    rw [hframes, h.first audioData hconsumer, List.append_nil, List.map_append, List.append_assoc]
    exact horder
  · exact h.stopped
  · exact fun audioData hcontra => absurd hcontra (hpush audioData)
  · exact fun hw' => ⟨_, List.mem_append_right _ (List.mem_singleton_self _), hfailing hw'⟩
  · exact h.aborted
  · exact fun hstate => hgrow (h.failed hstate)

theorem step_delivered (h : Delivered w) (hstep : Step capacity w action w') : Delivered w' := by
  cases hstep with
  | submitEmpty =>
    exact h.tap (accepted_append (by decide)) rfl rfl rfl rfl rfl (.inl rfl)
  | loadOther | reject => exact h.tap (accepted_append (refusal_ne_accepted _)) rfl rfl rfl rfl rfl (.inl rfl)
  | overflow _ _ hstate =>
    refine h.tap rfl rfl rfl rfl rfl rfl (.inr ?_)
    rw [hstate]
    change ¬ State.Stopped .accepting ∧ ¬ State.Stopped .overflow
    decide
  | overflowed => exact h.tap (accepted_append (by decide)) rfl rfl rfl rfl rfl (.inl rfl)
  | defer =>
    refine h.tap (accepted_append (refusal_ne_accepted _)) ?_ rfl rfl rfl rfl (.inl rfl)
    change _ ++ (w.queue ++ [Block.resumeFenceWaitersIfDrained]).flatMap Block.frames = _
    rw [List.flatMap_append]
    exact congrArg _ (List.append_nil _)
  | enqueue =>
    refine ⟨?_, h.stopped, h.first, h.failing, h.aborted, h.failed⟩
    change ((w.submissions ++ [_]).filter _).map Prod.fst = _ ++ (_ ++ (w.queue ++ [_]).flatMap Block.frames)
    rw [List.filter_append, List.map_append, List.flatMap_append]
    change w.accepted ++ [_] = _ ++ (_ ++ (_ ++ [_]))
    rw [h.inOrder, World.waiting, List.append_assoc _ _ [_], List.append_assoc _ _ [_]]
  | submit | loadAccepting | loadPending | overflowFails | reserve | reserveFails | recheckAccepting | recheckOther
  | rejectLast | reopen | reopenPending | reopenDrained | reopenFails | abortDrains | fence | fenceLocks | fenceDrained
  | fencePending | fenceAppends | fenceSuspends | fencePasses | fenceResumes =>
    exact h.tap rfl rfl rfl rfl rfl rfl (.inl rfl)
  | runPush hidle hqueue | runDrain hidle hqueue =>
    refine h.consumer ?_ rfl rfl rfl rfl rfl (fun _ hcontra => (by cases hcontra)) (fun hcontra => hcontra.elim)
    simp only [World.waiting, hidle, hqueue]
    rfl
  | discard hconsumer hstopped =>
    refine ⟨?_, fun _ => hstopped, fun _ hcontra => (by cases hcontra), fun hcontra => hcontra.elim, h.aborted, h.failed⟩
    have horder := h.inOrder
    rw [World.waiting, hconsumer] at horder
    change _ = _ ++ (w.discarded ++ [_]) ++ ([] ++ w.queue.flatMap Block.frames)
    rw [List.nil_append, ← List.append_assoc, List.append_assoc _ [_]]
    exact horder
  | load hconsumer haborted hfailed =>
    refine h.consumer ?_ rfl rfl rfl rfl rfl (fun _ _ => ?_) (fun hcontra => hcontra.elim)
    · simp only [World.waiting, hconsumer]
      rfl
    · rintro (hcontra | hcontra)
      · exact haborted hcontra
      · exact hfailed hcontra
  | pushed hconsumer =>
    exact h.pushes hconsumer rfl (fun _ hcontra => (by cases hcontra)) fun hcontra => hcontra.elim
  | pushFails hconsumer => exact h.pushes hconsumer rfl (fun _ hcontra => (by cases hcontra)) fun _ => rfl
  | failed hconsumer | failFails hconsumer | observe hconsumer =>
    refine h.consumer ?_ rfl rfl rfl rfl rfl (fun _ hcontra => (by cases hcontra)) fun _ => ?_
    · simp only [World.waiting, hconsumer]
      rfl
    · rw [hconsumer]
      trivial
  | observeTerminal hconsumer | finish hconsumer | finishLast hconsumer | notify hconsumer =>
    refine h.consumer ?_ rfl rfl rfl rfl rfl (fun _ hcontra => (by cases hcontra)) fun hcontra => hcontra.elim
    simp only [World.waiting, hconsumer]
    rfl
  | consumerDrains hconsumer =>
    rename_i next _
    refine h.consumer ?_ rfl rfl rfl rfl rfl ?_ ?_
    · simp only [World.waiting, hconsumer]
      cases next <;> rfl
    · cases next <;> exact fun _ hcontra => (by cases hcontra)
    · cases next <;> exact fun hcontra => hcontra.elim
  | fail hconsumer hsame =>
    have hfailed := h.failing (by rw [hconsumer]; trivial)
    refine ⟨?_, fun _ => .inr rfl, fun _ hcontra => (by cases hcontra), fun hcontra => hcontra.elim,
      fun hcontra => (by cases hcontra), fun _ => hfailed⟩
    have horder := h.inOrder
    rw [World.waiting, hconsumer] at horder
    exact horder
  | close =>
    refine h.tap rfl rfl rfl rfl rfl rfl ?_
    change (if w.state = .accepting then State.closed else w.state) = w.state ∨ _ ∧
      ¬ (if w.state = .accepting then State.closed else w.state).Stopped
    split
    next haccepting =>
      rw [haccepting]
      right
      decide
    · exact .inl rfl
  | reopened _ hclosed =>
    refine h.tap rfl rfl rfl rfl rfl rfl (.inr ?_)
    rw [hclosed]
    change ¬ State.Stopped .closed ∧ ¬ State.Stopped .accepting
    decide
  | abort =>
    exact ⟨h.inOrder, fun _ => .inl rfl, h.first, h.failing, fun _ => rfl, fun hcontra => (by cases hcontra)⟩

theorem start_delivered : Delivered .start :=
  ⟨rfl, fun hcontra => absurd rfl hcontra, fun _ hcontra => (by cases hcontra), fun hcontra => hcontra.elim,
    fun hcontra => (by cases hcontra), fun hcontra => (by cases hcontra)⟩

end

end Zulangue.PushGate
