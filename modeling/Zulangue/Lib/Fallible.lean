import Mathlib.Tactic.Common

/-!
# Computations that may fail

What a result that is `ok` says of the steps it came from.
-/

namespace Zulangue.Lib.Fallible

theorem bind_eq_ok {ε α β : Type} {x : Except ε α} {f : α → Except ε β} {b : β} :
    (x >>= f) = .ok b ↔ ∃ a, x = .ok a ∧ f a = .ok b := by
  cases x with
  | error err =>
    constructor
    · intro h
      cases h
    · rintro ⟨_, h, _⟩
      cases h
  | ok a =>
    constructor
    · intro h
      exact ⟨a, rfl, h⟩
    · rintro ⟨_, h, hf⟩
      cases h
      exact hf

theorem mapError_eq_ok {ε ε' α : Type} {x : Except ε α} {f : ε → ε'} {a : α} (h : x.mapError f = .ok a) :
    x = .ok a := by
  cases x with
  | error err => cases h
  | ok b =>
    cases h
    rfl

/-- Refuses with `error` unless the condition holds. -/
def ensure {ε : Type} (holds : Bool) (error : ε) : Except ε Unit := if holds then .ok () else .error error

theorem ensure_eq_ok {ε : Type} {holds : Bool} {error : ε} :
    ensure holds error = .ok () ↔ holds = true := by
  cases holds with
  | true => exact ⟨fun _ => rfl, fun _ => rfl⟩
  | false =>
    constructor
    · intro h
      cases h
    · intro h
      cases h

/-- The value that is there, or `error`. -/
def orError {ε α : Type} (value : Option α) (error : ε) : Except ε α :=
  match value with
  | some a => .ok a
  | none => .error error

theorem orError_eq_ok {ε α : Type} {value : Option α} {error : ε} {a : α} :
    orError value error = .ok a ↔ value = some a := by
  cases value with
  | none =>
    constructor
    · intro h
      cases h
    · intro h
      cases h
  | some b =>
    constructor
    · intro h
      cases h
      rfl
    · intro h
      cases h
      rfl

section
variable {ε α σ : Type} {f : σ → α → Except ε σ} {R : σ → σ → Prop}

/-- A loop whose every step relates its states relates the two ends. -/
theorem foldlM_relates (refl : ∀ s, R s s) (trans : ∀ a b c, R a b → R b c → R a c) {items : List α}
    (hstep : ∀ s, ∀ a ∈ items, ∀ s', f s a = .ok s' → R s s') {s s' : σ}
    (h : items.foldlM f s = .ok s') : R s s' := by
  induction items generalizing s with
  | nil =>
    cases h
    exact refl _
  | cons a rest ih =>
    obtain ⟨mid, hmid, hrest⟩ := bind_eq_ok.mp h
    have hhead := hstep s a List.mem_cons_self mid hmid
    exact trans _ _ _ hhead (ih (fun s b hb => hstep s b (List.mem_cons_of_mem _ hb)) hrest)

end

/-! ## Results of either kind -/

section
variable {ε α β σ : Type} {onError : ε → Prop} {onOk : α → Prop} {onDone : β → Prop}

/-- The result is as it should be, whether it is an error or not. -/
def Ends (onError : ε → Prop) (onOk : α → Prop) : Except ε α → Prop
  | .error e => onError e
  | .ok a => onOk a

theorem Ends.bind {x : Except ε α} {f : α → Except ε β} (hx : Ends onError onOk x)
    (hf : ∀ a, onOk a → Ends onError onDone (f a)) : Ends onError onDone (x >>= f) := by
  cases x with
  | error e => exact hx
  | ok a => exact hf a hx

theorem ends_foldlM (inv : σ → Prop) {f : σ → β → Except ε σ} {xs : List β}
    (hstep : ∀ s, ∀ x ∈ xs, inv s → Ends onError inv (f s x)) {s : σ} (hs : inv s) :
    Ends onError inv (xs.foldlM f s) := by
  induction xs generalizing s with
  | nil => exact hs
  | cons x xs ih =>
    rw [List.foldlM_cons]
    apply (hstep s x List.mem_cons_self hs).bind
    intro next hnext
    exact ih (fun s x hx => hstep s x (List.mem_cons_of_mem _ hx)) hnext

/-- A fold that fails does so at one element, behind those that went well. -/
theorem foldlM_eq_error {f : σ → β → Except ε σ} {xs : List β} {s : σ} {e : ε} (h : xs.foldlM f s = .error e) :
    ∃ before x after reached, xs = before ++ x :: after ∧ before.foldlM f s = .ok reached ∧ f reached x = .error e := by
  induction xs generalizing s with
  | nil => cases h
  | cons x xs ih =>
    rw [List.foldlM_cons] at h
    cases hx : f s x with
    | error e' =>
      rw [hx] at h
      cases h
      exact ⟨[], x, xs, s, rfl, rfl, hx⟩
    | ok next =>
      rw [hx] at h
      obtain ⟨before, y, after, reached, hsplit, hbefore, hy⟩ := ih h
      refine ⟨x :: before, y, after, reached, by rw [hsplit, List.cons_append], ?_, hy⟩
      rw [List.foldlM_cons, hx]
      exact hbefore

end

theorem exists_mapM {ε α β : Type} {f : α → Except ε β} {items : List α} (h : ∀ a ∈ items, ∃ b, f a = .ok b) :
    ∃ bs, items.mapM f = .ok bs := by
  induction items with
  | nil => exact ⟨[], rfl⟩
  | cons a rest ih =>
    obtain ⟨b, hb⟩ := h a List.mem_cons_self
    obtain ⟨bs, hbs⟩ := ih fun c hc => h c (List.mem_cons_of_mem _ hc)
    refine ⟨b :: bs, ?_⟩
    rw [List.mapM_cons, hb, hbs]
    rfl

/-! ## Two computations with one outcome -/

/-- Both succeed with related results, or both fail alike. -/
inductive Agree {ε α β : Type} (R : α → β → Prop) : Except ε α → Except ε β → Prop
  | ok {a : α} {b : β} (h : R a b) : Agree R (.ok a) (.ok b)
  | error (err : ε) : Agree R (.error err) (.error err)

section
variable {ε α β α' β' : Type} {R : α → β → Prop} {R' : α' → β' → Prop}

theorem Agree.bind {x : Except ε α} {y : Except ε β} {f : α → Except ε α'} {g : β → Except ε β'}
    (h : Agree R x y) (hf : ∀ a b, x = .ok a → R a b → Agree R' (f a) (g b)) :
    Agree R' (x >>= f) (y >>= g) := by
  cases h with
  | ok hab => exact hf _ _ rfl hab
  | error err => exact .error err

/-- A step that both make alike. -/
theorem Agree.bind_same {x : Except ε α} {f : α → Except ε α'} {g : α → Except ε β'}
    (hf : ∀ a, x = .ok a → Agree R' (f a) (g a)) : Agree R' (x >>= f) (x >>= g) := by
  cases x with
  | error err => exact .error err
  | ok a => exact hf a rfl

theorem Agree.mono {S : α → β → Prop} {x : Except ε α} {y : Except ε β} (h : Agree R x y)
    (hsub : ∀ a b, R a b → S a b) : Agree S x y := by
  cases h with
  | ok hab => exact .ok (hsub _ _ hab)
  | error err => exact .error err

/-- Loops whose steps agree. -/
theorem Agree.foldlM {γ : Type} {f : α → γ → Except ε α} {g : β → γ → Except ε β}
    (hstep : ∀ a b c, R a b → Agree R (f a c) (g b c)) (items : List γ) {a : α} {b : β} (h : R a b) :
    Agree R (items.foldlM f a) (items.foldlM g b) := by
  induction items generalizing a b with
  | nil => exact .ok h
  | cons c rest ih => exact (hstep a b c h).bind fun _ _ _ hmid => ih hmid

/-- Agreeing computations succeed together. -/
theorem Agree.exists_ok_iff {x : Except ε α} {y : Except ε β} (h : Agree R x y) :
    (∃ a, x = .ok a) ↔ ∃ b, y = .ok b := by
  cases h with
  | ok hab => exact ⟨fun _ => ⟨_, rfl⟩, fun _ => ⟨_, rfl⟩⟩
  | error err =>
    constructor
    · rintro ⟨_, h⟩
      cases h
    · rintro ⟨_, h⟩
      cases h

end

end Zulangue.Lib.Fallible
