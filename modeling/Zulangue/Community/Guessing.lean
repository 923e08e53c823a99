import Zulangue.Community.Login

/-!
# Guessing the admin token

While login requests do not overlap, what was compared within a window still stands in the failures, so the
limits bound it; and what stands in the failures was recorded, so nobody is refused below the limits.
-/

namespace Zulangue.Community.Login

open Zulangue.Lib

/-! ## The failures -/

/-- Every key has a list of its own. -/
structure Failures.Apart (failures : Failures) : Prop where
  bound : ∀ key ref, failures.byKey key = some ref → ref < failures.lists.length
  own : ∀ key key' ref, failures.byKey key = some ref → failures.byKey key' = some ref → key = key'

section
variable {failures : Failures} {key : String} {ref time : Nat}

theorem Failures.Apart.put (h : failures.Apart) (key : String) (attempts : List Nat) : (failures.put key attempts).Apart := by
  refine ⟨fun k r hget => ?_, fun k k' r hget hget' => ?_⟩
  · unfold Failures.put at hget ⊢
    dsimp only at hget ⊢
    rw [List.length_append, List.length_singleton]
    split at hget
    · obtain rfl := Option.some.inj hget
      omega
    · have := h.bound k r hget
      omega
  · unfold Failures.put at hget hget'
    dsimp only at hget hget'
    split at hget <;> split at hget'
    · simp_all
    · obtain rfl := Option.some.inj hget
      have := h.bound k' _ hget'
      omega
    · obtain rfl := Option.some.inj hget'
      have := h.bound k _ hget
      omega
    · exact h.own k k' r hget hget'

theorem Failures.Apart.get_put (h : failures.Apart) (key : String) (attempts : List Nat) (other : String) :
    (failures.put key attempts).get other = if other = key then attempts else failures.get other := by
  unfold Failures.get Failures.put Failures.list
  dsimp only
  split
  · simp
  · cases hget : failures.byKey other with
    | none => rfl
    | some r =>
      have hbound := h.bound other r hget
      simp only [Option.map_some, Option.getD_some]
      rw [List.getElem?_append_left hbound]

theorem Failures.get_eq (hget : failures.byKey key = some ref) : failures.get key = failures.list ref := by
  rw [Failures.get, hget, Option.map_some, Option.getD_some]

theorem Failures.byKey_put (failures : Failures) (key : String) (attempts : List Nat) :
    (failures.put key attempts).byKey key = some failures.lists.length := if_pos rfl

theorem Failures.Apart.setdefault (h : failures.Apart) (key : String) :
    (failures.setdefault key).1.Apart ∧ (failures.setdefault key).1.byKey key = some (failures.setdefault key).2 ∧
      ∀ other, (failures.setdefault key).1.get other = failures.get other := by
  unfold Failures.setdefault
  cases hget : failures.byKey key with
  | some ref => exact ⟨h, hget, fun _ => rfl⟩
  | none =>
    refine ⟨h.put key [], failures.byKey_put key [], fun other => ?_⟩
    dsimp only
    rw [h.get_put]
    split
    next hsame =>
      subst hsame
      rw [Failures.get, hget]
      rfl
    · rfl

theorem Failures.Apart.append (h : failures.Apart) (ref time : Nat) : (failures.append ref time).Apart := by
  refine ⟨fun k r hget => ?_, h.own⟩
  have := h.bound k r hget
  unfold Failures.append
  dsimp only
  rw [List.length_modify]
  exact this

theorem Failures.Apart.get_append (h : failures.Apart) (hkey : failures.byKey key = some ref) (time : Nat)
    (other : String) :
    (failures.append ref time).get other = failures.get other ++ if other = key then [time] else [] := by
  unfold Failures.get Failures.append Failures.list
  dsimp only
  cases hget : failures.byKey other with
  | none =>
    rw [if_neg]
    · rfl
    · rintro rfl
      rw [hkey] at hget
      cases hget
  | some r =>
    have hbound := h.bound other r hget
    simp only [Option.map_some, Option.getD_some]
    by_cases hsame : other = key
    · subst hsame
      obtain rfl := Option.some.inj (hkey.symm.trans hget)
      rw [if_pos rfl, List.getElem?_modify_eq, List.getElem?_eq_getElem hbound]
      rfl
    · have hne : ref ≠ r := by
        rintro rfl
        exact hsame (h.own other key ref hget hkey)
      simp [hsame, hne]

theorem Failures.Apart.pop (h : failures.Apart) (key : String) : (failures.pop key).Apart := by
  refine ⟨fun k r hget => ?_, fun k k' r hget hget' => ?_⟩
  · unfold Failures.pop at hget
    dsimp only at hget
    split at hget
    · cases hget
    · exact h.bound k r hget
  · unfold Failures.pop at hget hget'
    dsimp only at hget hget'
    split at hget
    · cases hget
    · split at hget'
      · cases hget'
      · exact h.own k k' r hget hget'

theorem Failures.get_pop (failures : Failures) (key other : String) :
    (failures.pop key).get other = if other = key then [] else failures.get other := by
  unfold Failures.get Failures.pop Failures.list
  dsimp only
  split <;> rfl

end

/-! ## Sound runs -/

/-- Login requests do not overlap, no address is the bucket of all callers, and no check falls into the last,
incomplete second of a lockout. -/
def SoundLogin (s : Server) : LoginEvent → Prop
  | .begin key _ => s.requests = [] ∧ key ≠ anyCaller
  | .go (.measuring _ _ now _ ref limit _) =>
    limit ≤ (s.shared.failures.list ref).length →
      ∀ last, (s.shared.failures.list ref).getLast? = some last → 0 < secondsLeft now last
  | _ => True

def SoundLoginStep (s : Server) (e : LoginEvent) (s' : Server) : Prop := LoginStep s e s' ∧ SoundLogin s e

/-- The attempts from `opening` on. -/
def since (opening : Nat) (attempts : List Nat) : Nat := attempts.countP fun time => decide (opening ≤ time)

/-- Wrong tokens compared from `opening` on, of a caller and of all callers. -/
def comparedOf (s : Shared) (key : String) (opening : Nat) : Nat :=
  s.compared.countP fun entry => entry.1 = key ∧ opening ≤ entry.2

def comparedOfAll (s : Shared) (opening : Nat) : Nat := s.compared.countP fun entry => decide (opening ≤ entry.2)

/-- What was compared within the window stands in the failures, but for what `key` has still to be charged with. -/
def Tallied (s : Shared) (key : String) (own all : Nat) : Prop :=
  ∀ opening, s.now < opening + adminLoginWindow → (∀ login ∈ s.logins, login < opening) →
    (∀ other, other ≠ anyCaller →
      comparedOf s other opening ≤ since opening (s.failures.get other) + if other = key then own else 0) ∧
    comparedOfAll s opening ≤ since opening (s.failures.get anyCaller) + all

/-- What stands in the failures was recorded; `own` and `all` still have to be added. -/
def Listed (s : Shared) (key : String) (own all : List Nat) : Prop :=
  ∀ p : Nat → Bool,
    (∀ other, other ≠ anyCaller →
      (s.failures.get other).countP p + (if other = key then own.countP p else 0) ≤
        s.recorded.countP fun entry => entry.1 = other ∧ p entry.2) ∧
    (s.failures.get anyCaller).countP p + all.countP p ≤ s.recorded.countP fun entry => p entry.2

structure Settled (s : Shared) : Prop where
  tallied : Tallied s anyCaller 0 0
  listed : Listed s anyCaller [] []

/-- A refused caller has reached a limit. -/
def Reached (s : Shared) (key : String) (now : Nat) : Prop :=
  adminLoginMaxFailures ≤ failuresOf s key now ∨ adminLoginMaxFailuresGlobal ≤ failuresOfAll s now

/-- What the loop of the check has found. -/
inductive Checked (s : Shared) (key : String) (now : Nat) : Int → List (String × Nat) → Prop
  | start : Checked s key now 0 (limitsOf key)
  | own {longest : Int} : (longest ≤ 0 → (s.failures.get key).length < adminLoginMaxFailures) →
      (0 < longest → Reached s key now) → Checked s key now longest [(anyCaller, adminLoginMaxFailuresGlobal)]
  | all {longest : Int} : (longest ≤ 0 → (s.failures.get key).length < adminLoginMaxFailures ∧
      (s.failures.get anyCaller).length < adminLoginMaxFailuresGlobal) →
      (0 < longest → Reached s key now) → Checked s key now longest []

/-- What holds while a request is served. -/
inductive Serving (s : Shared) : Request → Prop
  | reading {key : String} {accepted : Bool} {now : Nat} {longest : Int} {limits : List (String × Nat)} :
      key ≠ anyCaller → now ≤ s.now → Settled s → Checked s key now longest limits →
        Serving s (.reading key accepted now longest limits)
  | storing {key : String} {accepted : Bool} {now : Nat} {longest : Int} {checked : String} {limit : Nat}
      {limits : List (String × Nat)} :
      key ≠ anyCaller → now ≤ s.now → Settled s → Checked s key now longest ((checked, limit) :: limits) →
        Serving s (.storing key accepted now longest checked limit (recent now (s.failures.get checked)) limits)
  | measuring {key : String} {accepted : Bool} {now : Nat} {longest : Int} {checked : String} {ref limit : Nat}
      {limits : List (String × Nat)} :
      key ≠ anyCaller → now ≤ s.now → Settled s → Checked s key now longest ((checked, limit) :: limits) →
        s.failures.byKey checked = some ref → (∀ time ∈ s.failures.get checked, now < time + adminLoginWindow) →
          Serving s (.measuring key accepted now longest ref limit limits)
  | comparing {key : String} {accepted : Bool} :
      key ≠ anyCaller → Settled s → (s.failures.get key).length < adminLoginMaxFailures →
        (s.failures.get anyCaller).length < adminLoginMaxFailuresGlobal → Serving s (.comparing key accepted)
  | failing {key : String} : key ≠ anyCaller → Tallied s key 1 1 → Listed s key [] [] → Serving s (.failing key)
  | recordingOwn {key : String} {now : Nat} : key ≠ anyCaller → now ≤ s.now → (∀ entry ∈ s.compared, entry.2 ≤ now) →
      Tallied s key 1 1 → Listed s key [now] [now] → Serving s (.recording now [key, anyCaller])
  | appendingOwn {key : String} {now ref : Nat} : key ≠ anyCaller → now ≤ s.now →
      (∀ entry ∈ s.compared, entry.2 ≤ now) → Tallied s key 1 1 → Listed s key [now] [now] →
        s.failures.byKey key = some ref → Serving s (.appending now ref [anyCaller])
  | recordingAll {key : String} {now : Nat} : now ≤ s.now → (∀ entry ∈ s.compared, entry.2 ≤ now) →
      Tallied s key 0 1 → Listed s key [] [now] → Serving s (.recording now [anyCaller])
  | appendingAll {key : String} {now ref : Nat} : now ≤ s.now → (∀ entry ∈ s.compared, entry.2 ≤ now) →
      Tallied s key 0 1 → Listed s key [] [now] → s.failures.byKey anyCaller = some ref →
        Serving s (.appending now ref [])
  | recorded {now : Nat} : Settled s → Serving s (.recording now [])
  | clearing {keys : List String} {login : Nat} : login ∈ s.logins → (∀ entry ∈ s.compared, entry.2 ≤ login) →
      Listed s anyCaller [] [] → Serving s (.clearing keys)

/-- No window without a login has more guesses than the limits allow. -/
def Bounded (s : Shared) : Prop :=
  ∀ opening, (∀ login ∈ s.logins, ¬ (opening ≤ login ∧ login < opening + adminLoginWindow)) →
    (∀ key, key ≠ anyCaller → guessesOf s key opening ≤ adminLoginMaxFailures) ∧
      guesses s opening ≤ adminLoginMaxFailuresGlobal

structure Guarded (s : Shared) : Prop where
  apart : s.failures.Apart
  past : ∀ entry ∈ s.compared, entry.2 ≤ s.now ∧ entry.1 ≠ anyCaller
  logins : ∀ login ∈ s.logins, login ≤ s.now
  bounded : Bounded s

/-- At most one request is served. -/
def Served (s : Server) : Prop :=
  s.requests = [] ∧ Settled s.shared ∨ ∃ request, s.requests = [request] ∧ Serving s.shared request

/-! ## The steps -/

section
variable {s : Shared} {key : String} {now : Nat} {longest : Int} {checked : String} {limit : Nat}
  {limits : List (String × Nat)} {attempts : List Nat} {own all : Nat}

theorem since_recent (hnow : now ≤ s.now) {opening : Nat} (hopening : s.now < opening + adminLoginWindow)
    (attempts : List Nat) : since opening (recent now attempts) = since opening attempts := by
  unfold since recent
  rw [List.countP_filter]
  apply List.countP_congr
  intro time _
  simp only [Bool.and_eq_true, decide_eq_true_eq]
  omega

theorem countP_recent_le (now : Nat) (attempts : List Nat) (p : Nat → Bool) :
    (recent now attempts).countP p ≤ attempts.countP p := List.filter_sublist.countP_le

/-- The prune of a check takes away nothing that counts. -/
theorem Settled.put (h : Settled s) (hapart : s.failures.Apart) (hnow : now ≤ s.now) (checked : String) :
    Settled { s with failures := s.failures.put checked (recent now (s.failures.get checked)) } := by
  have hsince : ∀ opening, s.now < opening + adminLoginWindow → ∀ other,
      since opening ((s.failures.put checked (recent now (s.failures.get checked))).get other) =
        since opening (s.failures.get other) := by
    intro opening hopening other
    rw [hapart.get_put]
    split
    next hsame => rw [hsame, since_recent hnow hopening]
    · rfl
  have hcount : ∀ p other, ((s.failures.put checked (recent now (s.failures.get checked))).get other).countP p ≤
      (s.failures.get other).countP p := by
    intro p other
    rw [hapart.get_put]
    split
    next hsame => rw [hsame]; exact countP_recent_le now _ p
    · exact Nat.le_refl _
  refine ⟨fun opening hopening hlogins => ?_, fun p => ?_⟩
  · obtain ⟨hown, hall⟩ := h.tallied opening hopening hlogins
    dsimp only
    rw [hsince opening hopening anyCaller]
    refine ⟨fun other hother => ?_, hall⟩
    rw [hsince opening hopening other]
    exact hown other hother
  · obtain ⟨hown, hall⟩ := h.listed p
    refine ⟨fun other hother => ?_, ?_⟩
    · exact Nat.le_trans (Nat.add_le_add_right (hcount p other) _) (hown other hother)
    · exact Nat.le_trans (Nat.add_le_add_right (hcount p anyCaller) _) hall

/-- What the prune leaves is within the window. -/
theorem get_put_recent (hapart : s.failures.Apart) :
    ∀ time ∈ (s.failures.put checked (recent now (s.failures.get checked))).get checked, now < time + adminLoginWindow := by
  intro time htime
  rw [hapart.get_put, if_pos rfl] at htime
  exact of_decide_eq_true (List.mem_filter.mp htime).2

/-- A full list of the window is a reached limit. -/
theorem reached_of_own (h : Settled s) (hkey : key ≠ anyCaller)
    (hwindow : ∀ time ∈ s.failures.get key, now < time + adminLoginWindow)
    (hfull : adminLoginMaxFailures ≤ (s.failures.get key).length) : Reached s key now := by
  left
  obtain ⟨hown, -⟩ := h.listed fun time => decide (now < time + adminLoginWindow)
  have hlist := hown key hkey
  have hcount : (s.failures.get key).countP (fun time => decide (now < time + adminLoginWindow)) =
      (s.failures.get key).length := List.countP_eq_length.mpr fun time htime => decide_eq_true (hwindow time htime)
  rw [hcount] at hlist
  unfold failuresOf
  simp only [decide_eq_true_eq] at hlist
  omega

theorem reached_of_all (h : Settled s)
    (hwindow : ∀ time ∈ s.failures.get anyCaller, now < time + adminLoginWindow)
    (hfull : adminLoginMaxFailuresGlobal ≤ (s.failures.get anyCaller).length) : Reached s key now := by
  right
  obtain ⟨-, hall⟩ := h.listed fun time => decide (now < time + adminLoginWindow)
  have hcount : (s.failures.get anyCaller).countP (fun time => decide (now < time + adminLoginWindow)) =
      (s.failures.get anyCaller).length := List.countP_eq_length.mpr fun time htime => decide_eq_true (hwindow time htime)
  rw [hcount] at hall
  unfold failuresOfAll
  omega

/-! ## The check -/

theorem le_measured (now limit : Nat) (attempts : List Nat) (longest : Int) :
    longest ≤ measured now limit attempts longest := by
  unfold measured
  split
  · split
    · exact le_max_left _ _
    · exact le_refl _
  · exact le_refl _

theorem measured_of_short (h : attempts.length < limit) : measured now limit attempts longest = longest := by
  unfold measured
  split
  · rw [if_neg (by omega)]
  · rfl

theorem measured_of_full (longest : Int) (hlimit : 0 < limit) (hfull : limit ≤ attempts.length)
    (hsound : ∀ last, attempts.getLast? = some last → 0 < secondsLeft now last) :
    0 < measured now limit attempts longest := by
  unfold measured
  cases hlast : attempts.getLast? with
  | none =>
    rw [List.getLast?_eq_none_iff.mp hlast] at hfull
    exact absurd hfull (by simp; omega)
  | some last =>
    dsimp only
    rw [if_pos hfull]
    exact lt_max_of_lt_right (hsound last hlast)

/-- The own list is read for the first limit, the one of all callers for the second. -/
theorem Checked.cons_cases (h : Checked s key now longest ((checked, limit) :: limits)) :
    (longest = 0 ∧ checked = key ∧ limit = adminLoginMaxFailures ∧ limits = [(anyCaller, adminLoginMaxFailuresGlobal)]) ∨
      (checked = anyCaller ∧ limit = adminLoginMaxFailuresGlobal ∧ limits = [] ∧
        (longest ≤ 0 → (s.failures.get key).length < adminLoginMaxFailures) ∧ (0 < longest → Reached s key now)) := by
  generalize hlimits : (checked, limit) :: limits = all at h
  cases h with
  | start =>
    unfold limitsOf at hlimits
    simp only [List.cons.injEq, Prod.mk.injEq] at hlimits
    exact .inl ⟨rfl, hlimits.1.1, hlimits.1.2, hlimits.2⟩
  | own hshort hlong =>
    simp only [List.cons.injEq, Prod.mk.injEq] at hlimits
    exact .inr ⟨hlimits.1.1, hlimits.1.2, hlimits.2, hshort, hlong⟩
  | all => cases hlimits

theorem Checked.store (h : Checked s key now longest ((checked, limit) :: limits)) (hkey : key ≠ anyCaller)
    (hapart : s.failures.Apart) (attempts : List Nat) :
    Checked { s with failures := s.failures.put checked attempts } key now longest ((checked, limit) :: limits) := by
  rcases h.cons_cases with ⟨rfl, rfl, rfl, rfl⟩ | ⟨rfl, rfl, rfl, hshort, hlong⟩
  · exact .start
  · refine .own ?_ hlong
    dsimp only
    rw [hapart.get_put, if_neg hkey]
    exact hshort

theorem Checked.measure (h : Checked s key now longest ((checked, limit) :: limits)) (hsettled : Settled s)
    (hkey : key ≠ anyCaller) (hwindow : ∀ time ∈ s.failures.get checked, now < time + adminLoginWindow)
    (hsound : limit ≤ (s.failures.get checked).length →
      ∀ last, (s.failures.get checked).getLast? = some last → 0 < secondsLeft now last) :
    Checked s key now (measured now limit (s.failures.get checked) longest) limits := by
  rcases h.cons_cases with ⟨rfl, rfl, rfl, rfl⟩ | ⟨rfl, rfl, rfl, hshort, hlong⟩
  · by_cases hfull : adminLoginMaxFailures ≤ (s.failures.get checked).length
    · have hpos := measured_of_full 0 (by decide) hfull (hsound hfull)
      exact .own (fun hle => by omega) fun _ => reached_of_own hsettled hkey hwindow hfull
    · rw [measured_of_short (by omega)]
      exact .own (fun _ => by omega) fun hlt => absurd hlt (by omega)
  · have hle := le_measured now adminLoginMaxFailuresGlobal (s.failures.get anyCaller) longest
    by_cases hfull : adminLoginMaxFailuresGlobal ≤ (s.failures.get anyCaller).length
    · have hpos := measured_of_full longest (by decide) hfull (hsound hfull)
      exact .all (fun hle => by omega) fun _ => reached_of_all hsettled hwindow hfull
    · rw [measured_of_short (by omega)]
      exact .all (fun hle => ⟨hshort hle, by omega⟩) hlong

/-! ## Comparing and recording -/

theorem comparedOf_eq_zero {opening : Nat} (h : ∀ entry ∈ s.compared, entry.2 < opening) (key : String) :
    comparedOf s key opening = 0 := by
  apply List.countP_eq_zero.mpr
  intro entry hentry
  have := h entry hentry
  simp only [decide_eq_true_eq, not_and]
  omega

theorem comparedOfAll_eq_zero {opening : Nat} (h : ∀ entry ∈ s.compared, entry.2 < opening) :
    comparedOfAll s opening = 0 := by
  apply List.countP_eq_zero.mpr
  intro entry hentry
  have := h entry hentry
  simp only [decide_eq_true_eq]
  omega

/-- A compared token is charged to its caller and to all. -/
theorem Settled.compare (h : Settled s) (key : String) :
    Tallied { s with compared := (key, s.now) :: s.compared } key 1 1 := by
  intro opening hopening hlogins
  obtain ⟨hown, hall⟩ := h.tallied opening hopening hlogins
  refine ⟨fun other hother => ?_, ?_⟩
  · have hlist := hown other hother
    unfold comparedOf at hlist ⊢
    rw [List.countP_cons]
    by_cases hsame : other = key
    · subst hsame
      simp only [if_pos, if_neg hother] at hlist ⊢
      split <;> omega
    · have hne : ¬ key = other := fun heq => hsame heq.symm
      simp only [hsame, hne, if_neg hother, false_and, decide_false, Bool.false_eq_true, if_false] at hlist ⊢
      exact hlist
  · unfold comparedOfAll at hall ⊢
    dsimp only
    rw [List.countP_cons]
    split <;> omega

/-- A token compared below the limits keeps the bound. -/
theorem Guarded.compare (h : Guarded s) (hsettled : Settled s) (hkey : key ≠ anyCaller)
    (hown : (s.failures.get key).length < adminLoginMaxFailures)
    (hall : (s.failures.get anyCaller).length < adminLoginMaxFailuresGlobal) :
    Guarded { s with compared := (key, s.now) :: s.compared } := by
  refine ⟨h.apart, ?_, h.logins, ?_⟩
  · intro entry hentry
    rcases List.mem_cons.mp hentry with rfl | hentry
    · exact ⟨Nat.le_refl _, hkey⟩
    · exact h.past entry hentry
  · intro opening hlogins
    obtain ⟨hboundOwn, hboundAll⟩ := h.bounded opening hlogins
    by_cases hin : opening ≤ s.now ∧ s.now < opening + adminLoginWindow
    · have hbefore : ∀ login ∈ s.logins, login < opening := by
        intro login hlogin
        have := hlogins login hlogin
        have := h.logins login hlogin
        omega
      obtain ⟨htallyOwn, htallyAll⟩ := hsettled.tallied opening hin.2 hbefore
      have hlistOwn : since opening (s.failures.get key) ≤ (s.failures.get key).length := List.countP_le_length
      have hlistAll : since opening (s.failures.get anyCaller) ≤ (s.failures.get anyCaller).length := List.countP_le_length
      have htally := htallyOwn key hkey
      rw [if_neg hkey] at htally
      have hguessesOwn : guessesOf s key opening ≤ comparedOf s key opening := by
        apply List.countP_mono_left
        intro entry _
        simp only [inWindow, decide_eq_true_eq]
        exact fun ⟨hsame, hfrom, _⟩ => ⟨hsame, hfrom⟩
      have hguessesAll : guesses s opening ≤ comparedOfAll s opening := by
        apply List.countP_mono_left
        intro entry _
        simp only [inWindow, decide_eq_true_eq]
        exact fun ⟨hfrom, _⟩ => hfrom
      refine ⟨fun other hother => ?_, ?_⟩
      · unfold guessesOf
        rw [List.countP_cons]
        by_cases hsame : other = key
        · subst hsame
          unfold guessesOf at hguessesOwn
          split <;> omega
        · have hne : ¬ key = other := fun heq => hsame heq.symm
          simp only [hne, false_and, decide_false, Bool.false_eq_true, if_false]
          exact hboundOwn other hother
      · unfold guesses at hguessesAll ⊢
        rw [List.countP_cons]
        split <;> omega
    · have hout : inWindow opening (key, s.now) = false := decide_eq_false hin
      refine ⟨fun other hother => ?_, ?_⟩
      · unfold guessesOf
        rw [List.countP_cons]
        simp only [hout, Bool.false_eq_true, and_false, decide_false, if_false]
        exact hboundOwn other hother
      · unfold guesses
        rw [List.countP_cons, hout]
        exact hboundAll

/-- A failure is recorded for its caller and for all. -/
theorem Listed.record (h : Listed s key [] []) (now : Nat) :
    Listed { s with recorded := (key, now) :: s.recorded } key [now] [now] := by
  intro p
  obtain ⟨hown, hall⟩ := h p
  refine ⟨fun other hother => ?_, ?_⟩
  · have hlist := hown other hother
    dsimp only
    rw [List.countP_singleton, List.countP_cons]
    by_cases hsame : other = key
    · subst hsame
      simp only [if_true, List.countP_nil, true_and, decide_eq_true_eq] at hlist ⊢
      omega
    · have hne : ¬ key = other := fun heq => hsame heq.symm
      simp only [hsame, hne, if_false, false_and, decide_false, Bool.false_eq_true] at hlist ⊢
      exact hlist
  · dsimp only
    rw [List.countP_singleton, List.countP_cons]
    simp only [List.countP_nil] at hall ⊢
    omega

/-- What is the same for every key counts the same. -/
theorem Tallied.congr (h : Tallied s key own all) {failures : Failures}
    (hget : ∀ other, failures.get other = s.failures.get other) : Tallied { s with failures } key own all := by
  intro opening hopening hlogins
  obtain ⟨hown, hall⟩ := h opening hopening hlogins
  refine ⟨fun other hother => ?_, ?_⟩
  · dsimp only
    rw [hget other]
    exact hown other hother
  · dsimp only
    rw [hget anyCaller]
    exact hall

theorem Listed.congr {own all : List Nat} (h : Listed s key own all) {failures : Failures}
    (hget : ∀ other, failures.get other = s.failures.get other) : Listed { s with failures } key own all := by
  intro p
  obtain ⟨hown, hall⟩ := h p
  refine ⟨fun other hother => ?_, ?_⟩
  · dsimp only
    rw [hget other]
    exact hown other hother
  · dsimp only
    rw [hget anyCaller]
    exact hall

theorem since_append (opening : Nat) (attempts : List Nat) (time : Nat) :
    since opening (attempts ++ [time]) = since opening attempts + if opening ≤ time then 1 else 0 := by
  unfold since
  rw [List.countP_append, List.countP_singleton]
  simp only [decide_eq_true_eq]

/-- The caller's own list has the failure. -/
theorem Tallied.appendOwn (h : Tallied s key 1 1) (hapart : s.failures.Apart) (hkey : key ≠ anyCaller) {ref : Nat}
    (href : s.failures.byKey key = some ref) (hpast : ∀ entry ∈ s.compared, entry.2 ≤ now) :
    Tallied { s with failures := s.failures.append ref now } key 0 1 := by
  intro opening hopening hlogins
  obtain ⟨hown, hall⟩ := h opening hopening hlogins
  refine ⟨fun other hother => ?_, ?_⟩
  · have hlist := hown other hother
    show comparedOf s other opening ≤ _
    dsimp only
    rw [hapart.get_append href]
    by_cases hsame : other = key
    · rw [if_pos hsame, since_append]
      rw [if_pos hsame] at hlist
      by_cases hnow : opening ≤ now
      · rw [if_pos hnow]
        split <;> omega
      · have hnone : comparedOf s other opening = 0 :=
          comparedOf_eq_zero (fun entry hentry => Nat.lt_of_le_of_lt (hpast entry hentry) (by omega)) other
        omega
    · rw [if_neg hsame, List.append_nil]
      rw [if_neg hsame] at hlist
      rw [if_neg hsame]
      exact hlist
  · show comparedOfAll s opening ≤ _
    dsimp only
    rw [hapart.get_append href, if_neg (Ne.symm hkey), List.append_nil]
    exact hall

theorem Listed.appendOwn (h : Listed s key [now] [now]) (hapart : s.failures.Apart) (hkey : key ≠ anyCaller) {ref : Nat}
    (href : s.failures.byKey key = some ref) :
    Listed { s with failures := s.failures.append ref now } key [] [now] := by
  intro p
  obtain ⟨hown, hall⟩ := h p
  refine ⟨fun other hother => ?_, ?_⟩
  · have hlist := hown other hother
    dsimp only
    rw [hapart.get_append href]
    by_cases hsame : other = key
    · rw [if_pos hsame] at hlist
      rw [if_pos hsame, if_pos hsame, List.countP_append, List.countP_nil]
      exact hlist
    · rw [if_neg hsame] at hlist
      rw [if_neg hsame, if_neg hsame, List.append_nil]
      exact hlist
  · dsimp only
    rw [hapart.get_append href, if_neg (Ne.symm hkey), List.append_nil]
    exact hall

/-- The list of all callers has it too. -/
theorem settled_appendAll (htally : Tallied s key 0 1) (hlisted : Listed s key [] [now]) (hapart : s.failures.Apart)
    {ref : Nat} (href : s.failures.byKey anyCaller = some ref) (hpast : ∀ entry ∈ s.compared, entry.2 ≤ now) :
    Settled { s with failures := s.failures.append ref now } := by
  refine ⟨fun opening hopening hlogins => ?_, fun p => ?_⟩
  · obtain ⟨hown, hall⟩ := htally opening hopening hlogins
    refine ⟨fun other hother => ?_, ?_⟩
    · have hlist := hown other hother
      show comparedOf s other opening ≤ _
      dsimp only
      rw [hapart.get_append href, if_neg hother, List.append_nil, if_neg hother]
      split at hlist <;> exact hlist
    · show comparedOfAll s opening ≤ _
      dsimp only
      rw [hapart.get_append href, if_pos rfl, since_append]
      by_cases hnow : opening ≤ now
      · rw [if_pos hnow]
        exact hall
      · have hnone : comparedOfAll s opening = 0 :=
          comparedOfAll_eq_zero fun entry hentry => Nat.lt_of_le_of_lt (hpast entry hentry) (by omega)
        omega
  · obtain ⟨hown, hall⟩ := hlisted p
    refine ⟨fun other hother => ?_, ?_⟩
    · have hlist := hown other hother
      dsimp only
      rw [hapart.get_append href, if_neg hother, List.append_nil, if_neg hother]
      split at hlist <;> exact hlist
    · dsimp only
      rw [hapart.get_append href, if_pos rfl, List.countP_append, List.countP_nil]
      exact hall

theorem Listed.pop (h : Listed s anyCaller [] []) (cleared : String) :
    Listed { s with failures := s.failures.pop cleared } anyCaller [] [] := by
  have hcount : ∀ p other, ((s.failures.pop cleared).get other).countP p ≤ (s.failures.get other).countP p := by
    intro p other
    rw [Failures.get_pop]
    split
    · exact Nat.zero_le _
    · exact Nat.le_refl _
  intro p
  obtain ⟨hown, hall⟩ := h p
  refine ⟨fun other hother => ?_, ?_⟩
  · exact Nat.le_trans (Nat.add_le_add_right (hcount p other) _) (hown other hother)
  · exact Nat.le_trans (Nat.add_le_add_right (hcount p anyCaller) _) hall

/-- After a login nothing older counts. -/
theorem settled_of_login (hlisted : Listed s anyCaller [] []) {login : Nat} (hlogin : login ∈ s.logins)
    (hpast : ∀ entry ∈ s.compared, entry.2 ≤ login) : Settled s := by
  refine ⟨fun opening _ hlogins => ?_, hlisted⟩
  have hbefore : ∀ entry ∈ s.compared, entry.2 < opening := fun entry hentry =>
    Nat.lt_of_le_of_lt (hpast entry hentry) (hlogins login hlogin)
  refine ⟨fun other _ => ?_, ?_⟩
  · rw [comparedOf_eq_zero hbefore]
    exact Nat.zero_le _
  · rw [comparedOfAll_eq_zero hbefore]
    exact Nat.zero_le _

/-! ## The clock -/

theorem Tallied.tick (h : Tallied s key own all) (n : Nat) : Tallied { s with now := s.now + n } key own all := by
  intro opening hopening hlogins
  apply h opening _ hlogins
  dsimp only at hopening
  omega

theorem Settled.tick (h : Settled s) (n : Nat) : Settled { s with now := s.now + n } := ⟨h.tallied.tick n, h.listed⟩

theorem Checked.tick (h : Checked s key now longest limits) (n : Nat) :
    Checked { s with now := s.now + n } key now longest limits := by
  cases h with
  | start => exact .start
  | own hshort hlong => exact .own hshort hlong
  | all hshort hlong => exact .all hshort hlong

theorem Serving.tick {request : Request} (h : Serving s request) (n : Nat) :
    Serving { s with now := s.now + n } request := by
  cases h with
  | reading hkey hnow hsettled hchecked =>
    exact .reading hkey (Nat.le_add_right_of_le hnow) (hsettled.tick n) (hchecked.tick n)
  | storing hkey hnow hsettled hchecked =>
    exact .storing hkey (Nat.le_add_right_of_le hnow) (hsettled.tick n) (hchecked.tick n)
  | measuring hkey hnow hsettled hchecked href hwindow =>
    exact .measuring hkey (Nat.le_add_right_of_le hnow) (hsettled.tick n) (hchecked.tick n) href hwindow
  | comparing hkey hsettled hown hall => exact .comparing hkey (hsettled.tick n) hown hall
  | failing hkey htally hlisted => exact .failing hkey (htally.tick n) hlisted
  | recordingOwn hkey hnow hpast htally hlisted =>
    exact .recordingOwn hkey (Nat.le_add_right_of_le hnow) hpast (htally.tick n) hlisted
  | appendingOwn hkey hnow hpast htally hlisted href =>
    exact .appendingOwn hkey (Nat.le_add_right_of_le hnow) hpast (htally.tick n) hlisted href
  | recordingAll hnow hpast htally hlisted =>
    exact .recordingAll (Nat.le_add_right_of_le hnow) hpast (htally.tick n) hlisted
  | appendingAll hnow hpast htally hlisted href =>
    exact .appendingAll (Nat.le_add_right_of_le hnow) hpast (htally.tick n) hlisted href
  | recorded hsettled => exact .recorded (hsettled.tick n)
  | clearing hlogin hpast hlisted => exact .clearing hlogin hpast hlisted

theorem Guarded.tick (h : Guarded s) (n : Nat) : Guarded { s with now := s.now + n } := by
  refine ⟨h.apart, fun entry hentry => ?_, fun login hlogin => ?_, h.bounded⟩
  · obtain ⟨hpast, hkey⟩ := h.past entry hentry
    exact ⟨Nat.le_add_right_of_le hpast, hkey⟩
  · exact Nat.le_add_right_of_le (h.logins login hlogin)

theorem Guarded.withFailures (h : Guarded s) {failures : Failures} (hapart : failures.Apart) :
    Guarded { s with failures } := ⟨hapart, h.past, h.logins, h.bounded⟩

/-! ## One access -/

/-- What a request leaves behind. -/
def Leaves (s : Shared) : Option Request → Prop
  | some request => Serving s request
  | none => Settled s

theorem advance_guarded (h : Guarded s) {request : Request} (hserving : Serving s request)
    (hsound : ∀ requests, SoundLogin ⟨s, requests⟩ (.go request)) :
    Guarded (s.advance request).1 ∧ Leaves (s.advance request).1 (s.advance request).2 := by
  cases hserving with
  | @reading key accepted now longest limits hkey hnow hsettled hchecked =>
    cases limits with
    | nil =>
      have hadvance : s.advance (.reading key accepted now longest []) =
          if 0 < longest then (s, none) else (s, some (.comparing key accepted)) := rfl
      rw [hadvance]
      cases hchecked with
      | all hshort hlong =>
        split
        · exact ⟨h, hsettled⟩
        next hle => exact ⟨h, .comparing hkey hsettled (hshort (by omega)).1 (hshort (by omega)).2⟩
    | cons first limits =>
      obtain ⟨checked, limit⟩ := first
      exact ⟨h, .storing hkey hnow hsettled hchecked⟩
  | @storing key accepted now longest checked limit limits hkey hnow hsettled hchecked =>
    refine ⟨h.withFailures (h.apart.put _ _), .measuring hkey hnow (hsettled.put h.apart hnow checked)
      (hchecked.store hkey h.apart _) (Failures.byKey_put _ _ _) (get_put_recent h.apart)⟩
  | @measuring key accepted now longest checked ref limit limits hkey hnow hsettled hchecked href hwindow =>
    have hsound := hsound []
    have hlist := Failures.get_eq href
    refine ⟨h, ?_⟩
    have hmeasured := hchecked.measure hsettled hkey hwindow (by rw [hlist]; exact hsound)
    rw [hlist] at hmeasured
    exact .reading hkey hnow hsettled hmeasured
  | @comparing key accepted hkey hsettled hown hall =>
    cases accepted with
    | true =>
      refine ⟨⟨h.apart, h.past, fun login hlogin => ?_, fun opening hlogins => ?_⟩,
        .clearing List.mem_cons_self (fun entry hentry => (h.past entry hentry).1) hsettled.listed⟩
      · rcases List.mem_cons.mp hlogin with rfl | hlogin
        · exact Nat.le_refl _
        · exact h.logins login hlogin
      · exact h.bounded opening fun login hlogin => hlogins login (List.mem_cons_of_mem _ hlogin)
    | false =>
      refine ⟨h.compare hsettled hkey hown hall, .failing hkey (hsettled.compare key) ?_⟩
      intro p
      obtain ⟨hlistOwn, hlistAll⟩ := hsettled.listed p
      refine ⟨fun other hother => ?_, hlistAll⟩
      have hlist := hlistOwn other hother
      simp only [List.countP_nil, ite_self] at hlist ⊢
      exact hlist
  | @failing key hkey htally hlisted =>
    exact ⟨⟨h.apart, h.past, h.logins, h.bounded⟩,
      .recordingOwn hkey (Nat.le_refl _) (fun entry hentry => (h.past entry hentry).1) htally (hlisted.record s.now)⟩
  | @recordingOwn key now hkey hnow hpast htally hlisted =>
    obtain ⟨hapart, href, hget⟩ := h.apart.setdefault key
    exact ⟨h.withFailures hapart, .appendingOwn hkey hnow hpast (htally.congr hget) (hlisted.congr hget) href⟩
  | @appendingOwn key now ref hkey hnow hpast htally hlisted href =>
    exact ⟨h.withFailures (h.apart.append ref now), .recordingAll hnow hpast
      (htally.appendOwn h.apart hkey href hpast) (hlisted.appendOwn h.apart hkey href)⟩
  | @recordingAll key now hnow hpast htally hlisted =>
    obtain ⟨hapart, href, hget⟩ := h.apart.setdefault anyCaller
    exact ⟨h.withFailures hapart, .appendingAll hnow hpast (htally.congr hget) (hlisted.congr hget) href⟩
  | @appendingAll key now ref hnow hpast htally hlisted href =>
    exact ⟨h.withFailures (h.apart.append ref now), .recorded (settled_appendAll htally hlisted h.apart href hpast)⟩
  | recorded hsettled => exact ⟨h, hsettled⟩
  | @clearing keys login hlogin hpast hlisted =>
    cases keys with
    | nil => exact ⟨h, settled_of_login hlisted hlogin hpast⟩
    | cons key keys => exact ⟨h.withFailures (h.apart.pop key), .clearing hlogin hpast (hlisted.pop key)⟩

end

/-! ## Runs -/

section
variable {s s' : Server} {e : LoginEvent}

theorem guarded_start : Guarded Server.start.shared ∧ Served .start := by
  refine ⟨⟨⟨fun key ref hget => ?_, fun key key' ref hget => ?_⟩, fun entry hentry => ?_, fun login hlogin => ?_, ?_⟩,
    .inl ⟨rfl, ?_, ?_⟩⟩
  · cases hget
  · cases hget
  · cases hentry
  · cases hlogin
  · exact fun _ _ => ⟨fun _ _ => Nat.zero_le _, Nat.zero_le _⟩
  · exact fun _ _ _ => ⟨fun _ _ => Nat.zero_le _, Nat.zero_le _⟩
  · intro p
    refine ⟨fun other _ => ?_, Nat.le_refl _⟩
    simp [Server.start, Failures.get]

theorem guarded_step (h : Guarded s.shared ∧ Served s) (hstep : SoundLoginStep s e s') :
    Guarded s'.shared ∧ Served s' := by
  obtain ⟨hguarded, hserved⟩ := h
  obtain ⟨hstep, hsound⟩ := hstep
  cases hstep with
  | tick n =>
    refine ⟨hguarded.tick n, ?_⟩
    rcases hserved with ⟨hnone, hsettled⟩ | ⟨request, hone, hserving⟩
    · exact .inl ⟨hnone, hsettled.tick n⟩
    · exact .inr ⟨request, hone, hserving.tick n⟩
  | begin key accepted =>
    obtain ⟨hnone, hkey⟩ := hsound
    rcases hserved with ⟨-, hsettled⟩ | ⟨request, hone, -⟩
    · refine ⟨hguarded, .inr ⟨.reading key accepted s.shared.now 0 (limitsOf key), ?_,
        .reading hkey (Nat.le_refl _) hsettled .start⟩⟩
      dsimp only
      rw [hnone]
      rfl
    · rw [hone] at hnone
      cases hnone
  | go request requests hturns =>
    rcases hserved with ⟨hnone, -⟩ | ⟨other, hone, hserving⟩
    · rw [hnone] at hturns
      cases hturns.mem
    · have hsame : request = other := by
        have hmem := hturns.mem
        rw [hone] at hmem
        exact List.mem_singleton.mp hmem
      subst hsame
      have hsoundAll : ∀ requests, SoundLogin ⟨s.shared, requests⟩ (.go request) := by
        intro requests
        cases request <;> exact hsound
      obtain ⟨hnext, hleaves⟩ := advance_guarded hguarded hserving hsoundAll
      refine ⟨hnext, ?_⟩
      obtain ⟨before, after, hbefore, hafter⟩ := hturns
      rw [hone] at hbefore
      have hends : before = [] ∧ after = [] := by
        cases before with
        | nil =>
          simp only [List.nil_append, List.cons.injEq] at hbefore
          exact ⟨rfl, hbefore.2.symm⟩
        | cons first before =>
          simp only [List.cons_append, List.cons.injEq] at hbefore
          exact absurd hbefore.2.symm (by simp)
      obtain ⟨rfl, rfl⟩ := hends
      rw [List.nil_append, List.append_nil] at hafter
      cases hcase : (s.shared.advance request).2 with
      | none =>
        rw [hcase] at hafter hleaves
        exact .inl ⟨hafter, hleaves⟩
      | some next =>
        rw [hcase] at hafter hleaves
        exact .inr ⟨next, hafter, hleaves⟩

end

section
variable {s : Shared} {requests : List Request}

/-- The last thread goes on. -/
theorem go_last (s : Shared) (requests : List Request) (request : Request) :
    LoginStep ⟨s, requests ++ [request]⟩ (.go request)
      ⟨(s.advance request).1, requests ++ (s.advance request).2.toList⟩ := by
  refine .go ⟨s, requests ++ [request]⟩ request _ ⟨requests, [], rfl, ?_⟩
  rw [List.append_nil]

/-- One turn of the loop of a check finds nothing while no failure is recorded. -/
theorem check_once (hapart : s.failures.Apart) (hempty : ∀ key, s.failures.get key = []) (requests : List Request)
    (key checked : String) (limit : Nat) (limits : List (String × Nat)) :
    ∃ events failures, Run LoginStep ⟨s, requests ++ [.reading key false s.now 0 ((checked, limit) :: limits)]⟩ events
      ⟨{ s with failures }, requests ++ [.reading key false s.now 0 limits]⟩ ∧
        failures.Apart ∧ ∀ other, failures.get other = [] := by
  have hrecent : recent s.now (s.failures.get checked) = [] := by rw [hempty checked]; rfl
  have hread := go_last s requests (.reading key false s.now 0 ((checked, limit) :: limits))
  have hstore := go_last s requests (.storing key false s.now 0 checked limit (recent s.now (s.failures.get checked)) limits)
  have hmeasure := go_last { s with failures := s.failures.put checked [] } requests
    (.measuring key false s.now 0 s.failures.lists.length limit limits)
  have hlist : (s.failures.put checked []).list s.failures.lists.length = [] := by
    simp [Failures.list, Failures.put]
  simp only [Shared.advance, Option.toList_some, hrecent, hlist] at hread hstore hmeasure
  refine ⟨_, s.failures.put checked [], .cons hread (.cons hstore (.single hmeasure)), hapart.put checked [],
    fun other => ?_⟩
  rw [hapart.get_put]
  split
  · rfl
  · exact hempty other

/-- Before a failure is recorded, a request passes the check and its wrong token is compared. -/
theorem guess_once (hapart : s.failures.Apart) (hempty : ∀ key, s.failures.get key = []) (requests : List Request)
    (key : String) :
    ∃ events failures, Run LoginStep ⟨s, requests⟩ events
      ⟨{ s with failures, compared := (key, s.now) :: s.compared }, requests ++ [.failing key]⟩ ∧
        failures.Apart ∧ ∀ other, failures.get other = [] := by
  have hbegin := LoginStep.begin ⟨s, requests⟩ key false
  obtain ⟨events, first, hown, hapart, hempty⟩ :=
    check_once hapart hempty requests key key adminLoginMaxFailures [(anyCaller, adminLoginMaxFailuresGlobal)]
  obtain ⟨events', last, hall, hapart, hempty⟩ :=
    check_once (s := { s with failures := first }) hapart hempty requests key anyCaller adminLoginMaxFailuresGlobal []
  have hend := go_last { s with failures := last } requests (.reading key false s.now 0 [])
  have hcompare := go_last { s with failures := last } requests (.comparing key false)
  exact ⟨_, last, .cons hbegin ((hown.append hall).append (.cons hend (.single hcompare))), hapart, hempty⟩

theorem guess_many (hapart : s.failures.Apart) (hempty : ∀ key, s.failures.get key = []) (key : String) (n : Nat) :
    ∃ events failures requests, Run LoginStep ⟨s, []⟩ events
      ⟨{ s with failures, compared := List.replicate n (key, s.now) ++ s.compared }, requests⟩ ∧
        failures.Apart ∧ ∀ other, failures.get other = [] := by
  induction n with
  | zero => exact ⟨[], s.failures, [], .nil _, hapart, hempty⟩
  | succ n ih =>
    obtain ⟨events, failures, requests, hrun, hapart, hempty⟩ := ih
    obtain ⟨events', failures', honce, hapart', hempty'⟩ := guess_once
      (s := { s with failures, compared := List.replicate n (key, s.now) ++ s.compared }) hapart hempty requests key
    exact ⟨_, failures', _, hrun.append honce, hapart', hempty'⟩

end

end Zulangue.Community.Login
