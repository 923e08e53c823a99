import Mathlib.Data.List.Nodup

/-!
# Lines and their ids from one text to the next

`track_lines` of `vt-store/src/replay_migration.rs`: the common front and back keep their
lines, the middle is replaced.
-/

namespace Zulangue.Replay

/-- A line of the text and the stable id of its block. -/
structure Line where
  id : String
  text : String
  deriving DecidableEq, Repr

/-- `text.split('\n')`. -/
def splitLines (text : String) : List String := (text.toList.splitOn '\n').map String.ofList

/-- `lines.join("\n")`. -/
def joinLines (lines : List String) : String := String.ofList (['\n'].intercalate (lines.map String.toList))

theorem joinLines_splitLines (text : String) : joinLines (splitLines text) = text := by
  have hlists : (splitLines text).map String.toList = text.toList.splitOn '\n' := by
    rw [splitLines, List.map_map]
    refine (List.map_congr_left fun cs _ => ?_).trans (List.map_id _)
    exact String.toList_ofList
  rw [joinLines, hlists, List.intercalate_splitOn, String.ofList_toList]

/-- How many lines from the front are the same. -/
def matchingLines : List Line → List String → Nat
  | line :: lines, text :: texts => if line.text = text then matchingLines lines texts + 1 else 0
  | _, _ => 0

/-- The lines of the new text, with `uuid issued`, `uuid (issued + 1)`, … as new ids, and how
many ids are issued then. -/
def trackLines (uuid : Nat → String) (issued : Nat) (previous : List Line) (text : String) : List Line × Nat :=
  let newTexts := splitLines text
  let front := matchingLines previous newTexts
  let back := matchingLines (previous.drop front).reverse (newTexts.drop front).reverse
  let middleOld := (previous.drop front).take (previous.length - front - back)
  let middleNew := (newTexts.drop front).take (newTexts.length - front - back)
  -- As many lines as before are an edit in place.
  if middleOld.length = middleNew.length then
    (previous.take front ++ List.zipWith (fun old text => { old with text }) middleOld middleNew ++
      previous.drop (previous.length - back), issued)
  else
    (previous.take front ++ List.zipWith (fun text k => { id := uuid k, text })
      middleNew (List.range' issued middleNew.length) ++ previous.drop (previous.length - back),
      issued + middleNew.length)

/-- What became of the lines: those in front and behind are kept, and so are the ids of as
many lines in the middle as before. Front and back are as long as can be. -/
structure LineEdit (previous next front old new back : List Line) : Prop where
  before : previous = front ++ old ++ back
  after : next = front ++ new ++ back
  first : ∀ x ∈ old.head?, ∀ y ∈ new.head?, x.text ≠ y.text
  last : ∀ x ∈ old.getLast?, ∀ y ∈ new.getLast?, x.text ≠ y.text
  inPlace : old.length = new.length → new.map (·.id) = old.map (·.id)

/-- The ids of the lines are distinct and issued. -/
structure LinesOk (uuid : Nat → String) (issued : Nat) (lines : List Line) : Prop where
  distinct : (lines.map (·.id)).Nodup
  issued : ∀ line ∈ lines, ∃ k < issued, line.id = uuid k

theorem matchingLines_split (lines : List Line) (texts : List String) :
    ∃ front rest others, lines = front ++ rest ∧ texts = front.map (·.text) ++ others ∧
      front.length = matchingLines lines texts ∧ ∀ x ∈ rest.head?, ∀ y ∈ others.head?, x.text ≠ y := by
  induction lines generalizing texts with
  | nil => exact ⟨[], [], texts, rfl, rfl, by cases texts <;> rfl, fun x hx => by cases hx⟩
  | cons line lines ih =>
    cases texts with
    | nil => exact ⟨[], line :: lines, [], rfl, rfl, rfl, fun x hx y hy => by cases hy⟩
    | cons text texts =>
      rw [matchingLines]
      by_cases hsame : line.text = text
      · obtain ⟨front, rest, others, rfl, rfl, hlength, hne⟩ := ih texts
        rw [if_pos hsame]
        exact ⟨line :: front, rest, others, rfl, by rw [List.map_cons, hsame]; rfl, by rw [List.length_cons, hlength], hne⟩
      · rw [if_neg hsame]
        refine ⟨[], line :: lines, text :: texts, rfl, rfl, rfl, ?_⟩
        intro x hx y hy
        obtain rfl := Option.some.inj hx
        obtain rfl := Option.some.inj hy
        exact hsame

theorem map_text_zipWith_old (olds : List Line) (texts : List String) (h : olds.length = texts.length) :
    (List.zipWith (fun old text => { old with text }) olds texts).map (·.text) = texts ∧
      (List.zipWith (fun old text => { old with text }) olds texts).map (·.id) = olds.map (·.id) := by
  induction olds generalizing texts with
  | nil =>
    cases texts with
    | nil => exact ⟨rfl, rfl⟩
    | cons text texts => cases h
  | cons old olds ih =>
    cases texts with
    | nil => cases h
    | cons text texts =>
      obtain ⟨htexts, hids⟩ := ih texts (Nat.succ.inj h)
      rw [List.zipWith_cons_cons, List.map_cons, List.map_cons, List.map_cons, htexts, hids]
      exact ⟨rfl, rfl⟩

theorem map_zipWith_new (uuid : Nat → String) (texts : List String) (issued : Nat) :
    (List.zipWith (fun text k => { id := uuid k, text : Line }) texts (List.range' issued texts.length)).map (·.text) =
        texts ∧
      (List.zipWith (fun text k => { id := uuid k, text : Line }) texts (List.range' issued texts.length)).map (·.id) =
        (List.range' issued texts.length).map uuid := by
  induction texts generalizing issued with
  | nil => exact ⟨rfl, rfl⟩
  | cons text texts ih =>
    obtain ⟨htexts, hids⟩ := ih (issued + 1)
    rw [List.length_cons, List.range'_succ, List.zipWith_cons_cons, List.map_cons, List.map_cons, List.map_cons, htexts,
      hids]
    exact ⟨rfl, rfl⟩

/-- The outcome of tracking: the texts are those of the new text, and in the middle the ids are
the old ones or new ones. -/
structure Tracked (uuid : Nat → String) (issued issued' : Nat) (previous next : List Line) (text : String)
    (front old new back : List Line) : Prop where
  edit : LineEdit previous next front old new back
  texts : next.map (·.text) = splitLines text
  ids : new.map (·.id) = old.map (·.id) ∧ issued' = issued ∨
    new.map (·.id) = (List.range' issued new.length).map uuid ∧ issued' = issued + new.length

theorem head_of_append {α : Type} {xs ys : List α} {x : α} (h : x ∈ xs.head?) : x ∈ (xs ++ ys).head? := by
  cases xs with
  | nil => cases h
  | cons => exact h

theorem trackLines_tracked (uuid : Nat → String) (issued : Nat) (previous : List Line) (text : String) :
    ∃ front old new back, Tracked uuid issued (trackLines uuid issued previous text).2 previous
      (trackLines uuid issued previous text).1 text front old new back := by
  rw [trackLines]
  generalize htexts : splitLines text = newTexts
  obtain ⟨front, rest, others, hprevious, hnew, hfront, hfirst⟩ := matchingLines_split previous newTexts
  obtain ⟨backRev, oldRev, middleRev, hrest, hothers, hback, hlast⟩ :=
    matchingLines_split rest.reverse others.reverse
  -- The same split, read from the front.
  obtain ⟨back, rfl⟩ : ∃ back, backRev = back.reverse := ⟨backRev.reverse, (List.reverse_reverse _).symm⟩
  obtain ⟨old, rfl⟩ : ∃ old, oldRev = old.reverse := ⟨oldRev.reverse, (List.reverse_reverse _).symm⟩
  obtain ⟨middle, rfl⟩ : ∃ middle, middleRev = middle.reverse := ⟨middleRev.reverse, (List.reverse_reverse _).symm⟩
  rw [← List.reverse_append] at hrest
  rw [List.map_reverse, ← List.reverse_append] at hothers
  rw [List.length_reverse] at hback
  have hrest : rest = old ++ back := List.reverse_injective hrest
  have hothers : others = middle ++ back.map (·.text) := List.reverse_injective hothers
  have hdropOld : previous.drop front.length = rest := by
    rw [hprevious, List.drop_left]
  have hdropNew : newTexts.drop front.length = others := by
    rw [hnew, List.drop_left' (List.length_map _)]
  have hlengthOld : previous.length - front.length - back.length = old.length := by
    rw [hprevious, hrest, List.length_append, List.length_append]
    omega
  have hlengthNew : newTexts.length - front.length - back.length = middle.length := by
    rw [hnew, hothers, List.length_append, List.length_append, List.length_map, List.length_map]
    omega
  have htakeOld : rest.take old.length = old := by
    rw [hrest, List.take_left]
  have htakeNew : others.take middle.length = middle := by
    rw [hothers, List.take_left]
  have hfrontOld : previous.take front.length = front := by
    rw [hprevious, List.take_left]
  have hbackOld : previous.drop (previous.length - back.length) = back := by
    have hlength : previous.length - back.length = (front ++ old).length := by
      rw [hprevious, hrest, List.length_append, List.length_append, List.length_append]
      omega
    rw [hlength, hprevious, hrest, ← List.append_assoc, List.drop_left]
  rw [← hfront, hdropOld, hdropNew, ← hback, hlengthOld, hlengthNew, htakeOld, htakeNew, hfrontOld, hbackOld]
  have hbefore : previous = front ++ old ++ back := by
    rw [hprevious, hrest, List.append_assoc]
  have hnewTexts : newTexts = front.map (·.text) ++ middle ++ back.map (·.text) := by
    rw [hnew, hothers, List.append_assoc]
  have hfirst : ∀ x ∈ old.head?, ∀ y ∈ middle.head?, x.text ≠ y := by
    intro x hx y hy
    exact hfirst x (hrest ▸ head_of_append hx) y (hothers ▸ head_of_append hy)
  have hlast : ∀ x ∈ old.getLast?, ∀ y ∈ middle.getLast?, x.text ≠ y := by
    intro x hx y hy
    exact hlast x (by rwa [List.head?_reverse]) y (by rwa [List.head?_reverse])
  -- The lines of the middle have its texts, so they differ at both ends.
  have hedit : ∀ new : List Line, new.map (·.text) = middle →
      (old.length = new.length → new.map (·.id) = old.map (·.id)) →
      LineEdit previous (front ++ new ++ back) front old new back := by
    intro new hmiddle hinPlace
    refine ⟨hbefore, rfl, ?_, ?_, hinPlace⟩
    · intro x hx y hy
      refine hfirst x hx y.text ?_
      rw [← hmiddle, List.head?_map, hy]
      rfl
    · intro x hx y hy
      refine hlast x hx y.text ?_
      rw [← hmiddle, List.getLast?_map, hy]
      rfl
  have htextsOf : ∀ new : List Line, new.map (·.text) = middle →
      (front ++ new ++ back).map (·.text) = splitLines text := by
    intro new hmiddle
    rw [List.map_append, List.map_append, hmiddle, htexts, hnewTexts]
  split
  · next hlength =>
    obtain ⟨hmiddle, hids⟩ := map_text_zipWith_old old middle hlength
    exact ⟨front, old, _, back, hedit _ hmiddle fun _ => hids, htextsOf _ hmiddle, .inl ⟨hids, rfl⟩⟩
  · next hlength =>
    obtain ⟨hmiddle, hids⟩ := map_zipWith_new uuid middle issued
    have hcount : (List.zipWith (fun text k => { id := uuid k, text : Line }) middle
        (List.range' issued middle.length)).length = middle.length := by
      rw [List.length_zipWith, List.length_range', Nat.min_self]
    refine ⟨front, old, _, back, hedit _ hmiddle fun heq => absurd (heq.trans hcount) hlength, htextsOf _ hmiddle,
      .inr ⟨?_, ?_⟩⟩
    · rw [hcount]
      exact hids
    · rw [hcount]

/-! ## The ids -/

section
variable {uuid : Nat → String} {issued issued' : Nat} {previous next front old new back : List Line} {text : String}

theorem Tracked.linesOk (hinj : Function.Injective uuid) (hp : LinesOk uuid issued previous)
    (h : Tracked uuid issued issued' previous next text front old new back) : LinesOk uuid issued' next := by
  have hbefore := h.edit.before
  have hafter := h.edit.after
  cases h.ids with
  | inl hkept =>
    obtain ⟨hids, rfl⟩ := hkept
    have hsame : next.map (·.id) = previous.map (·.id) := by
      rw [hbefore, hafter, List.map_append, List.map_append, List.map_append, List.map_append, hids]
    constructor
    · rw [hsame]
      exact hp.distinct
    · intro line hline
      have hmem : line.id ∈ previous.map (·.id) := hsame ▸ List.mem_map_of_mem hline
      obtain ⟨other, hother, hid⟩ := List.mem_map.mp hmem
      obtain ⟨k, hk, hother⟩ := hp.issued other hother
      exact ⟨k, hk, hid.symm.trans hother⟩
  | inr hnew =>
    obtain ⟨hids, rfl⟩ := hnew
    have hfresh : ∀ line ∈ new, ∃ k, issued ≤ k ∧ k < issued + new.length ∧ line.id = uuid k := by
      intro line hline
      have hmem : line.id ∈ (List.range' issued new.length).map uuid := hids ▸ List.mem_map_of_mem hline
      obtain ⟨k, hk, hline⟩ := List.mem_map.mp hmem
      rw [List.mem_range'_1] at hk
      exact ⟨k, hk.1, hk.2, hline.symm⟩
    have hold : ∀ line, line ∈ front ∨ line ∈ back → line ∈ previous := by
      intro line hline
      rw [hbefore, List.mem_append, List.mem_append]
      cases hline with
      | inl hline => exact .inl (.inl hline)
      | inr hline => exact .inr hline
    have hapart : ∀ a ∈ new, ∀ b, b ∈ front ∨ b ∈ back → a.id ≠ b.id := by
      intro a ha b hb heq
      obtain ⟨k, hlow, -, hk⟩ := hfresh a ha
      obtain ⟨j, hj, hb⟩ := hp.issued b (hold b hb)
      have := hinj (hk.symm.trans (heq.trans hb))
      omega
    have hdistinct := hp.distinct
    rw [hbefore, List.map_append, List.map_append, List.nodup_append, List.nodup_append] at hdistinct
    obtain ⟨⟨hfront, -, -⟩, hback, hcross⟩ := hdistinct
    constructor
    · rw [hafter, List.map_append, List.map_append, List.nodup_append, List.nodup_append]
      refine ⟨⟨hfront, ?_, ?_⟩, hback, ?_⟩
      · rw [hids]
        exact (List.nodup_range' 1).map hinj
      · intro a ha b hb
        obtain ⟨x, hx, rfl⟩ := List.mem_map.mp ha
        obtain ⟨y, hy, rfl⟩ := List.mem_map.mp hb
        exact (hapart y hy x (.inl hx)).symm
      · intro a ha b hb
        obtain ⟨y, hy, rfl⟩ := List.mem_map.mp hb
        cases List.mem_append.mp ha with
        | inl ha => exact hcross a (List.mem_append_left _ ha) y.id (List.mem_map_of_mem hy)
        | inr ha =>
          obtain ⟨x, hx, rfl⟩ := List.mem_map.mp ha
          exact hapart x hx y (.inr hy)
    · intro line hline
      rw [hafter, List.mem_append, List.mem_append] at hline
      have hkept : line ∈ front ∨ line ∈ back → ∃ k < issued + new.length, line.id = uuid k := by
        intro hline
        obtain ⟨k, hk, hline⟩ := hp.issued line (hold line hline)
        exact ⟨k, by omega, hline⟩
      cases hline with
      | inl hline =>
        cases hline with
        | inl hline => exact hkept (.inl hline)
        | inr hline =>
          obtain ⟨k, -, hk, hline⟩ := hfresh line hline
          exact ⟨k, hk, hline⟩
      | inr hline => exact hkept (.inr hline)

/-- What two lists with the same ends have in common, where their middles are apart. -/
theorem filter_mem_common {α : Type} [DecidableEq α] {front old new back : List α}
    (hold : ∀ x ∈ old, x ∉ front ++ new ++ back) (hnew : ∀ x ∈ new, x ∉ front ++ old ++ back) :
    (front ++ old ++ back).filter (· ∈ front ++ new ++ back) =
      (front ++ new ++ back).filter (· ∈ front ++ old ++ back) := by
  have hmiddle : ∀ {xs others : List α}, (∀ x ∈ xs, x ∉ others) → xs.filter (· ∈ others) = [] := by
    intro xs others h
    rw [List.filter_eq_nil_iff]
    intro x hx
    rw [decide_eq_true_eq]
    exact h x hx
  have hends : ∀ {xs middle : List α}, (∀ x ∈ xs, x ∈ front ∨ x ∈ back) →
      xs.filter (· ∈ front ++ middle ++ back) = xs := by
    intro xs middle h
    rw [List.filter_eq_self]
    intro x hx
    rw [decide_eq_true_eq, List.mem_append, List.mem_append]
    cases h x hx with
    | inl hfront => exact .inl (.inl hfront)
    | inr hback => exact .inr hback
  have hfront : ∀ x ∈ front, x ∈ front ∨ x ∈ back := fun x hx => .inl hx
  have hback : ∀ x ∈ back, x ∈ front ∨ x ∈ back := fun x hx => .inr hx
  conv_lhs => rw [List.filter_append, List.filter_append, hmiddle hold, hends hfront, hends hback]
  conv_rhs => rw [List.filter_append, List.filter_append, hmiddle hnew, hends hfront, hends hback]

theorem map_filter_id (lines : List Line) (ids : List String) :
    (lines.filter (·.id ∈ ids)).map (·.id) = (lines.map (·.id)).filter (· ∈ ids) := by
  rw [List.filter_map]
  rfl

/-- The lines that are kept come in the same order. -/
theorem Tracked.survivors (hinj : Function.Injective uuid) (hp : LinesOk uuid issued previous)
    (h : Tracked uuid issued issued' previous next text front old new back) :
    (previous.filter (·.id ∈ next.map (·.id))).map (·.id) = (next.filter (·.id ∈ previous.map (·.id))).map (·.id) := by
  have hnext := (h.linesOk hinj hp).distinct
  have hdistinct := hp.distinct
  have hids : previous.map (·.id) = front.map (·.id) ++ old.map (·.id) ++ back.map (·.id) := by
    rw [h.edit.before, List.map_append, List.map_append]
  have hids' : next.map (·.id) = front.map (·.id) ++ new.map (·.id) ++ back.map (·.id) := by
    rw [h.edit.after, List.map_append, List.map_append]
  rw [map_filter_id, map_filter_id]
  cases h.ids with
  | inl hkept => rw [hids, hids', hkept.1]
  | inr hnew =>
    -- A middle that is replaced has new ids only.
    have hapart : ∀ x ∈ new.map (·.id), x ∉ previous.map (·.id) := by
      intro x hx hmem
      rw [hnew.1] at hx
      obtain ⟨k, hk, rfl⟩ := List.mem_map.mp hx
      obtain ⟨line, hline, hid⟩ := List.mem_map.mp hmem
      obtain ⟨j, hj, hline⟩ := hp.issued line hline
      have := hinj (hid.symm.trans hline)
      rw [List.mem_range'_1] at hk
      omega
    rw [hids] at hapart hdistinct ⊢
    rw [hids']
    refine filter_mem_common ?_ hapart
    intro x hx hmem
    rw [List.nodup_append, List.nodup_append] at hdistinct
    obtain ⟨⟨-, -, hfront⟩, -, hback⟩ := hdistinct
    rw [List.mem_append, List.mem_append] at hmem
    cases hmem with
    | inl hmem =>
      cases hmem with
      | inl hmem => exact hfront x hmem x hx rfl
      | inr hmem => exact hapart x hmem (List.mem_append_left _ (List.mem_append_right _ hx))
    | inr hmem => exact hback x (List.mem_append_right _ hx) x hmem rfl

end

end Zulangue.Replay
