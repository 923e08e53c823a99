import Zulangue.Transcript.Convergence

/-!
# Moving the slice of a session

A session's blocks with the annotations among and behind them are taken out of one list and put into
another in front of a capture block, or at the end. There the session's range is what was put in.
-/

namespace Zulangue.Transcript

open Zulangue.Lib Zulangue.VtMirror

variable {s : String} {blocks before core trail slice after : List UtteranceBlock}

/-! ## The range of a session -/

/-- A session's stretch: its first capture block to its last, and annotations behind. -/
structure SessionStretch (s : String) (core trail : List UtteranceBlock) : Prop where
  first : ∃ first rest, core = first :: rest ∧ first.owner = captureOwner s
  last : ∃ init last, core = init ++ [last] ∧ last.owner = captureOwner s
  behind : ∀ b ∈ trail, b.owner = userOwner

/-- The block belongs to another session. -/
def Foreign (s : String) (b : UtteranceBlock) : Prop := b.owner ≠ captureOwner s ∧ b.owner ≠ userOwner

instance (s : String) (b : UtteranceBlock) : Decidable (Foreign s b) := inferInstanceAs (Decidable (_ ∧ _))

theorem captureIndices_append (items more : List Value) (s : String) :
    captureIndices (items ++ more) s =
      captureIndices items s ++ (captureIndices more s).map (· + items.length) := by
  simp only [captureIndices, List.zipIdx_append, List.filter_append, List.map_append]
  congr 1
  rw [List.zipIdx_eq_map_add, List.filter_map, List.map_map, List.map_map]
  refine List.map_congr_left fun entry _ => ?_
  simp only [Function.comp_apply]
  omega

theorem captureIndices_eq_nil (h : ∀ b ∈ blocks, b.owner ≠ captureOwner s) :
    captureIndices (itemsOf blocks) s = [] := by
  rw [captureIndices, List.map_eq_nil_iff, List.filter_eq_nil_iff]
  intro entry hentry
  obtain ⟨b, hb, heq⟩ := List.mem_map.mp (List.fst_mem_of_mem_zipIdx hentry)
  have howner : blockOwner entry.1 = b.owner := heq ▸ rfl
  simpa [howner] using h b hb

theorem captureIndices_single {b : UtteranceBlock} (h : b.owner = captureOwner s) :
    captureIndices (itemsOf [b]) s = [0] := by
  have howner : blockOwner b.toJson = captureOwner s := h
  simp [captureIndices, itemsOf, howner]

theorem itemsOf_append (first second : List UtteranceBlock) :
    itemsOf (first ++ second) = itemsOf first ++ itemsOf second :=
  List.map_append

theorem head?_captureIndices {first : UtteranceBlock} (rest : List UtteranceBlock)
    (h : first.owner = captureOwner s) : (captureIndices (itemsOf (first :: rest)) s).head? = some 0 := by
  have hsplit : itemsOf (first :: rest) = itemsOf [first] ++ itemsOf rest := rfl
  rw [hsplit, captureIndices_append, captureIndices_single h]
  rfl

theorem getLast?_captureIndices (init : List UtteranceBlock) {last : UtteranceBlock}
    (h : last.owner = captureOwner s) :
    (captureIndices (itemsOf (init ++ [last])) s).getLast? = some init.length := by
  rw [itemsOf_append, captureIndices_append, captureIndices_single h]
  simp [itemsOf]

/-- Between blocks of other sessions a stretch is the session's range, unless another session is in
it. -/
theorem sessionSliceRange_stretch (hstretch : SessionStretch s core trail)
    (hbefore : ∀ b ∈ before, b.owner ≠ captureOwner s) (hafter : ∀ b ∈ after, b.owner ≠ captureOwner s)
    (hend : ∀ b ∈ after.head?, b.owner ≠ userOwner) :
    sessionSliceRange (itemsOf (before ++ (core ++ trail) ++ after)) s =
      if ∃ b ∈ core, Foreign s b then .error (.sessionSliceInterleaved s)
      else .ok (some (before.length, before.length + (core ++ trail).length)) := by
  obtain ⟨first, rest, hfirst, hfirstOwner⟩ := hstretch.first
  obtain ⟨init, last, hlast, hlastOwner⟩ := hstretch.last
  have htrail : ∀ b ∈ trail, b.owner ≠ captureOwner s := fun b hb heq =>
    captureOwner_ne_userOwner s (heq.symm.trans (hstretch.behind b hb))
  have hindices : captureIndices (itemsOf (before ++ (core ++ trail) ++ after)) s =
      (captureIndices (itemsOf core) s).map (· + before.length) := by
    simp only [itemsOf_append, captureIndices_append, captureIndices_eq_nil hbefore,
      captureIndices_eq_nil hafter, captureIndices_eq_nil htrail, List.nil_append, List.map_nil,
      List.append_nil, itemsOf_length]
  have hhead : (captureIndices (itemsOf (before ++ (core ++ trail) ++ after)) s).head? = some before.length := by
    rw [hindices, List.head?_map, hfirst, head?_captureIndices rest hfirstOwner]
    simp
  have hgetLast : (captureIndices (itemsOf (before ++ (core ++ trail) ++ after)) s).getLast? =
      some (init.length + before.length) := by
    rw [hindices, List.getLast?_map, hlast, getLast?_captureIndices init hlastOwner]
    rfl
  have hlength : core.length = init.length + 1 := by simp [hlast]
  have hdrop : (itemsOf (before ++ (core ++ trail) ++ after)).drop before.length =
      itemsOf core ++ itemsOf (trail ++ after) := by
    rw [List.append_assoc, List.append_assoc, itemsOf_append, itemsOf_append core,
      List.drop_left' (itemsOf_length before)]
  have hinner : ((itemsOf (before ++ (core ++ trail) ++ after)).drop before.length).take
      (init.length + before.length + 1 - before.length) = itemsOf core := by
    rw [hdrop, List.take_left' (by rw [itemsOf_length]; omega)]
  have hbehind : (itemsOf (before ++ (core ++ trail) ++ after)).drop (init.length + before.length + 1) =
      itemsOf (trail ++ after) := by
    have hsplit : init.length + before.length + 1 = before.length + core.length := by omega
    rw [hsplit, ← List.drop_drop, hdrop, List.drop_left' (itemsOf_length core)]
  have htrailing : (itemsOf (trail ++ after)).takeWhile (fun item => blockOwner item = userOwner) =
      itemsOf trail := by
    rw [itemsOf_append, List.takeWhile_append_of_pos]
    · cases after with
      | nil => simp [itemsOf]
      | cons b after =>
        have hb : blockOwner b.toJson ≠ userOwner := hend b rfl
        simp [itemsOf, hb]
    · intro item hitem
      obtain ⟨b, hb, rfl⟩ := List.mem_map.mp hitem
      have howner : blockOwner b.toJson = userOwner := hstretch.behind b hb
      simp [howner]
  have hforeign : (itemsOf core).any (fun item =>
      decide (blockOwner item ≠ captureOwner s ∧ blockOwner item ≠ userOwner)) =
      decide (∃ b ∈ core, Foreign s b) := by
    rw [Bool.eq_iff_iff, List.any_eq_true, decide_eq_true_iff]
    simp only [decide_eq_true_eq]
    constructor
    · rintro ⟨item, hitem, hforeign⟩
      obtain ⟨b, hb, rfl⟩ := List.mem_map.mp hitem
      exact ⟨b, hb, hforeign⟩
    · rintro ⟨b, hb, hforeign⟩
      exact ⟨b.toJson, List.mem_map_of_mem hb, hforeign⟩
  have hstop : init.length + before.length + (itemsOf trail).length + 1 =
      before.length + (core ++ trail).length := by
    rw [itemsOf_length, List.length_append]
    omega
  simp only [sessionSliceRange, hhead, hgetLast, hinner, hbehind, htrailing, hforeign, decide_eq_true_eq, hstop]

/-- A list with a block of the session holds one stretch of it. -/
theorem exists_stretch (h : ∃ b ∈ blocks, b.owner = captureOwner s) :
    ∃ before core trail after, blocks = before ++ (core ++ trail) ++ after ∧ SessionStretch s core trail ∧
      (∀ b ∈ before, b.owner ≠ captureOwner s) ∧ (∀ b ∈ after, b.owner ≠ captureOwner s) ∧
      ∀ b ∈ after.head?, b.owner ≠ userOwner := by
  have hsplit := List.takeWhile_append_dropWhile (p := fun b : UtteranceBlock => b.owner ≠ captureOwner s)
    (l := blocks)
  have hbefore : ∀ b ∈ blocks.takeWhile (fun b => b.owner ≠ captureOwner s), b.owner ≠ captureOwner s :=
    fun b hb => by simpa using List.mem_takeWhile_imp hb
  cases hrest : blocks.dropWhile (fun b : UtteranceBlock => b.owner ≠ captureOwner s) with
  | nil =>
    obtain ⟨b, hb, howner⟩ := h
    have hall := List.dropWhile_eq_nil_iff.mp hrest b hb
    simp [howner] at hall
  | cons first rest =>
    have hfirst : first.owner = captureOwner s := by
      have hhead := List.head?_dropWhile_not (fun b : UtteranceBlock => decide (b.owner ≠ captureOwner s)) blocks
      rw [hrest] at hhead
      simpa using hhead
    obtain ⟨front, last, hlast, hlastOwner, htail⟩ :=
      @exists_last_of_owner (captureOwner s) _ ⟨first, List.mem_cons_self, hfirst⟩
    generalize (first :: rest).rtakeWhile (fun b => b.owner ≠ captureOwner s) = tail at hlast htail
    have hcut := List.takeWhile_append_dropWhile (p := fun b : UtteranceBlock => b.owner = userOwner) (l := tail)
    refine ⟨blocks.takeWhile fun b => b.owner ≠ captureOwner s, front ++ [last], tail.takeWhile fun b => b.owner = userOwner,
      tail.dropWhile fun b => b.owner = userOwner, ?_, ⟨?_, ⟨front, last, rfl, hlastOwner⟩, ?_⟩, hbefore, ?_, ?_⟩
    · refine hsplit.symm.trans ?_
      rw [hrest, hlast, List.append_assoc _ _ (tail.dropWhile _), List.append_assoc (front ++ [last]), hcut]
    · cases front with
      | nil => exact ⟨last, [], rfl, hlastOwner⟩
      | cons b front =>
        obtain ⟨rfl, -⟩ := List.cons.inj hlast
        exact ⟨_, front ++ [last], rfl, hfirst⟩
    · exact fun b hb => by simpa using List.mem_takeWhile_imp hb
    · exact fun b hb => htail b ((List.dropWhile_sublist _).subset hb)
    · intro b hb
      have hhead := List.head?_dropWhile_not (fun b : UtteranceBlock => decide (b.owner = userOwner)) tail
      cases hdrop : tail.dropWhile (fun b => b.owner = userOwner) with
      | nil => simp [hdrop] at hb
      | cons c after =>
        rw [hdrop] at hhead hb
        obtain rfl : c = b := by simpa using hb
        simpa using hhead

/-! ## What a slice is -/

variable {L : Loro} {projection : TranscriptProjection L}

theorem sessionSlice_none (hitems : projection.items = itemsOf blocks)
    (h : ∀ b ∈ blocks, b.owner ≠ captureOwner s) :
    sessionSliceRange projection.items s = .ok none ∧ projection.sessionSlice s = .ok [] := by
  have hrange : sessionSliceRange projection.items s = .ok none := by
    simp [sessionSliceRange, hitems, captureIndices_eq_nil h]
  exact ⟨hrange, by rw [TranscriptProjection.sessionSlice, hrange]⟩

/-- A slice is nothing, or a stretch without blocks of other sessions. -/
theorem sessionSlice_shape (hitems : projection.items = itemsOf blocks)
    (hslice : projection.sessionSlice s = .ok slice) :
    slice = [] ∨ ∃ core trail, slice = core ++ trail ∧ SessionStretch s core trail ∧ ∀ b ∈ core, ¬ Foreign s b := by
  by_cases hany : ∃ b ∈ blocks, b.owner = captureOwner s
  · obtain ⟨before, core, trail, after, rfl, hstretch, hbefore, hafter, hend⟩ := exists_stretch hany
    have hrange := sessionSliceRange_stretch hstretch hbefore hafter hend
    rw [TranscriptProjection.sessionSlice, hitems, hrange] at hslice
    by_cases hforeign : ∃ b ∈ core, Foreign s b
    · simp [hforeign] at hslice
    · rw [if_neg hforeign, blocks_of_items hitems] at hslice
      refine .inr ⟨core, trail, ?_, hstretch, fun b hb hf => hforeign ⟨b, hb, hf⟩⟩
      have hcut : ((before ++ (core ++ trail) ++ after).drop before.length).take
          (before.length + (core ++ trail).length - before.length) = core ++ trail := by
        rw [List.append_assoc, List.drop_left' rfl, Nat.add_sub_cancel_left, List.take_left' rfl]
      exact (Except.ok.inj hslice).symm.trans hcut
  · simp only [not_exists, not_and] at hany
    exact .inl (Except.ok.inj (hslice.symm.trans (sessionSlice_none hitems hany).2))

/-! ## Putting blocks in -/

/-- Blocks that are there are passed over. -/
theorem spliceBlocks_present {items : List Value} {present : List UtteranceBlock}
    (h : ∀ b ∈ present, (findBlock items b.id).isSome) (rest : List UtteranceBlock) (cursor : Nat) :
    TranscriptProjection.spliceBlocks (present ++ rest) cursor items =
      TranscriptProjection.spliceBlocks rest cursor items := by
  induction present with
  | nil => rfl
  | cons b present ih =>
    obtain ⟨index, hindex⟩ := Option.isSome_iff_exists.mp (h b List.mem_cons_self)
    rw [List.cons_append, TranscriptProjection.spliceBlocks, hindex]
    exact ih fun c hc => h c (List.mem_cons_of_mem _ hc)

/-- Blocks with ids of their own are put in one behind the other. -/
theorem spliceBlocks_fresh {front back fresh : List UtteranceBlock} (hids : (fresh.map (·.id)).Nodup)
    (h : ∀ b ∈ fresh, ∀ other ∈ front ++ back, other.id ≠ b.id) :
    TranscriptProjection.spliceBlocks fresh front.length (itemsOf (front ++ back)) =
      (fresh.length, itemsOf (front ++ fresh ++ back)) := by
  induction fresh generalizing front with
  | nil => simp [TranscriptProjection.spliceBlocks]
  | cons b fresh ih =>
    obtain ⟨hb, hids⟩ := List.nodup_cons.mp hids
    have hnone : findBlock (itemsOf (front ++ back)) b.id = none := findBlock_none (h b List.mem_cons_self)
    have hinsert : (itemsOf (front ++ back)).insertIdx front.length b.toJson =
        itemsOf ((front ++ [b]) ++ back) := by
      rw [itemsOf_append, ← itemsOf_length front, ListEdit.insertIdx_append_length]
      simp [itemsOf]
    have hfresh : ∀ c ∈ fresh, ∀ other ∈ (front ++ [b]) ++ back, other.id ≠ c.id := by
      intro c hc other hother
      rw [List.append_assoc, List.mem_append, List.singleton_append, List.mem_cons] at hother
      rcases hother with hin | rfl | hin
      · exact h c (List.mem_cons_of_mem _ hc) other (List.mem_append_left _ hin)
      · exact fun heq => hb (List.mem_map.mpr ⟨c, hc, heq.symm⟩)
      · exact h c (List.mem_cons_of_mem _ hc) other (List.mem_append_right _ hin)
    have hrest := ih hids hfresh
    rw [List.length_append, List.length_singleton] at hrest
    simp only [TranscriptProjection.spliceBlocks, hnone, hinsert, hrest]
    simp

/-- Where a slice goes: to the end, or in front of a capture block, the first with the anchor's id. -/
def Anchored (anchor : Option String) (before after : List UtteranceBlock) : Prop :=
  match anchor with
  | none => after = []
  | some id => ∃ b rest, after = b :: rest ∧ b.id = id ∧ b.owner ≠ userOwner ∧ ∀ other ∈ before, other.id ≠ id

namespace TranscriptProjection

/-- What a verb does that changes `count` blocks. -/
def sets (projection : TranscriptProjection L) (blocks : List UtteranceBlock) (count : Nat) :
    VerbOutcome L Nat :=
  if count = 0 then some (.ok 0, projection) else projection.commitWith (itemsOf blocks) count

/-- Blocks that are committed are read back. -/
theorem items_of_commit {after : TranscriptProjection L} {items : List Value}
    (h : projection.commit items = some (.ok (), after)) : after.items = items := by
  rw [commit, Option.map_eq_some_iff] at h
  obtain ⟨state, hstate, hset⟩ := h
  cases hmirror : projection.mirror.setState transcriptConfig state with
  | error error =>
    rw [hmirror] at hset
    cases hset
  | ok mirror =>
    rw [hmirror] at hset
    obtain rfl := (Prod.mk.inj hset).2
    have hkept : mirror.state = state := by
      unfold Mirror.setState at hmirror
      dsimp only at hmirror
      split at hmirror
      · cases hmirror
      · obtain ⟨_, _, hpure⟩ := Fallible.bind_eq_ok.mp hmirror
        obtain rfl := Except.ok.inj hpure
        rfl
    have hget : (state.get transcriptUtterances) = some (.arr items) := by
      cases hold : projection.mirror.state with
      | obj entries =>
        rw [hold] at hstate
        obtain rfl := Option.some.inj hstate
        exact KeyMap.get_insert_self _ _ _
      | null =>
        rw [hold] at hstate
        obtain rfl := Option.some.inj hstate
        rfl
      | _ =>
        rw [hold] at hstate
        cases hstate
    rw [TranscriptProjection.items, hkept, ensureItems, hget]
    rfl

theorem items_of_sets {after : TranscriptProjection L} {count n : Nat}
    (hzero : count = 0 → projection.items = itemsOf blocks)
    (h : projection.sets blocks count = some (.ok n, after)) : after.items = itemsOf blocks ∧ n = count := by
  unfold sets at h
  split at h
  · next hcount =>
    obtain ⟨hn, rfl⟩ := Prod.mk.inj (Option.some.inj h)
    exact ⟨hzero hcount, (Except.ok.inj hn).symm.trans hcount.symm⟩
  · rw [commitWith, Option.map_eq_some_iff] at h
    obtain ⟨⟨result, next⟩, hcommit, heq⟩ := h
    obtain ⟨hresult, rfl⟩ := Prod.mk.inj heq
    cases result with
    | error error => cases hresult
    | ok _ => exact ⟨items_of_commit hcommit, (Except.ok.inj hresult).symm⟩

end TranscriptProjection

/-! ## There and back -/

theorem validateLanes_of_supported {lanes : List String} (h : ∀ lane ∈ lanes, lane ∈ supportedLanes) :
    validateLanes lanes = .ok () := by
  have hnone : lanes.find? (fun lane => lane ∉ supportedLanes) = none := by
    rw [List.find?_eq_none]
    intro lane hlane
    simpa using h lane hlane
  rw [validateLanes, hnone]

/-- A block that a splice takes. -/
def Spliceable (b : UtteranceBlock) : Prop := b.id ≠ "" ∧ ∀ lane ∈ b.lanes.keys, lane ∈ supportedLanes

/-- Splicing a slice of which the first `k` blocks are there puts in the others behind them. -/
theorem splice_from {anchor : Option String} {k : Nat} (hids : (slice.map (·.id)).Nodup)
    (hslice : ∀ b ∈ slice, Spliceable b) (hfree : ∀ b ∈ slice, ∀ other ∈ before ++ after, other.id ≠ b.id)
    (hanchor : Anchored anchor before after)
    (hitems : projection.items = itemsOf (before ++ slice.take k ++ after)) :
    projection.spliceSessionSlice slice anchor =
      projection.sets (before ++ slice ++ after) (slice.length - k) := by
  have hnamed : (slice.any fun b => b.id.isEmpty) = false := by
    rw [List.any_eq_false]
    intro b hb
    simpa [String.isEmpty_iff] using (hslice b hb).1
  have hlanes : validateLanes (slice.flatMap fun b => b.lanes.keys) = .ok () := by
    refine validateLanes_of_supported fun lane hlane => ?_
    obtain ⟨b, hb, hlane⟩ := List.mem_flatMap.mp hlane
    exact (hslice b hb).2 lane hlane
  -- The first `k` blocks are found, the others are not.
  have hpresent : ∀ b ∈ slice.take k, (findBlock projection.items b.id).isSome := by
    intro b hb
    rw [hitems, findBlock_isSome]
    exact ⟨b, List.mem_append_left _ (List.mem_append_right _ hb), rfl⟩
  have hsplit : slice.take k ++ slice.drop k = slice := List.take_append_drop k slice
  have hfresh : ∀ b ∈ slice.drop k, ∀ other ∈ before ++ slice.take k ++ after, other.id ≠ b.id := by
    intro b hb other hother
    rw [← hsplit, List.map_append, List.nodup_append] at hids
    rw [List.append_assoc, List.mem_append, List.mem_append] at hother
    rcases hother with hin | hin | hin
    · exact hfree b (List.mem_of_mem_drop hb) other (List.mem_append_left _ hin)
    · exact hids.2.2 _ (List.mem_map_of_mem hin) _ (List.mem_map_of_mem hb)
    · exact hfree b (List.mem_of_mem_drop hb) other (List.mem_append_right _ hin)
  have hdropIds : ((slice.drop k).map (·.id)).Nodup := hids.sublist ((List.drop_sublist k slice).map _)
  have hrun : TranscriptProjection.spliceBlocks slice (before ++ slice.take k).length projection.items =
      (slice.length - k, itemsOf (before ++ slice ++ after)) := by
    have hskip := spliceBlocks_present hpresent (slice.drop k) (before ++ slice.take k).length
    rw [hsplit] at hskip
    rw [hskip, hitems, spliceBlocks_fresh hdropIds hfresh, List.length_drop, List.append_assoc before, hsplit]
  have hcursor : ∀ id, anchor = some id →
      findBlock projection.items id = some (before ++ slice.take k).length := by
    rintro id rfl
    obtain ⟨b, rest, rfl, rfl, -, hbefore⟩ := hanchor
    rw [hitems]
    refine findBlock_append fun other hother => ?_
    rcases List.mem_append.mp hother with hin | hin
    · exact hbefore other hin
    · exact (hfree other (List.mem_of_mem_take hin) b (List.mem_append_right _ List.mem_cons_self)).symm
  have hend : anchor = none → projection.items.length = (before ++ slice.take k).length := by
    rintro rfl
    have hnil : after = [] := hanchor
    rw [hitems, itemsOf_length, hnil, List.append_nil]
  unfold TranscriptProjection.spliceSessionSlice
  rw [hnamed, hlanes]
  cases anchor with
  | none =>
    simp only [hend rfl, hrun, Bool.false_eq_true, if_false]
    rfl
  | some id =>
    simp only [hcursor id rfl, hrun, Bool.false_eq_true, if_false]
    rfl

/-- In its new place the session's range is the slice. -/
theorem range_of_moved {anchor : Option String} (hshape : ∃ core trail, slice = core ++ trail ∧
      SessionStretch s core trail ∧ ∀ b ∈ core, ¬ Foreign s b)
    (hfree : ∀ other ∈ before ++ after, other.owner ≠ captureOwner s) (hanchor : Anchored anchor before after) :
    sessionSliceRange (itemsOf (before ++ slice ++ after)) s =
      .ok (some (before.length, before.length + slice.length)) := by
  obtain ⟨core, trail, rfl, hstretch, hinner⟩ := hshape
  have hend : ∀ b ∈ after.head?, b.owner ≠ userOwner := by
    intro b hb
    cases anchor with
    | none =>
      have hnil : after = [] := hanchor
      simp [hnil] at hb
    | some id =>
      obtain ⟨first, rest, rfl, -, howner, -⟩ := hanchor
      obtain rfl : first = b := by simpa using hb
      exact howner
  have hrange := sessionSliceRange_stretch hstretch
    (fun b hb => hfree b (List.mem_append_left _ hb)) (fun b hb => hfree b (List.mem_append_right _ hb)) hend
  rw [hrange, if_neg]
  rintro ⟨b, hb, hforeign⟩
  exact hinner b hb hforeign

/-- A slice that is put into another list in front of a capture block or at its end: the first splice,
and every replay over what is there of it, asks for the same list; there the slice is read back as
it was, and removing it asks for the list as it was before. -/
theorem slice_moves_and_returns {source : TranscriptProjection L} {sourceBlocks : List UtteranceBlock}
    {anchor : Option String} (hsource : source.items = itemsOf sourceBlocks)
    (hslice : source.sessionSlice s = .ok slice) (hids : (slice.map (·.id)).Nodup)
    (hspliceable : ∀ b ∈ slice, Spliceable b)
    (hfree : ∀ other ∈ before ++ after, other.owner ≠ captureOwner s ∧ ∀ b ∈ slice, other.id ≠ b.id)
    (hanchor : Anchored anchor before after) :
    (∀ (target : TranscriptProjection L) (k : Nat),
      target.items = itemsOf (before ++ slice.take k ++ after) →
        target.spliceSessionSlice slice anchor =
            target.sets (before ++ slice ++ after) (slice.length - k) ∧
          ∀ n next, target.spliceSessionSlice slice anchor = some (.ok n, next) →
            next.items = itemsOf (before ++ slice ++ after) ∧ n = slice.length - k) ∧
      ∀ moved : TranscriptProjection L, moved.items = itemsOf (before ++ slice ++ after) →
        moved.sessionSlice s = .ok slice ∧
          moved.spliceSessionSlice slice anchor = some (.ok 0, moved) ∧
          moved.removeSessionSlice s = moved.sets (before ++ after) slice.length ∧
          ∀ n next, moved.removeSessionSlice s = some (.ok n, next) →
            next.items = itemsOf (before ++ after) ∧ n = slice.length := by
  have hsplice : ∀ (target : TranscriptProjection L) (k : Nat),
      target.items = itemsOf (before ++ slice.take k ++ after) →
      target.spliceSessionSlice slice anchor = target.sets (before ++ slice ++ after) (slice.length - k) :=
    fun target k => splice_from hids hspliceable (fun b hb other hother => (hfree other hother).2 b hb) hanchor
  refine ⟨fun target k htarget => ⟨hsplice target k htarget, fun n next hok => ?_⟩, fun moved hmoved => ?_⟩
  · rw [hsplice target k htarget] at hok
    refine TranscriptProjection.items_of_sets (fun hzero => ?_) hok
    rw [htarget, List.take_of_length_le (by omega)]
  · have hreplay : moved.spliceSessionSlice slice anchor = some (.ok 0, moved) := by
      have hall := hsplice moved slice.length (by rw [List.take_length]; exact hmoved)
      rw [Nat.sub_self] at hall
      exact hall
    have hremove : moved.sessionSlice s = .ok slice ∧
        moved.removeSessionSlice s = moved.sets (before ++ after) slice.length := by
      rcases sessionSlice_shape hsource hslice with rfl | hshape
      · have hnone := sessionSlice_none (s := s) hmoved (by
          intro b hb
          rw [List.append_nil] at hb
          exact (hfree b hb).1)
        refine ⟨hnone.2, ?_⟩
        simp only [TranscriptProjection.removeSessionSlice, hnone.1]
        rfl
      · have hrange := range_of_moved hshape (fun other hother => (hfree other hother).1) hanchor
        have hpos : slice.length ≠ 0 := by
          obtain ⟨core, trail, rfl, hstretch, -⟩ := hshape
          obtain ⟨first, rest, rfl, -⟩ := hstretch.first
          simp
        have hcut : ((before ++ slice ++ after).drop before.length).take
            (before.length + slice.length - before.length) = slice := by
          rw [List.append_assoc, List.drop_left' rfl, Nat.add_sub_cancel_left, List.take_left' rfl]
        have hkept : (itemsOf (before ++ slice ++ after)).take before.length ++
            (itemsOf (before ++ slice ++ after)).drop (before.length + slice.length) =
            itemsOf (before ++ after) := by
          rw [itemsOf, ← List.map_take, ← List.map_drop, ← List.map_append, List.append_assoc,
            List.take_left' rfl, ← List.append_assoc, List.drop_left' (by simp)]
          rfl
        constructor
        · rw [TranscriptProjection.sessionSlice, hmoved, hrange, blocks_of_items hmoved]
          exact congrArg Except.ok hcut
        · simp only [TranscriptProjection.removeSessionSlice, hmoved, hrange, hkept, Nat.add_sub_cancel_left,
            TranscriptProjection.sets, if_neg hpos]
    refine ⟨hremove.1, hreplay, hremove.2, fun n next hok => ?_⟩
    rw [hremove.2] at hok
    refine TranscriptProjection.items_of_sets (fun hzero => ?_) hok
    rw [hmoved, List.length_eq_zero_iff.mp hzero, List.append_nil]

/-! ## Lists that splice and lists that do not -/

theorem sessionSlice_congr {other : TranscriptProjection L} (h : projection.items = other.items) (s : String) :
    projection.sessionSlice s = other.sessionSlice s := by
  rw [TranscriptProjection.sessionSlice, TranscriptProjection.sessionSlice, TranscriptProjection.blocks,
    TranscriptProjection.blocks, h]

def listed (blocks : List UtteranceBlock) : TranscriptProjection referenceLoro where
  mirror := { doc := newBlockDocument, state := .obj [(transcriptUtterances, .arr (itemsOf blocks))],
              registry := fun _ => none }

def spokenBlock (id session : String) : UtteranceBlock :=
  { id, owner := captureOwner session, text := "", lanes := .empty }

def noteBlock (id : String) : UtteranceBlock := { id, owner := userOwner, text := "", lanes := .empty }

def foreignLaneBlock : UtteranceBlock :=
  { id := "a", owner := captureOwner "s", text := "", lanes := .insert "xx" "" .empty }

/-- A block and the note behind it, between two other sessions. -/
theorem slice_moves_and_returns_between :
    (listed [spokenBlock "x" "r", spokenBlock "a" "s", noteBlock "n", spokenBlock "y" "t"]).sessionSlice "s" =
        .ok [spokenBlock "a" "s", noteBlock "n"] ∧
      (listed [spokenBlock "x" "r", spokenBlock "a" "s", noteBlock "n", spokenBlock "y" "t"]).spliceSessionSlice
          [spokenBlock "a" "s", noteBlock "n"] (some "y") =
        some (.ok 0, listed [spokenBlock "x" "r", spokenBlock "a" "s", noteBlock "n", spokenBlock "y" "t"]) := by
  have hmoves := @slice_moves_and_returns "s" [spokenBlock "x" "r"]
    [spokenBlock "a" "s", noteBlock "n"] [spokenBlock "y" "t"] _
    (listed [spokenBlock "a" "s", noteBlock "n"]) [spokenBlock "a" "s", noteBlock "n"]
    (some "y") rfl rfl (by decide) ?_ ?_ ?_
  · have hmoved := hmoves.2
      (listed [spokenBlock "x" "r", spokenBlock "a" "s", noteBlock "n", spokenBlock "y" "t"]) rfl
    exact ⟨hmoved.1, hmoved.2.1⟩
  · intro b hb
    rcases List.mem_pair.mp hb with rfl | rfl <;> exact ⟨by decide, fun lane hlane => by cases hlane⟩
  · decide
  · exact ⟨spokenBlock "y" "t", [], rfl, rfl, by decide, by decide⟩

/-- Splicing into a list gives one in which the slice is read back. -/
def MovesInto (slice target : List UtteranceBlock) (anchor : Option String) : Prop :=
  ∃ n moved, (listed target).spliceSessionSlice slice anchor = some (.ok n, moved) ∧
    moved.sessionSlice "s" = .ok slice

/-- A slice with a lane of its own language is refused, one that has an id twice comes in short, and an
anchor whose id an annotation has too lets the annotation into the slice. -/
theorem slice_moves_not_always :
    ((listed [foreignLaneBlock]).sessionSlice "s" = .ok [foreignLaneBlock] ∧
        ¬ MovesInto [foreignLaneBlock] [] none) ∧
      ((listed [spokenBlock "a" "s", spokenBlock "a" "s"]).sessionSlice "s" =
          .ok [spokenBlock "a" "s", spokenBlock "a" "s"] ∧
        ¬ MovesInto [spokenBlock "a" "s", spokenBlock "a" "s"] [] none) ∧
      ((listed [spokenBlock "a" "s"]).sessionSlice "s" = .ok [spokenBlock "a" "s"] ∧
        ¬ MovesInto [spokenBlock "a" "s"] [noteBlock "k", spokenBlock "k" "t"] (some "k")) := by
  refine ⟨⟨rfl, ?_⟩, ⟨rfl, ?_⟩, rfl, ?_⟩
  · rintro ⟨n, moved, hsplice, -⟩
    have hrefused : (listed []).spliceSessionSlice [foreignLaneBlock] none =
        some (.error (.laneOutOfScope "xx"), listed []) := rfl
    cases hrefused.symm.trans hsplice
  · rintro ⟨n, moved, hsplice, hslice⟩
    have hshort : (listed []).spliceSessionSlice [spokenBlock "a" "s", spokenBlock "a" "s"] none =
        (listed []).sets [spokenBlock "a" "s"] 1 := rfl
    have hitems := (TranscriptProjection.items_of_sets (fun h => by cases h) (hshort.symm.trans hsplice)).1
    have hread : (listed [spokenBlock "a" "s"]).sessionSlice "s" = .ok [spokenBlock "a" "s"] := rfl
    rw [@sessionSlice_congr _ _ (listed [spokenBlock "a" "s"]) hitems, hread] at hslice
    exact absurd (Except.ok.inj hslice) (by decide)
  · rintro ⟨n, moved, hsplice, hslice⟩
    have hput : (listed [noteBlock "k", spokenBlock "k" "t"]).spliceSessionSlice [spokenBlock "a" "s"]
        (some "k") = (listed [noteBlock "k", spokenBlock "k" "t"]).sets
          [spokenBlock "a" "s", noteBlock "k", spokenBlock "k" "t"] 1 := rfl
    have hitems := (TranscriptProjection.items_of_sets (fun h => by cases h) (hput.symm.trans hsplice)).1
    have hread : (listed [spokenBlock "a" "s", noteBlock "k", spokenBlock "k" "t"]).sessionSlice "s" =
        .ok [spokenBlock "a" "s", noteBlock "k"] := rfl
    rw [@sessionSlice_congr _ _ (listed [spokenBlock "a" "s", noteBlock "k", spokenBlock "k" "t"]) hitems,
      hread] at hslice
    exact absurd (Except.ok.inj hslice) (by decide)

end Zulangue.Transcript
