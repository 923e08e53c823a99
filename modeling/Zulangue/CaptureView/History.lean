import Zulangue.CaptureView.View

/-!
# The history of the store

What the core's revisions change, what deltas and snapshots carry of it, and when a view shows it.
-/

namespace Zulangue.CaptureView

open Zulangue.Lib

/-- What each revision changes: rows by sequence, cues by id. Rows are added and changed; their
revisions and the edit revisions of their lanes do not decrease. -/
structure History where
  rows : Nat → Nat → Option Utterance
  cues : Nat → String → Option Cue

def History.rowAt (h : History) : Nat → Nat → Option Utterance
  | 0, _ => none
  | r + 1, sequence => (h.rows (r + 1) sequence).or (h.rowAt r sequence)

def Cue.present (cue : Cue) : Option Cue := if cue.withdrawn then none else some cue

def History.cueAt (h : History) : Nat → String → Option Cue
  | 0, _ => none
  | r + 1, id =>
    match h.cues (r + 1) id with
    | some cue => cue.present
    | none => h.cueAt r id

/-- The newer row of a sequence. -/
structure Follows (older newer : Utterance) : Prop where
  id : newer.id = older.id
  revision : older.revision ≤ newer.revision
  edits : ∀ language, (older.lanes language).editRevision ≤ (newer.lanes language).editRevision

structure History.Ok (h : History) : Prop where
  sequence : ∀ {r sequence row}, h.rows r sequence = some row → row.sequence = sequence
  ids : ∀ {r r' sequence sequence' row row'}, h.rows r sequence = some row → h.rows r' sequence' = some row' →
    row.id = row'.id → sequence = sequence'
  follows : ∀ {r sequence row row'}, h.rowAt r sequence = some row → h.rows (r + 1) sequence = some row' → Follows row row'
  cueIds : ∀ {r id cue}, h.cues r id = some cue → cue.id = id
  cueRevisions : ∀ {r id cue cue'}, h.cueAt r id = some cue → h.cues (r + 1) id = some cue' → cue.revision ≤ cue'.revision

/-- The delta of a revision carries what it changed. -/
structure IsDelta (h : History) (event : Event) : Prop where
  isFullSnapshot : event.isFullSnapshot = false
  eventRevision : 0 < event.eventRevision
  utterances : ∀ row, row ∈ event.utterances ↔ h.rows event.eventRevision row.sequence = some row
  sequences : (event.utterances.map Utterance.sequence).Nodup
  translationCues : ∀ cue, cue ∈ event.translationCues ↔ h.cues event.eventRevision cue.id = some cue
  ids : (event.translationCues.map Cue.id).Nodup

/-- A snapshot carries the store, at the revision it is stamped with or a later one. -/
structure IsSnapshot (h : History) (read : Nat) (event : Event) : Prop where
  isFullSnapshot : event.isFullSnapshot = true
  eventRevision : event.eventRevision ≤ read
  utterances : ∀ row, row ∈ event.utterances ↔ h.rowAt read row.sequence = some row
  sequences : (event.utterances.map Utterance.sequence).Nodup
  translationCues : ∀ cue, cue ∈ event.translationCues ↔ h.cueAt read cue.id = some cue
  ids : (event.translationCues.map Cue.id).Nodup

/-! ## What is shown -/

/-- The row shown is a row of the store, but for the lanes that a barrier holds. -/
structure Matches (barriers : Barriers) (shown row : Utterance) : Prop where
  id : shown.id = row.id
  revision : shown.revision = row.revision
  free : ∀ language, barriers shown.id language = none → shown.lanes language = row.lanes language
  held : ∀ language committed, barriers shown.id language = some committed → row.revision ≤ committed.revision ∨
    (row.lanes language).editRevision < (committed.lanes language).editRevision ∨ shown.lanes language = row.lanes language

/-- What is shown of a sequence is in the store at the revision or later. -/
def RowShown (h : History) (rows : Rows) (revision sequence : Nat) : Prop :=
  ∃ r, revision ≤ r ∧
    (KeyMap.get sequence rows.utterances = none ∧ h.rowAt r sequence = none ∨
      ∃ shown row, KeyMap.get sequence rows.utterances = some shown ∧ h.rowAt r sequence = some row ∧
        Matches rows.barriers shown row)

def CueShown (h : History) (cues : Cues) (revision : Nat) (id : String) : Prop :=
  ∃ r, revision ≤ r ∧ cues id = h.cueAt r id

section
variable {h : History}

theorem Follows.refl (row : Utterance) : Follows row row := ⟨rfl, Nat.le_refl _, fun _ => Nat.le_refl _⟩

theorem Follows.trans {a b c : Utterance} (hab : Follows a b) (hbc : Follows b c) : Follows a c :=
  ⟨hbc.id.trans hab.id, Nat.le_trans hab.revision hbc.revision,
    fun language => Nat.le_trans (hab.edits language) (hbc.edits language)⟩

theorem rowAt_succ_of_none {r sequence : Nat} (hnone : h.rows (r + 1) sequence = none) :
    h.rowAt (r + 1) sequence = h.rowAt r sequence := by
  rw [History.rowAt, hnone, Option.none_or]

theorem rowAt_succ_of_some {r sequence : Nat} {row : Utterance} (hrow : h.rows (r + 1) sequence = some row) :
    h.rowAt (r + 1) sequence = some row := by
  rw [History.rowAt, hrow, Option.some_or]

theorem cueAt_succ_of_none {r : Nat} {id : String} (hnone : h.cues (r + 1) id = none) :
    h.cueAt (r + 1) id = h.cueAt r id := by
  rw [History.cueAt, hnone]

theorem cueAt_succ_of_some {r : Nat} {id : String} {cue : Cue} (hcue : h.cues (r + 1) id = some cue) :
    h.cueAt (r + 1) id = cue.present := by
  rw [History.cueAt, hcue]

/-- A row of the store comes from a revision that changed it. -/
theorem exists_rows_of_rowAt {r sequence : Nat} {row : Utterance} (hrow : h.rowAt r sequence = some row) :
    ∃ r', h.rows r' sequence = some row := by
  induction r with
  | zero => cases hrow
  | succ r ih =>
    cases hrows : h.rows (r + 1) sequence with
    | none =>
      rw [rowAt_succ_of_none hrows] at hrow
      exact ih hrow
    | some newer =>
      rw [rowAt_succ_of_some hrows] at hrow
      exact ⟨r + 1, hrows.trans hrow⟩

theorem History.Ok.rowAt_follows (ok : h.Ok) {r r' sequence : Nat} {row : Utterance} (hle : r ≤ r')
    (hrow : h.rowAt r sequence = some row) : ∃ row', h.rowAt r' sequence = some row' ∧ Follows row row' := by
  induction hle with
  | refl => exact ⟨row, hrow, .refl row⟩
  | @step r' _ ih =>
    obtain ⟨older, holder, hfollows⟩ := ih
    cases hrows : h.rows (r' + 1) sequence with
    | none => exact ⟨older, (rowAt_succ_of_none hrows).trans holder, hfollows⟩
    | some newer => exact ⟨newer, rowAt_succ_of_some hrows, hfollows.trans (ok.follows holder hrows)⟩

theorem RowShown.mono {rows : Rows} {revision revision' sequence : Nat} (hle : revision' ≤ revision)
    (hshown : RowShown h rows revision sequence) : RowShown h rows revision' sequence := by
  obtain ⟨r, hr, hrest⟩ := hshown
  exact ⟨r, Nat.le_trans hle hr, hrest⟩

theorem CueShown.mono {cues : Cues} {revision revision' : Nat} {id : String} (hle : revision' ≤ revision)
    (hshown : CueShown h cues revision id) : CueShown h cues revision' id := by
  obtain ⟨r, hr, hrest⟩ := hshown
  exact ⟨r, Nat.le_trans hle hr, hrest⟩

end

/-! ## Barriers -/

section
variable {barriers : Barriers} {update shown row committed : Utterance} {language : String}

theorem after_eq_some {id : String} (h : barriers.after update id language = some committed) :
    barriers id language = some committed ∧ (id = update.id → verdict committed update language ≠ .retire) := by
  rw [Barriers.after] at h
  split at h
  next kept heq =>
    split at h
    · cases h
    next hnot =>
      obtain rfl := Option.some.inj h
      exact ⟨heq, fun hid hretire => hnot ⟨hid, hretire⟩⟩
  · cases h

theorem after_eq_none {id : String} (h : barriers.after update id language = none) :
    barriers id language = none ∨
      ∃ committed, barriers id language = some committed ∧ id = update.id ∧ verdict committed update language = .retire := by
  rw [Barriers.after] at h
  split at h
  next kept heq =>
    split at h
    next hretire => exact .inr ⟨kept, heq, hretire⟩
    · cases h
  next heq => exact .inl heq

theorem retire_spec (h : verdict committed update language = .retire) :
    committed.revision ≤ update.revision ∧ (committed.lanes language).editRevision ≤ (update.lanes language).editRevision := by
  rw [verdict] at h
  split at h
  next hlt =>
    split at h
    next hedit => exact ⟨Nat.le_of_lt hlt, hedit⟩
    · cases h
  · split at h
    next heq =>
      split at h
      next hsame => exact ⟨Nat.le_of_eq heq.symm, hsame.2⟩
      · cases h
    · cases h

theorem not_retire_spec (h : verdict committed update language ≠ .retire) :
    update.revision ≤ committed.revision ∨ (update.lanes language).editRevision < (committed.lanes language).editRevision := by
  by_cases hlt : committed.revision < update.revision
  · right
    by_contra hle
    exact h (by rw [verdict, if_pos hlt, if_pos (Nat.le_of_not_lt hle)])
  · exact .inl (Nat.le_of_not_lt hlt)

/-- An update that is installed is shown. -/
theorem protected_matches (barriers : Barriers) (update : Utterance) :
    Matches (barriers.after update) (protectingCommittedLaneOverrides barriers update) update := by
  refine ⟨rfl, rfl, ?_, ?_⟩
  · intro language hfree
    change barriers.after update update.id language = none at hfree
    rw [protectingCommittedLaneOverrides]
    obtain hnone | ⟨committed, hsome, -, hretire⟩ := after_eq_none hfree
    · dsimp only
      rw [hnone]
    · dsimp only
      rw [hsome]
      dsimp only
      rw [hretire]
      rfl
  · intro language committed hheld
    exact (not_retire_spec ((after_eq_some hheld).2 rfl)).imp_right .inl

/-- An older update that is not installed retires no lane that is not shown. -/
theorem Matches.rejects (h : Matches barriers shown row) (hfollows : Follows update row)
    (hrevision : update.revision < row.revision) : Matches (barriers.after update) shown row := by
  refine ⟨h.id, h.revision, ?_, ?_⟩
  · intro language hfree
    obtain hnone | ⟨committed, hsome, -, hretire⟩ := after_eq_none hfree
    · exact h.free language hnone
    · obtain ⟨hmachine, hedit⟩ := retire_spec hretire
      have hnewer := hfollows.edits language
      obtain hle | hlt | hsame := h.held language committed hsome
      · omega
      · omega
      · exact hsame
  · intro language committed hheld
    exact h.held language committed (after_eq_some hheld).1

/-- An update of another row. -/
theorem Matches.other (h : Matches barriers shown row) (hid : shown.id ≠ update.id) :
    Matches (barriers.after update) shown row := by
  refine ⟨h.id, h.revision, ?_, ?_⟩
  · intro language hfree
    obtain hnone | ⟨committed, -, hsame, -⟩ := after_eq_none hfree
    · exact h.free language hnone
    · exact absurd hsame hid
  · intro language committed hheld
    exact h.held language committed (after_eq_some hheld).1

end

/-! ## Updates -/

section
variable {h : History} {rows : Rows}

theorem get_upsert_of_ne {update : Utterance} {sequence : Nat} (hne : sequence ≠ update.sequence) :
    KeyMap.get sequence (rows.upsert update).utterances = KeyMap.get sequence rows.utterances := by
  have hinsert : ∀ row : Utterance, KeyMap.get sequence (KeyMap.insert update.sequence row rows.utterances) =
      KeyMap.get sequence rows.utterances := fun row => KeyMap.get_insert_of_ne hne row _
  rw [Rows.upsert, upsertOrderedUtterance]
  split
  · split
    · exact hinsert _
    · rfl
  · exact hinsert _

theorem get_upsert_of_none {update : Utterance} (hnone : KeyMap.get update.sequence rows.utterances = none) :
    KeyMap.get update.sequence (rows.upsert update).utterances =
      some (protectingCommittedLaneOverrides rows.barriers update) := by
  have hsequence : (protectingCommittedLaneOverrides rows.barriers update).sequence = update.sequence := rfl
  rw [Rows.upsert, upsertOrderedUtterance, hsequence, hnone]
  dsimp only
  rw [KeyMap.get_insert, if_pos rfl]

theorem get_upsert_of_some {update shown : Utterance} (hget : KeyMap.get update.sequence rows.utterances = some shown) :
    KeyMap.get update.sequence (rows.upsert update).utterances =
      if shown.revision ≤ update.revision then some (protectingCommittedLaneOverrides rows.barriers update)
      else some shown := by
  have hsequence : (protectingCommittedLaneOverrides rows.barriers update).sequence = update.sequence := rfl
  rw [Rows.upsert, upsertOrderedUtterance, hsequence, hget]
  change KeyMap.get _ (if shown.revision ≤ update.revision then _ else _) = _
  split
  · rw [KeyMap.get_insert, if_pos rfl]
  · exact hget

/-- Another row stays shown. -/
theorem RowShown.upsert_other (ok : h.Ok) {revision r sequence : Nat} {update : Utterance}
    (hupdate : h.rows r update.sequence = some update) (hne : sequence ≠ update.sequence)
    (hshown : RowShown h rows revision sequence) : RowShown h (rows.upsert update) revision sequence := by
  obtain ⟨r', hr', ⟨hnone, hrow⟩ | ⟨shown, row, hget, hrow, hmatches⟩⟩ := hshown
  · exact ⟨r', hr', .inl ⟨(get_upsert_of_ne hne).trans hnone, hrow⟩⟩
  · refine ⟨r', hr', .inr ⟨shown, row, (get_upsert_of_ne hne).trans hget, hrow, hmatches.other fun hid => ?_⟩⟩
    obtain ⟨r'', hrow'⟩ := exists_rows_of_rowAt hrow
    exact hne (ok.ids hrow' hupdate (hmatches.id.symm.trans hid))

/-- What is shown moves on with the update of its revision. -/
theorem RowShown.upsert (ok : h.Ok) {revision : Nat} {update : Utterance}
    (hupdate : h.rows (revision + 1) update.sequence = some update) (hshown : RowShown h rows revision update.sequence) :
    RowShown h (rows.upsert update) (revision + 1) update.sequence := by
  have hstored := rowAt_succ_of_some hupdate
  obtain ⟨r, hr, ⟨hnone, -⟩ | ⟨shown, row, hget, hrow, hmatches⟩⟩ := hshown
  · exact ⟨revision + 1, Nat.le_refl _,
      .inr ⟨_, update, get_upsert_of_none hnone, hstored, protected_matches rows.barriers update⟩⟩
  · have hshown := get_upsert_of_some hget
    split at hshown
    · exact ⟨revision + 1, Nat.le_refl _, .inr ⟨_, update, hshown, hstored, protected_matches rows.barriers update⟩⟩
    next hnewer =>
      -- The row shown is newer, so it is of this revision at least.
      have hrevision := hmatches.revision
      have hlater : revision + 1 ≤ r := by
        by_contra hlt
        obtain rfl : r = revision := by omega
        have hfollows := (ok.follows hrow hupdate).revision
        omega
      obtain ⟨row', hrow', hfollows⟩ := ok.rowAt_follows hlater hstored
      obtain rfl : row = row' := Option.some.inj (hrow.symm.trans hrow')
      exact ⟨r, hlater, .inr ⟨shown, row, hshown, hrow, hmatches.rejects hfollows (by omega)⟩⟩

/-- The updates of a revision, in any order. -/
theorem RowShown.merge (ok : h.Ok) {revision : Nat} {updates : List Utterance}
    (hupdates : ∀ row ∈ updates, h.rows (revision + 1) row.sequence = some row)
    (hnodup : (updates.map Utterance.sequence).Nodup) {sequence : Nat} (hshown : RowShown h rows revision sequence) :
    RowShown h (rows.merge updates) (if sequence ∈ updates.map Utterance.sequence then revision + 1 else revision) sequence := by
  -- The row is updated once, and stays shown before and after.
  have hkeeps : ∀ (updates : List Utterance) {rows : Rows} {r : Nat},
      (∀ row ∈ updates, h.rows (revision + 1) row.sequence = some row) → sequence ∉ updates.map Utterance.sequence →
      RowShown h rows r sequence → RowShown h (rows.merge updates) r sequence := by
    intro updates
    induction updates with
    | nil => exact fun _ _ hshown => hshown
    | cons update updates ih =>
      intro rows r hupdates hnot hshown
      rw [List.forall_mem_cons] at hupdates
      rw [List.map_cons, List.mem_cons, not_or] at hnot
      exact ih hupdates.2 hnot.2 (hshown.upsert_other ok hupdates.1 hnot.1)
  induction updates generalizing rows with
  | nil => exact hshown
  | cons update updates ih =>
    rw [List.forall_mem_cons] at hupdates
    obtain ⟨hnot, hrest⟩ := List.nodup_cons.mp hnodup
    by_cases heq : sequence = update.sequence
    · subst heq
      have hmem : update.sequence ∈ (update :: updates).map Utterance.sequence := List.mem_cons_self
      rw [if_pos hmem]
      exact hkeeps updates hupdates.2 hnot (hshown.upsert ok hupdates.1)
    · have hother := ih hupdates.2 hrest (hshown.upsert_other ok hupdates.1 heq)
      have hmem : sequence ∈ (update :: updates).map Utterance.sequence ↔ sequence ∈ updates.map Utterance.sequence := by
        rw [List.map_cons, List.mem_cons]
        exact or_iff_right heq
      rw [if_congr hmem rfl rfl]
      exact hother

/-- The delta that follows moves every row on. -/
theorem RowShown.delta (ok : h.Ok) {event : Event} (hdelta : IsDelta h event) {revision : Nat}
    (hfollows : event.eventRevision = revision + 1) {sequence : Nat} (hshown : RowShown h rows revision sequence) :
    RowShown h (rows.merge event.utterances) event.eventRevision sequence := by
  have hupdates : ∀ row ∈ event.utterances, h.rows (revision + 1) row.sequence = some row := by
    intro row hrow
    rw [← hfollows]
    exact (hdelta.utterances row).mp hrow
  rw [hfollows]
  have hmerged := hshown.merge ok hupdates hdelta.sequences
  split at hmerged
  · exact hmerged
  next hnot =>
    obtain ⟨r, hr, hrest⟩ := hmerged
    obtain rfl | hlater := Nat.eq_or_lt_of_le hr
    · refine ⟨revision + 1, Nat.le_refl _, ?_⟩
      have hnone : h.rows (revision + 1) sequence = none := by
        cases hrow : h.rows (revision + 1) sequence with
        | none => rfl
        | some row =>
          refine absurd (List.mem_map.mpr ⟨row, (hdelta.utterances row).mpr ?_, ok.sequence hrow⟩) hnot
          rw [ok.sequence hrow, hfollows]
          exact hrow
      rw [rowAt_succ_of_none hnone]
      exact hrest
    · exact ⟨r, hlater, hrest⟩

/-- A snapshot shows the store it was read from. -/
theorem RowShown.snapshot (ok : h.Ok) {event : Event} {read : Nat} (hsnapshot : IsSnapshot h read event) (rows : Rows)
    (sequence : Nat) : RowShown h (rows.rebuiltUtteranceSnapshot event.utterances) read sequence := by
  -- Rows not yet reached are not there, and those reached are shown.
  have hbuild : ∀ (updates : List Utterance) (rows : Rows), (∀ row ∈ updates, h.rowAt read row.sequence = some row) →
      (updates.map Utterance.sequence).Nodup → (∀ row ∈ updates, KeyMap.get row.sequence rows.utterances = none) →
      ∀ sequence, (sequence ∈ updates.map Utterance.sequence → RowShown h (rows.merge updates) read sequence) ∧
        (sequence ∉ updates.map Utterance.sequence →
          KeyMap.get sequence (rows.merge updates).utterances = KeyMap.get sequence rows.utterances ∧
          (RowShown h rows read sequence → RowShown h (rows.merge updates) read sequence)) := by
    intro updates
    induction updates with
    | nil => exact fun _ _ _ _ sequence => ⟨fun hmem => (by cases hmem), fun _ => ⟨rfl, id⟩⟩
    | cons update updates ih =>
      intro rows hstored hnodup hnone sequence
      rw [List.forall_mem_cons] at hstored hnone
      obtain ⟨hnot, hrest⟩ := List.nodup_cons.mp hnodup
      have hshown : RowShown h (rows.upsert update) read update.sequence :=
        ⟨read, Nat.le_refl _, .inr ⟨_, update, get_upsert_of_none hnone.1, hstored.1, protected_matches rows.barriers update⟩⟩
      have hnext : ∀ row ∈ updates, KeyMap.get row.sequence (rows.upsert update).utterances = none := by
        intro row hrow
        have hne : row.sequence ≠ update.sequence := fun heq => hnot (List.mem_map.mpr ⟨row, hrow, heq⟩)
        rw [get_upsert_of_ne hne]
        exact hnone.2 row hrow
      obtain ⟨hin, hout⟩ := ih _ hstored.2 hrest hnext sequence
      constructor
      · intro hmem
        obtain rfl | hmem := List.mem_cons.mp hmem
        · exact (hout hnot).2 hshown
        · exact hin hmem
      · intro hmem
        obtain ⟨hne, hmem⟩ := not_or.mp (mt List.mem_cons.mpr hmem)
        obtain ⟨hget, hkeep⟩ := hout hmem
        obtain ⟨r, hrows⟩ := exists_rows_of_rowAt hstored.1
        exact ⟨hget.trans (get_upsert_of_ne hne), fun hshown => hkeep (hshown.upsert_other ok hrows hne)⟩
  have hstored : ∀ row ∈ event.utterances, h.rowAt read row.sequence = some row :=
    fun row hrow => (hsnapshot.utterances row).mp hrow
  obtain ⟨hin, hout⟩ := hbuild event.utterances { rows with utterances := [] } hstored hsnapshot.sequences
    (fun _ _ => rfl) sequence
  by_cases hmem : sequence ∈ event.utterances.map Utterance.sequence
  · exact hin hmem
  · refine ⟨read, Nat.le_refl _, .inl ⟨(hout hmem).1, ?_⟩⟩
    cases hrow : h.rowAt read sequence with
    | none => rfl
    | some row =>
      obtain ⟨r, hrows⟩ := exists_rows_of_rowAt hrow
      have hsequence := ok.sequence hrows
      refine absurd (List.mem_map.mpr ⟨row, (hsnapshot.utterances row).mpr ?_, hsequence⟩) hmem
      rw [hsequence]
      exact hrow

end

/-! ## Cues -/

section
variable {h : History} {cues : Cues}

theorem upsert_of_ne {cue : Cue} {id : String} (hne : id ≠ cue.id) : cues.upsert cue id = cues id := by
  have hset : ∀ value : Option Cue, cues.set cue.id value id = cues id := fun _ => if_neg hne
  rw [Cues.upsert]
  split
  · exact hset none
  · cases cues cue.id with
    | none => exact hset (some cue)
    | some existing =>
      dsimp only
      split
      · rfl
      · exact hset (some cue)

/-- What is shown moves on with the cue of its revision. -/
theorem CueShown.upsert (ok : h.Ok) {revision : Nat} {cue : Cue} (hcue : h.cues (revision + 1) cue.id = some cue)
    (hshown : CueShown h cues revision cue.id) : CueShown h (cues.upsert cue) (revision + 1) cue.id := by
  have hstored := cueAt_succ_of_some hcue
  have hset : ∀ value : Option Cue, cues.set cue.id value cue.id = value := fun _ => if_pos rfl
  rw [Cue.present] at hstored
  obtain ⟨r, hr, heq⟩ := hshown
  by_cases hwithdrawn : cue.withdrawn = true
  · refine ⟨revision + 1, Nat.le_refl _, ?_⟩
    rw [Cues.upsert, if_pos hwithdrawn, hstored, if_pos hwithdrawn, hset]
  · rw [if_neg hwithdrawn] at hstored
    rw [Cues.upsert, if_neg hwithdrawn]
    cases hexisting : cues cue.id with
    | none =>
      dsimp only
      exact ⟨revision + 1, Nat.le_refl _, (hset _).trans hstored.symm⟩
    | some existing =>
      dsimp only
      split
      next hlt =>
        -- The cue shown is newer, so it is of this revision at least.
        refine ⟨r, ?_, heq⟩
        by_contra hnot
        obtain rfl : r = revision := by omega
        have hle := ok.cueRevisions (heq.symm.trans hexisting) hcue
        omega
      · exact ⟨revision + 1, Nat.le_refl _, (hset _).trans hstored.symm⟩

theorem merge_of_not_mem {updates : List Cue} {id : String} (hnot : id ∉ updates.map Cue.id) :
    cues.merge updates id = cues id := by
  induction updates generalizing cues with
  | nil => rfl
  | cons cue updates ih =>
    rw [List.map_cons, List.mem_cons, not_or] at hnot
    exact (ih hnot.2).trans (upsert_of_ne hnot.1)

/-- The delta that follows moves every cue on. -/
theorem CueShown.delta (ok : h.Ok) {event : Event} (hdelta : IsDelta h event) {revision : Nat}
    (hfollows : event.eventRevision = revision + 1) {id : String} (hshown : CueShown h cues revision id) :
    CueShown h (reconcileTranslationCues cues event) event.eventRevision id := by
  have hmerge : ∀ (updates : List Cue) {cues : Cues}, (∀ cue ∈ updates, h.cues (revision + 1) cue.id = some cue) →
      (updates.map Cue.id).Nodup → id ∈ updates.map Cue.id → CueShown h cues revision id →
      CueShown h (cues.merge updates) (revision + 1) id := by
    intro updates
    induction updates with
    | nil => exact fun _ _ hmem => (by cases hmem)
    | cons cue updates ih =>
      intro cues hcues hnodup hmem hshown
      rw [List.forall_mem_cons] at hcues
      obtain ⟨hnot, hrest⟩ := List.nodup_cons.mp hnodup
      obtain rfl | hmem := List.mem_cons.mp hmem
      · obtain ⟨r, hr, heq⟩ := hshown.upsert ok hcues.1
        exact ⟨r, hr, (merge_of_not_mem hnot).trans heq⟩
      · have hne : id ≠ cue.id := fun heq => hnot (heq ▸ hmem)
        obtain ⟨r, hr, heq⟩ := hshown
        exact ih hcues.2 hrest hmem ⟨r, hr, (upsert_of_ne hne).trans heq⟩
  have hcues : ∀ cue ∈ event.translationCues, h.cues (revision + 1) cue.id = some cue := by
    intro cue hcue
    rw [← hfollows]
    exact (hdelta.translationCues cue).mp hcue
  have hdiff : reconcileTranslationCues cues event = cues.merge event.translationCues := by
    rw [reconcileTranslationCues, hdelta.isFullSnapshot]
    rfl
  rw [hdiff, hfollows]
  by_cases hmem : id ∈ event.translationCues.map Cue.id
  · exact hmerge event.translationCues hcues hdelta.ids hmem hshown
  · obtain ⟨r, hr, heq⟩ := hshown
    obtain rfl | hlater := Nat.eq_or_lt_of_le hr
    · refine ⟨revision + 1, Nat.le_refl _, ?_⟩
      have hnone : h.cues (revision + 1) id = none := by
        cases hcue : h.cues (revision + 1) id with
        | none => rfl
        | some cue =>
          refine absurd (List.mem_map.mpr ⟨cue, (hdelta.translationCues cue).mpr ?_, ok.cueIds hcue⟩) hmem
          rw [ok.cueIds hcue, hfollows]
          exact hcue
      rw [cueAt_succ_of_none hnone, merge_of_not_mem hmem]
      exact heq
    · exact ⟨r, hlater, (merge_of_not_mem hmem).trans heq⟩

theorem present_of_cueAt {r : Nat} {id : String} {cue : Cue} (hcue : h.cueAt r id = some cue) : cue.withdrawn = false := by
  induction r with
  | zero => cases hcue
  | succ r ih =>
    cases hchange : h.cues (r + 1) id with
    | none =>
      rw [cueAt_succ_of_none hchange] at hcue
      exact ih hcue
    | some newer =>
      rw [cueAt_succ_of_some hchange, Cue.present] at hcue
      split at hcue
      · cases hcue
      next hpresent =>
        obtain rfl := Option.some.inj hcue
        exact Bool.eq_false_iff.mpr hpresent

theorem id_of_cueAt (ok : h.Ok) {r : Nat} {id : String} {cue : Cue} (hcue : h.cueAt r id = some cue) : cue.id = id := by
  induction r with
  | zero => cases hcue
  | succ r ih =>
    cases hchange : h.cues (r + 1) id with
    | none =>
      rw [cueAt_succ_of_none hchange] at hcue
      exact ih hcue
    | some newer =>
      rw [cueAt_succ_of_some hchange, Cue.present] at hcue
      split at hcue
      · cases hcue
      · obtain rfl := Option.some.inj hcue
        exact ok.cueIds hchange

/-- A snapshot shows the cues of the store it was read from. -/
theorem CueShown.snapshot (ok : h.Ok) {event : Event} {read : Nat} (hsnapshot : IsSnapshot h read event) (cues : Cues)
    (id : String) : CueShown h (reconcileTranslationCues cues event) read id := by
  refine ⟨read, Nat.le_refl _, ?_⟩
  have hpresent : event.translationCues.filter (!·.withdrawn) = event.translationCues := by
    refine List.filter_eq_self.mpr fun cue hcue => ?_
    rw [present_of_cueAt ((hsnapshot.translationCues cue).mp hcue)]
    rfl
  have hfull : reconcileTranslationCues cues event = Cues.none.merge event.translationCues := by
    rw [reconcileTranslationCues, hsnapshot.isFullSnapshot, if_pos rfl, Cues.rebuilt, hpresent]
  have hmerge : ∀ (updates : List Cue) {cues : Cues}, (∀ cue ∈ updates, cue.withdrawn = false) →
      (updates.map Cue.id).Nodup → (∀ cue ∈ updates, cues cue.id = none) → ∀ cue ∈ updates,
      cues.merge updates cue.id = some cue := by
    intro updates
    induction updates with
    | nil => exact fun _ _ _ cue hcue => (by cases hcue)
    | cons first updates ih =>
      intro cues hkept hnodup hnone cue hcue
      rw [List.forall_mem_cons] at hkept hnone
      obtain ⟨hnot, hrest⟩ := List.nodup_cons.mp hnodup
      obtain rfl | hcue := List.mem_cons.mp hcue
      · refine (merge_of_not_mem hnot).trans ?_
        rw [Cues.upsert, if_neg (by rw [hkept.1]; decide), hnone.1]
        exact if_pos rfl
      · refine ih hkept.2 hrest (fun other hother => ?_) cue hcue
        have hne : other.id ≠ first.id := fun heq => hnot (List.mem_map.mpr ⟨other, hother, heq⟩)
        exact (upsert_of_ne hne).trans (hnone.2 other hother)
  rw [hfull]
  by_cases hmem : id ∈ event.translationCues.map Cue.id
  · obtain ⟨cue, hcue, rfl⟩ := List.mem_map.mp hmem
    rw [hmerge event.translationCues (fun cue hcue => present_of_cueAt ((hsnapshot.translationCues cue).mp hcue))
      hsnapshot.ids (fun _ _ => rfl) cue hcue]
    exact ((hsnapshot.translationCues cue).mp hcue).symm
  · rw [merge_of_not_mem hmem]
    cases hcue : h.cueAt read id with
    | none => rfl
    | some cue =>
      have hid := id_of_cueAt ok hcue
      refine absurd (List.mem_map.mpr ⟨cue, (hsnapshot.translationCues cue).mpr ?_, hid⟩) hmem
      rw [hid]
      exact hcue

end

end Zulangue.CaptureView
