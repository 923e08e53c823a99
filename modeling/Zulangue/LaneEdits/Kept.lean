import Zulangue.LaneEdits.Store

/-!
# A saved lane stays

Runs of the store with the rows that were handed to it in the session. In a run without stale rows
where the store does not arbitrate, each row shown is the newest one with the lanes of the barriers
in it, and a barrier goes with a row that carries its edit.
-/

namespace Zulangue.LaneEdits

open Zulangue.Lib.FirstMatch Zulangue.Lib.LastRows Zulangue.Lib.NewestRows Zulangue.LivePresentation

/-- `applied` are the rows of the session, in the order in which the store got them. -/
structure World where
  store : Store
  applied : List Row

abbrev World.barriers (w : World) : Barriers := w.store.committedLaneOverrideBarriers

inductive Event where
  | delta (rows : List Row)
  | snapshot (rows : List Row)
  | begin (isEditable : Bool) (appliedRevision : Nat) (utteranceId language : String)
  | complete (key : NotebookCaptureLaneMutationKey) (text : String) (answer : Option Row)
  | changeSession (sessionId : Option String)

def opened (sessionId : Option String) : World := ⟨⟨sessionId, [], [], []⟩, []⟩

section
variable (lowercased : String → String) (order : DictionaryOrder)

def World.ofSession (w : World) (rows : List Row) : List Row :=
  rows.filter fun row => some row.sessionId = w.store.sessionId

def World.step (w : World) : Event → World
  | .delta rows => ⟨w.store.merge lowercased order rows, w.applied ++ w.ofSession rows⟩
  | .snapshot rows => ⟨w.store.replaceUtterances lowercased order rows, w.applied ++ w.ofSession rows⟩
  | .begin isEditable appliedRevision utteranceId language =>
    match w.store.beginReplaceLane lowercased isEditable appliedRevision utteranceId language with
    | some (store, _) => ⟨store, w.applied⟩
    | none => w
  | .complete key _ answer =>
    if key ∈ w.store.laneMutationsInFlight then ⟨w.store.completeReplaceLane lowercased key answer, w.applied⟩ else w
  | .changeSession sessionId => ⟨w.store.changeSession sessionId, []⟩

def World.run (w : World) (events : List Event) : World := events.foldl (World.step lowercased order) w

def World.applyRow (w : World) (row : Row) : World :=
  ⟨w.store.mergeRow lowercased order row,
    if some row.sessionId = w.store.sessionId then w.applied ++ [row] else w.applied⟩

def World.cleared (w : World) : World := { w with store := { w.store with utterances := [] } }

def Shows (w : World) (utteranceId : String) : Prop := ∃ row ∈ w.store.utterances, row.id = utteranceId

/-- A row of the session that meets no gap of the arbitration. -/
structure SoundRow (w : World) (row : Row) : Prop where
  /-- An utterance keeps its sequence, and no other has it. -/
  sequence : ∀ shown ∈ w.store.utterances, shown.sequence = row.sequence ↔ shown.id = row.id
  /-- A row that is dropped as stale is not the newest, and no barrier goes with it. -/
  dropped : ∀ shown ∈ w.store.utterances, shown.id = row.id → row.revision < shown.revision →
    (∃ other ∈ w.applied, other.id = row.id ∧ row.revision ≤ other.revision) ∧
      ∀ entry ∈ w.barriers, entry.1.utteranceId = row.id →
        verdict lowercased row entry.1 entry.2 ≠ .retire
  /-- A row that comes in where none of its utterance is shown is not stale. -/
  inserted : ¬ Shows w row.id →
    (∀ other ∈ w.applied, other.id = row.id → other.revision ≤ row.revision) ∧
      ∀ entry ∈ w.barriers, entry.1.utteranceId = row.id →
        entry.2.machineRevision ≤ row.revision
  /-- A lane that is kept in the row is of the same kind there. -/
  laid : (∀ shown ∈ w.store.utterances, shown.id = row.id → shown.revision ≤ row.revision) →
    ∀ entry ∈ w.barriers, entry.1.utteranceId = row.id →
      verdict lowercased row entry.1 entry.2 = .protect →
        Laid lowercased row entry.2.committedUtterance entry.1.language

def SoundRows : World → List Row → Prop
  | _, [] => True
  | w, row :: rows =>
    (some row.sessionId = w.store.sessionId → SoundRow lowercased w row) ∧
      SoundRows (w.applyRow lowercased order row) rows

/-- The core answers with the edited row while its utterance is shown. -/
structure SoundAnswer (w : World) (key : NotebookCaptureLaneMutationKey) (text : String) (updated : Row) : Prop where
  id : updated.id = key.utteranceId
  sessionId : some updated.sessionId = w.store.sessionId
  language : languageKey lowercased key.language = key.language
  text : laneText lowercased updated key.language = some text
  laid : ∃ shown ∈ w.store.utterances, shown.id = key.utteranceId ∧ Laid lowercased shown updated key.language

def Sound (w : World) : Event → Prop
  | .delta rows => SoundRows lowercased order w rows
  | .snapshot rows => SoundRows lowercased order w.cleared rows
  | .complete key text (some updated) =>
    key ∈ w.store.laneMutationsInFlight → SoundAnswer lowercased w key text updated
  | _ => True

def SoundRun : World → List Event → Prop
  | _, [] => True
  | w, event :: events => Sound lowercased order w event ∧ SoundRun (w.step lowercased order event) events

end

/-- No row of its utterance that was applied has a greater revision. -/
def Newest (applied : List Row) (row : Row) : Prop :=
  row ∈ applied ∧ ∀ other ∈ applied, other.id = row.id → other.revision ≤ row.revision

/-- A row shown is the newest one but for the lanes of barriers, which read as they were saved. -/
structure Shown (lowercased : String → String) (w : World) (row best : Row) : Prop where
  newest : Newest w.applied best
  fields : SameFields row best
  revision : best.revision ≤ row.revision
  other : ∀ key, (∀ entry ∈ w.barriers, entry.1 ≠ ⟨row.id, key⟩) →
    laneIn lowercased row key = laneIn lowercased best key
  kept : ∀ entry ∈ w.barriers, entry.1.utteranceId = row.id →
    entry.2.committedUtterance.revision ≤ row.revision ∧
      (laneIn lowercased row entry.1.language).text =
        (laneIn lowercased entry.2.committedUtterance entry.1.language).text

structure Installed (lowercased : String → String) (sessionId : Option String)
    (entry : Entry) : Prop where
  revision : entry.2.machineRevision = entry.2.committedUtterance.revision
  id : entry.2.committedUtterance.id = entry.1.utteranceId
  sessionId : some entry.2.committedUtterance.sessionId = sessionId
  language : languageKey lowercased entry.1.language = entry.1.language

structure Inv (lowercased : String → String) (w : World) : Prop where
  ascending : Ascending NotebookCaptureUtteranceDTO.sequence w.store.utterances
  ids : ∀ row ∈ w.store.utterances, ∀ other ∈ w.store.utterances, row.id = other.id → row = other
  sessionId : ∀ row ∈ w.store.utterances, some row.sessionId = w.store.sessionId
  keys : (w.barriers.map Prod.fst).Nodup
  installed : ∀ entry ∈ w.barriers, Installed lowercased w.store.sessionId entry
  shown : ∀ row ∈ w.store.utterances, ∃ best, Shown lowercased w row best

section
variable {lowercased : String → String} {order : DictionaryOrder} {w : World} {row : Row}

/-- A session begins without rows and without barriers. -/
theorem inv_of_empty (hrows : w.store.utterances = []) (hbarriers : w.barriers = []) : Inv lowercased w := by
  refine ⟨?_, ?_, ?_, ?_, ?_, ?_⟩
  · rw [hrows]
    exact List.Pairwise.nil
  all_goals simp [hrows, hbarriers]

/-! ## The rows shown -/

section
variable {rows : List Row} {update x shown : Row}

theorem mem_upsert_of_dropped (hascending : Ascending NotebookCaptureUtteranceDTO.sequence rows)
    (hshown : shown ∈ rows) (hsequence : shown.sequence = update.sequence) (hold : update.revision < shown.revision) :
    x ∈ upsertOrderedUtterance rows update ↔ x ∈ rows := by
  rw [upsertOrderedUtterance, mem_upsert hascending]
  constructor
  · rintro (⟨hx, -⟩ | ⟨-, hnew⟩)
    · exact hx
    · exact absurd (hnew shown hshown hsequence) hold.not_ge
  · intro hx
    refine .inl ⟨hx, fun hkey => ?_⟩
    obtain rfl := hascending.inj hx hshown (hkey.trans hsequence.symm)
    exact hold

theorem mem_upsert_of_placed (hascending : Ascending NotebookCaptureUtteranceDTO.sequence rows)
    (hkey : ∀ row ∈ rows, row.sequence = update.sequence ↔ row.id = update.id)
    (hnew : ∀ shown ∈ rows, shown.id = update.id → shown.revision ≤ update.revision) :
    x ∈ upsertOrderedUtterance rows update ↔ (x ∈ rows ∧ x.id ≠ update.id) ∨ x = update := by
  rw [upsertOrderedUtterance, mem_upsert hascending]
  constructor
  · rintro (⟨hx, hold⟩ | ⟨rfl, -⟩)
    · refine .inl ⟨hx, fun hid => ?_⟩
      exact absurd (hnew x hx hid) (hold ((hkey x hx).mpr hid)).not_ge
    · exact .inr rfl
  · rintro (⟨hx, hid⟩ | rfl)
    · exact .inl ⟨hx, fun hsequence => absurd ((hkey x hx).mp hsequence) hid⟩
    · exact .inr ⟨rfl, fun y hy hsequence => hnew y hy ((hkey y hy).mp hsequence)⟩

theorem Newest.append (h : Newest rows x) (hrow : row.id = x.id → row.revision ≤ x.revision) :
    Newest (rows ++ [row]) x := by
  refine ⟨List.mem_append_left _ h.1, ?_⟩
  intro other hother hid
  rcases List.mem_append.mp hother with hother | hother
  · exact h.2 other hother hid
  · obtain rfl := List.mem_singleton.mp hother
    exact hrow hid

end

theorem Shown.keep {w' : World} {best : Row} (h : Shown lowercased w row best) (hnewest : Newest w'.applied best)
    (hbarriers : ∀ entry, entry.1.utteranceId = row.id →
      (entry ∈ w'.barriers ↔ entry ∈ w.barriers)) :
    Shown lowercased w' row best := by
  refine ⟨hnewest, h.fields, h.revision, ?_, ?_⟩
  · intro key hkey
    apply h.other key
    intro entry hentry hkeys
    exact hkey entry ((hbarriers entry (by rw [hkeys])).mpr hentry) hkeys
  · intro entry hentry hid
    exact h.kept entry ((hbarriers entry hid).mp hentry) hid

/-! ## One row -/

/-- The barriers after a row are among those before it. -/
theorem mem_barriers_applyRow (h : Inv lowercased w)
    {entry : Entry} :
    entry ∈ (w.applyRow lowercased order row).barriers ↔
      entry ∈ w.barriers ∧
        ¬ (entry.1.utteranceId = row.id ∧ verdict lowercased row entry.1 entry.2 = .retire) :=
  mem_protecting h.keys

theorem utterances_applyRow (lowercased : String → String) (order : DictionaryOrder) (w : World) (row : Row) :
    (w.applyRow lowercased order row).store.utterances =
      if some row.sessionId = w.store.sessionId then
        upsertOrderedUtterance w.store.utterances
          (protectingCommittedLaneOverrides lowercased order w.barriers row).2
      else w.store.utterances := by
  unfold World.applyRow Store.mergeRow
  dsimp only
  rw [(sameFields_protecting lowercased order _ row).sessionId]

theorem Inv.applyRow_of_other (h : Inv lowercased w)
    (hsession : some row.sessionId ≠ w.store.sessionId) : Inv lowercased (w.applyRow lowercased order row) := by
  have hbarriers : ∀ entry, entry ∈ (w.applyRow lowercased order row).barriers ↔
      entry ∈ w.barriers := by
    intro entry
    rw [mem_barriers_applyRow h, and_iff_left_iff_imp]
    rintro hentry ⟨-, hretire⟩
    have hsame := (of_verdict_retire hretire).1
    exact hsession (hsame ▸ (h.installed entry hentry).sessionId)
  have hutterances : (w.applyRow lowercased order row).store.utterances = w.store.utterances := by
    rw [utterances_applyRow, if_neg hsession]
  have happlied : (w.applyRow lowercased order row).applied = w.applied := if_neg hsession
  refine ⟨?_, ?_, ?_, keys_protecting h.keys row, ?_, ?_⟩
  · rw [hutterances]
    exact h.ascending
  · rw [hutterances]
    exact h.ids
  · rw [hutterances]
    exact h.sessionId
  · intro entry hentry
    exact h.installed entry ((hbarriers entry).mp hentry)
  · rw [hutterances]
    intro shown hshown
    obtain ⟨best, hbest⟩ := h.shown shown hshown
    exact ⟨best, hbest.keep (happlied ▸ hbest.newest) fun entry _ => hbarriers entry⟩

theorem Inv.revision_protecting (h : Inv lowercased w) (order : DictionaryOrder) (row : Row) :
    (protectingCommittedLaneOverrides lowercased order w.barriers row).2.revision =
      row.revision := by
  apply LaneEdits.revision_protecting
  intro entry hentry
  obtain ⟨hentry, -, hprotect⟩ := mem_protecting_iff.mp hentry
  rw [← (h.installed entry hentry).revision]
  exact (of_verdict_protect hprotect).2

/-- A row that the arbitration drops leaves the rows shown, and the barriers of its utterance. -/
theorem Inv.applyRow_of_dropped (h : Inv lowercased w) (hsession : some row.sessionId = w.store.sessionId)
    (hsound : SoundRow lowercased w row) {shown : Row} (hshown : shown ∈ w.store.utterances)
    (hid : shown.id = row.id) (hold : row.revision < shown.revision) :
    Inv lowercased (w.applyRow lowercased order row) := by
  obtain ⟨⟨newer, hnewer, hnewerId, hnewerRevision⟩, hkept⟩ := hsound.dropped shown hshown hid hold
  have hfields := sameFields_protecting lowercased order w.barriers row
  have hbarriers : ∀ entry, entry ∈ (w.applyRow lowercased order row).barriers ↔
      entry ∈ w.barriers := by
    intro entry
    rw [mem_barriers_applyRow h, and_iff_left_iff_imp]
    rintro hentry ⟨hentryId, hretire⟩
    exact hkept entry hentry hentryId hretire
  have hrevision := h.revision_protecting order row
  have hsequence := (hsound.sequence shown hshown).mpr hid
  have hutterances := utterances_applyRow lowercased order w row
  rw [if_pos hsession] at hutterances
  have hmem : ∀ x, x ∈ (w.applyRow lowercased order row).store.utterances ↔ x ∈ w.store.utterances := by
    intro x
    rw [hutterances]
    exact mem_upsert_of_dropped h.ascending hshown (hsequence.trans hfields.sequence.symm) (hrevision ▸ hold)
  have happlied : (w.applyRow lowercased order row).applied = w.applied ++ [row] := if_pos hsession
  refine ⟨?_, ?_, ?_, keys_protecting h.keys row, ?_, ?_⟩
  · rw [hutterances]
    exact ascending_upsert h.ascending _
  · intro x hx y hy
    exact h.ids x ((hmem x).mp hx) y ((hmem y).mp hy)
  · intro x hx
    exact h.sessionId x ((hmem x).mp hx)
  · intro entry hentry
    exact h.installed entry ((hbarriers entry).mp hentry)
  · intro x hx
    obtain ⟨best, hbest⟩ := h.shown x ((hmem x).mp hx)
    refine ⟨best, hbest.keep ?_ fun entry _ => hbarriers entry⟩
    rw [happlied]
    apply hbest.newest.append
    intro hrow
    exact hnewerRevision.trans (hbest.newest.2 newer hnewer (hnewerId.trans hrow))

/-- A row that is placed is shown with the lanes of the barriers that stay. -/
theorem Inv.applyRow_of_placed (h : Inv lowercased w) (hsession : some row.sessionId = w.store.sessionId)
    (hsound : SoundRow lowercased w row)
    (hnew : ∀ shown ∈ w.store.utterances, shown.id = row.id → shown.revision ≤ row.revision) :
    Inv lowercased (w.applyRow lowercased order row) := by
  have hfields := sameFields_protecting lowercased order w.barriers row
  have hrevision := h.revision_protecting order row
  have hmerged : LanesMerged lowercased (protecting lowercased row w.barriers) row
      (protectingCommittedLaneOverrides lowercased order w.barriers row).2 := by
    apply lanesMerged_protecting h.keys
    intro entry hentry
    obtain ⟨hentry, hid, hprotect⟩ := mem_protecting_iff.mp hentry
    have hinstalled := h.installed entry hentry
    exact ⟨(hinstalled.id.trans hid).symm, (of_verdict_protect hprotect).1.symm, hinstalled.language,
      hsound.laid hnew entry hentry hid hprotect⟩
  have hutterances := utterances_applyRow lowercased order w row
  rw [if_pos hsession] at hutterances
  have happlied : (w.applyRow lowercased order row).applied = w.applied ++ [row] := if_pos hsession
  -- What is shown of the utterance and what was applied of it is not newer, nor is a barrier.
  have hnewest : ∀ other ∈ w.applied, other.id = row.id → other.revision ≤ row.revision := by
    intro other hother hid
    by_cases hshows : Shows w row.id
    · obtain ⟨shown, hshown, hshownId⟩ := hshows
      obtain ⟨best, hbest⟩ := h.shown shown hshown
      have hother := hbest.newest.2 other hother (hid.trans (hshownId.symm.trans hbest.fields.id))
      exact (hother.trans hbest.revision).trans (hnew shown hshown hshownId)
    · exact (hsound.inserted hshows).1 other hother hid
  have hmachine : ∀ entry ∈ w.barriers, entry.1.utteranceId = row.id →
      entry.2.machineRevision ≤ row.revision := by
    intro entry hentry hid
    by_cases hshows : Shows w row.id
    · obtain ⟨shown, hshown, hshownId⟩ := hshows
      obtain ⟨best, hbest⟩ := h.shown shown hshown
      rw [(h.installed entry hentry).revision]
      exact (hbest.kept entry hentry (hid.trans hshownId.symm)).1.trans (hnew shown hshown hshownId)
    · exact (hsound.inserted hshows).2 entry hentry hid
  generalize (protectingCommittedLaneOverrides lowercased order w.barriers row).2 = update
    at hfields hrevision hmerged hutterances
  have hmem : ∀ x, x ∈ (w.applyRow lowercased order row).store.utterances ↔
      (x ∈ w.store.utterances ∧ x.id ≠ row.id) ∨ x = update := by
    intro x
    rw [hutterances, mem_upsert_of_placed h.ascending, hfields.id]
    · rw [hfields.sequence, hfields.id]
      exact hsound.sequence
    · intro shown hshown hid
      rw [hrevision]
      exact hnew shown hshown (hid.trans hfields.id)
  refine ⟨?_, ?_, ?_, keys_protecting h.keys row, ?_, ?_⟩
  · rw [hutterances]
    exact ascending_upsert h.ascending _
  · intro x hx y hy hid
    rcases (hmem x).mp hx with ⟨hx, hxId⟩ | rfl
    · rcases (hmem y).mp hy with ⟨hy, -⟩ | rfl
      · exact h.ids x hx y hy hid
      · exact absurd (hid.trans hfields.id) hxId
    · rcases (hmem y).mp hy with ⟨-, hyId⟩ | rfl
      · exact absurd (hid.symm.trans hfields.id) hyId
      · rfl
  · intro x hx
    rcases (hmem x).mp hx with ⟨hx, -⟩ | rfl
    · exact h.sessionId x hx
    · rw [hfields.sessionId]
      exact hsession
  · intro entry hentry
    exact h.installed entry ((mem_barriers_applyRow h).mp hentry).1
  · intro x hx
    rcases (hmem x).mp hx with ⟨hx, hid⟩ | rfl
    · obtain ⟨best, hbest⟩ := h.shown x hx
      refine ⟨best, hbest.keep ?_ ?_⟩
      · rw [happlied]
        apply hbest.newest.append
        intro hrow
        exact absurd (hbest.fields.id.trans hrow.symm) hid
      · intro entry hentryId
        rw [mem_barriers_applyRow h, and_iff_left_iff_imp]
        rintro - ⟨hrow, -⟩
        exact hid (hentryId.symm.trans hrow)
    · refine ⟨row, ?_, hfields, hrevision.ge, ?_, ?_⟩
      · rw [happlied]
        refine ⟨by simp, ?_⟩
        intro other hother hid
        rcases List.mem_append.mp hother with hother | hother
        · exact hnewest other hother hid
        · rw [List.mem_singleton.mp hother]
      · intro key hkey
        apply hmerged.other
        intro entry hentry hlanguage
        obtain ⟨hentry, hid, hprotect⟩ := mem_protecting_iff.mp hentry
        apply hkey entry
        · rw [mem_barriers_applyRow h]
          refine ⟨hentry, fun hretire => ?_⟩
          rw [hprotect] at hretire
          exact absurd hretire.2 (by decide)
        · rw [NotebookCaptureLaneMutationKey.mk.injEq]
          exact ⟨hid.trans hfields.id.symm, hlanguage⟩
      · intro entry hentry hid
        obtain ⟨hentry, hstays⟩ := (mem_barriers_applyRow h).mp hentry
        have hid := hid.trans hfields.id
        have hinstalled := h.installed entry hentry
        have hmachine := hmachine entry hentry hid
        have hprotect : verdict lowercased row entry.1 entry.2 = .protect := by
          cases hverdict : verdict lowercased row entry.1 entry.2 with
          | retire => exact absurd ⟨hid, hverdict⟩ hstays
          | protect => rfl
          | ignore =>
            rcases of_verdict_ignore hverdict with hother | hstale
            · exact absurd (Option.some.inj (hinstalled.sessionId.trans hsession.symm)) hother
            · exact absurd hmachine hstale.not_ge
        refine ⟨?_, hmerged.text entry (mem_protecting_iff.mpr ⟨hentry, hid, hprotect⟩)⟩
        rw [hrevision, ← hinstalled.revision]
        exact hmachine

theorem Inv.applyRow (h : Inv lowercased w) (hsound : some row.sessionId = w.store.sessionId → SoundRow lowercased w row) :
    Inv lowercased (w.applyRow lowercased order row) := by
  by_cases hsession : some row.sessionId = w.store.sessionId
  · by_cases hstale : ∃ shown ∈ w.store.utterances, shown.id = row.id ∧ row.revision < shown.revision
    · obtain ⟨shown, hshown, hid, hold⟩ := hstale
      exact h.applyRow_of_dropped hsession (hsound hsession) hshown hid hold
    · apply h.applyRow_of_placed hsession (hsound hsession)
      intro shown hshown hid
      apply not_lt.mp
      intro hold
      exact hstale ⟨shown, hshown, hid, hold⟩
  · exact h.applyRow_of_other hsession

theorem Inv.applyRows {rows : List Row} (h : Inv lowercased w)
    (hsound : SoundRows lowercased order w rows) : Inv lowercased (rows.foldl (World.applyRow lowercased order) w) := by
  induction rows generalizing w with
  | nil => exact h
  | cons row rows ih => exact ih (h.applyRow hsound.1) hsound.2

/-! ## Steps -/

theorem foldl_applyRow (w : World) (rows : List Row) :
    rows.foldl (World.applyRow lowercased order) w =
      ⟨rows.foldl (Store.mergeRow lowercased order) w.store, w.applied ++ w.ofSession rows⟩ := by
  induction rows generalizing w with
  | nil => simp [World.ofSession]
  | cons row rows ih =>
    rw [List.foldl_cons, ih, List.foldl_cons]
    unfold World.applyRow World.ofSession
    dsimp only
    by_cases hsession : some row.sessionId = w.store.sessionId
    · rw [if_pos hsession, List.filter_cons_of_pos (by simpa using hsession), List.append_assoc]
      rfl
    · rw [if_neg hsession, List.filter_cons_of_neg (by simpa using hsession)]
      rfl

theorem step_delta (w : World) (rows : List Row) :
    w.step lowercased order (.delta rows) = rows.foldl (World.applyRow lowercased order) w := by
  rw [foldl_applyRow, ← Store.merge_eq]
  rfl

theorem step_snapshot (w : World) (rows : List Row) :
    w.step lowercased order (.snapshot rows) = rows.foldl (World.applyRow lowercased order) w.cleared := by
  rw [foldl_applyRow, ← Store.merge_eq]
  unfold World.step
  dsimp only
  rw [Store.replaceUtterances_eq]
  rfl

theorem Inv.cleared (h : Inv lowercased w) : Inv lowercased w.cleared :=
  ⟨List.Pairwise.nil, by simp [World.cleared], by simp [World.cleared], h.keys, h.installed, by simp [World.cleared]⟩

section
variable {key : NotebookCaptureLaneMutationKey} {text : String} {updated : Row}

/-- The rows shown after an edit of `key` to `updated`. -/
def mergingEdit (lowercased : String → String) (key : NotebookCaptureLaneMutationKey) (updated row : Row) : Row :=
  if row.id = key.utteranceId then mergingLane lowercased row updated key.language else row

theorem sameFields_mergingEdit (lowercased : String → String) (key : NotebookCaptureLaneMutationKey) (updated row : Row) :
    SameFields (mergingEdit lowercased key updated row) row := by
  unfold mergingEdit
  split
  · exact mergingLane_fields _ _ _ _
  · exact SameFields.refl row

/-- An answer that comes while the utterance is shown is merged, and leaves a barrier. -/
theorem Inv.completeReplaceLane_eq (h : Inv lowercased w) (hsound : SoundAnswer lowercased w key text updated) :
    w.store.completeReplaceLane lowercased key (some updated) =
      { w.store with
        utterances := w.store.utterances.map (mergingEdit lowercased key updated)
        committedLaneOverrideBarriers := (key, ⟨updated.revision, updated⟩) ::
          w.barriers.filter fun entry => entry.1 ≠ key
        laneMutationsInFlight := w.store.laneMutationsInFlight.erase key } := by
  obtain ⟨shown, hshown, hid, -⟩ := hsound.laid
  have hsession : ∀ row ∈ w.store.utterances, row.sessionId = updated.sessionId := by
    intro row hrow
    exact Option.some.inj ((h.sessionId row hrow).trans hsound.sessionId.symm)
  have hfind : w.store.utterances.find? (·.id = key.utteranceId) = some shown := by
    cases hlatest : w.store.utterances.find? (·.id = key.utteranceId) with
    | none => exact absurd (decide_eq_true hid) (List.find?_eq_none.mp hlatest shown hshown)
    | some latest =>
      have hlatestId := List.find?_some hlatest
      rw [decide_eq_true_iff] at hlatestId
      rw [h.ids latest (List.mem_of_find?_eq_some hlatest) shown hshown (hlatestId.trans hid.symm)]
  have hupdate : updateFirst (·.id = key.utteranceId) (mergingCommittedLane lowercased · updated key.language)
      w.store.utterances = w.store.utterances.map (mergingEdit lowercased key updated) := by
    rw [updateFirst_eq_map]
    · apply List.map_congr_left
      intro row hrow
      unfold mergingEdit
      simp only [decide_eq_true_eq]
      split
      next hrowId => rw [mergingCommittedLane_eq (hrowId.trans hsound.id.symm) (hsession row hrow) hsound.language]
      · rfl
    · apply h.ascending.imp_of_mem
      intro x y hx hy hlt hxId
      rw [decide_eq_true_iff] at hxId
      rw [decide_eq_false_iff_not]
      intro hyId
      exact hlt.ne (congrArg _ (h.ids x hx y hy (hxId.trans hyId.symm)))
  unfold Store.completeReplaceLane
  dsimp only
  rw [hfind]
  dsimp only
  rw [if_pos ⟨hsession shown hshown, h.sessionId shown hshown⟩, hupdate]

theorem Inv.complete (h : Inv lowercased w) (hsound : SoundAnswer lowercased w key text updated) :
    Inv lowercased ⟨w.store.completeReplaceLane lowercased key (some updated), w.applied⟩ := by
  obtain ⟨shown, hshown, hid, hlaid⟩ := hsound.laid
  rw [h.completeReplaceLane_eq hsound]
  refine ⟨?_, ?_, ?_, ?_, ?_, ?_⟩
  · apply List.pairwise_map.mpr
    apply h.ascending.imp
    intro x y hlt
    rw [(sameFields_mergingEdit lowercased key updated x).sequence,
      (sameFields_mergingEdit lowercased key updated y).sequence]
    exact hlt
  · intro x hx y hy hxy
    obtain ⟨row, hrow, rfl⟩ := List.mem_map.mp hx
    obtain ⟨other, hother, rfl⟩ := List.mem_map.mp hy
    rw [(sameFields_mergingEdit lowercased key updated row).id,
      (sameFields_mergingEdit lowercased key updated other).id] at hxy
    rw [h.ids row hrow other hother hxy]
  · intro x hx
    obtain ⟨row, hrow, rfl⟩ := List.mem_map.mp hx
    rw [(sameFields_mergingEdit lowercased key updated row).sessionId]
    exact h.sessionId row hrow
  · apply List.nodup_cons.mpr
    constructor
    · simp
    · exact h.keys.sublist (List.filter_sublist.map _)
  · intro entry hentry
    rcases List.mem_cons.mp hentry with rfl | hentry
    · exact ⟨rfl, hsound.id, hsound.sessionId, hsound.language⟩
    · exact h.installed entry (List.mem_filter.mp hentry).1
  · intro x hx
    obtain ⟨row, hrow, rfl⟩ := List.mem_map.mp hx
    obtain ⟨best, hbest⟩ := h.shown row hrow
    refine ⟨best, ?_⟩
    by_cases hrowId : row.id = key.utteranceId
    · obtain rfl := h.ids row hrow shown hshown (hrowId.trans hid.symm)
      have hfields := sameFields_mergingEdit lowercased key updated row
      have hrevision := revision_mergingLane lowercased row updated key.language
      rw [mergingEdit, if_pos hrowId] at hfields ⊢
      refine ⟨hbest.newest, hfields.trans hbest.fields, ?_, ?_, ?_⟩
      · rw [hrevision]
        exact hbest.revision.trans (le_max_left _ _)
      · intro language hlanguage
        have hne : language ≠ key.language := by
          rintro rfl
          apply hlanguage _ List.mem_cons_self
          rw [NotebookCaptureLaneMutationKey.mk.injEq]
          exact ⟨(hfields.id.trans hrowId).symm, rfl⟩
        rw [laneIn_mergingLane_of_ne hlaid hne]
        apply hbest.other
        intro entry hentry hkey
        apply hlanguage entry
        · apply List.mem_cons_of_mem
          rw [List.mem_filter, decide_eq_true_iff]
          refine ⟨hentry, fun hsame => hne ?_⟩
          exact congrArg NotebookCaptureLaneMutationKey.language (hkey.symm.trans hsame)
        · rw [hkey, hfields.id]
      · intro entry hentry hentryId
        rw [hrevision]
        rcases List.mem_cons.mp hentry with rfl | hentry
        · exact ⟨le_max_right _ _, text_laneIn_mergingLane hlaid⟩
        · obtain ⟨hentry, hother⟩ := List.mem_filter.mp hentry
          rw [hfields.id] at hentryId
          obtain ⟨hle, htext⟩ := hbest.kept entry hentry hentryId
          have hne : entry.1.language ≠ key.language := by
            intro hlanguage
            apply of_decide_eq_true hother
            rw [NotebookCaptureLaneMutationKey.mk.injEq]
            exact ⟨hentryId.trans hrowId, hlanguage⟩
          rw [laneIn_mergingLane_of_ne hlaid hne]
          exact ⟨hle.trans (le_max_left _ _), htext⟩
    · rw [mergingEdit, if_neg hrowId]
      refine hbest.keep hbest.newest fun entry hentryId => ?_
      have hne : entry.1 ≠ key := by
        intro hkey
        exact hrowId (hentryId.symm.trans (congrArg NotebookCaptureLaneMutationKey.utteranceId hkey))
      rw [List.mem_cons, List.mem_filter, decide_eq_true_iff]
      constructor
      · rintro (rfl | ⟨hentry, -⟩)
        · exact absurd rfl hne
        · exact hentry
      · intro hentry
        exact .inr ⟨hentry, hne⟩

end

/-- The edits in flight do not matter to what is shown. -/
theorem Inv.withFlights (h : Inv lowercased w) (keys : List NotebookCaptureLaneMutationKey) :
    Inv lowercased ⟨{ w.store with laneMutationsInFlight := keys }, w.applied⟩ := by
  refine ⟨h.ascending, h.ids, h.sessionId, h.keys, h.installed, ?_⟩
  intro row hrow
  obtain ⟨best, hbest⟩ := h.shown row hrow
  exact ⟨best, hbest.keep hbest.newest fun entry _ => Iff.rfl⟩

theorem of_beginReplaceLane {store store' : Store} {isEditable : Bool} {appliedRevision expectedRevision : Nat}
    {utteranceId language : String}
    (h : store.beginReplaceLane lowercased isEditable appliedRevision utteranceId language =
      some (store', expectedRevision)) :
    store' = { store with
      laneMutationsInFlight := mutationKey lowercased utteranceId language :: store.laneMutationsInFlight } := by
  unfold Store.beginReplaceLane at h
  grind

theorem Inv.step {event : Event} (h : Inv lowercased w)
    (hsound : Sound lowercased order w event) : Inv lowercased (w.step lowercased order event) := by
  cases event with
  | delta rows =>
    rw [step_delta]
    exact h.applyRows hsound
  | snapshot rows =>
    rw [step_snapshot]
    exact h.cleared.applyRows hsound
  | begin isEditable appliedRevision utteranceId language =>
    rw [World.step]
    cases hbegin : w.store.beginReplaceLane lowercased isEditable appliedRevision utteranceId language with
    | none => exact h
    | some begun =>
      obtain ⟨store, expectedRevision⟩ := begun
      obtain rfl := of_beginReplaceLane hbegin
      exact h.withFlights _
  | complete key text answer =>
    rw [World.step]
    split
    next hflight =>
      cases answer with
      | none => exact h.withFlights _
      | some updated => exact h.complete (hsound hflight)
    · exact h
  | changeSession sessionId =>
    exact inv_of_empty rfl rfl

theorem Inv.run {events : List Event} (h : Inv lowercased w)
    (hsound : SoundRun lowercased order w events) : Inv lowercased (w.run lowercased order events) := by
  induction events generalizing w with
  | nil => exact h
  | cons event events ih => exact ih (h.step hsound.1) hsound.2

/-! ## The barrier of an edit -/

/-- A row that has the edit of the lane, or a later one. -/
def Carries (lowercased : String → String) (key : NotebookCaptureLaneMutationKey) (updated row : Row) : Prop :=
  row.id = key.utteranceId ∧
    laneEditRevision lowercased updated key.language ≤ laneEditRevision lowercased row key.language

/-- The session changes, or the lane is edited again. -/
def Event.Ends (key : NotebookCaptureLaneMutationKey) : Event → Prop
  | .complete other _ (some _) => other = key
  | .changeSession _ => True
  | _ => False

section
variable {key : NotebookCaptureLaneMutationKey} {barrier : NotebookCaptureCommittedLaneOverrideBarrier}

/-- The barrier is there, unless a row applied since carries its edit. -/
def Guarded (lowercased : String → String) (applied : List Row) (key : NotebookCaptureLaneMutationKey)
    (barrier : NotebookCaptureCommittedLaneOverrideBarrier) (w : World) : Prop :=
  ∃ new, w.applied = applied ++ new ∧
    ((∀ row ∈ new, ¬ Carries lowercased key barrier.committedUtterance row) →
      (key, barrier) ∈ w.barriers)

theorem Guarded.applyRow {applied : List Row}
    (h : Inv lowercased w) (hguarded : Guarded lowercased applied key barrier w) :
    Guarded lowercased applied key barrier (w.applyRow lowercased order row) := by
  obtain ⟨new, happlied, hbarrier⟩ := hguarded
  by_cases hsession : some row.sessionId = w.store.sessionId
  · refine ⟨new ++ [row], ?_, ?_⟩
    · unfold World.applyRow
      rw [if_pos hsession, happlied, List.append_assoc]
    · intro hnone
      rw [mem_barriers_applyRow h]
      refine ⟨hbarrier fun other hother => hnone other (List.mem_append_left _ hother), ?_⟩
      rintro ⟨hid, hretire⟩
      exact hnone row (by simp) ⟨hid.symm, (of_verdict_retire hretire).2⟩
  · refine ⟨new, ?_, ?_⟩
    · unfold World.applyRow
      rw [if_neg hsession, happlied]
    · intro hnone
      have hentry := hbarrier hnone
      rw [mem_barriers_applyRow h]
      refine ⟨hentry, ?_⟩
      rintro ⟨-, hretire⟩
      have hsame := (of_verdict_retire hretire).1
      exact hsession (hsame ▸ (h.installed _ hentry).sessionId)

theorem Guarded.applyRows {applied rows : List Row}
    (h : Inv lowercased w) (hsound : SoundRows lowercased order w rows)
    (hguarded : Guarded lowercased applied key barrier w) :
    Guarded lowercased applied key barrier (rows.foldl (World.applyRow lowercased order) w) := by
  induction rows generalizing w with
  | nil => exact hguarded
  | cons row rows ih => exact ih (h.applyRow hsound.1) hsound.2 (hguarded.applyRow h)

theorem Guarded.step {applied : List Row} {event : Event}
    (h : Inv lowercased w) (hsound : Sound lowercased order w event) (hends : ¬ event.Ends key)
    (hguarded : Guarded lowercased applied key barrier w) :
    Guarded lowercased applied key barrier (w.step lowercased order event) := by
  cases event with
  | delta rows =>
    rw [step_delta]
    exact hguarded.applyRows h hsound
  | snapshot rows =>
    rw [step_snapshot]
    exact Guarded.applyRows h.cleared hsound hguarded
  | begin isEditable appliedRevision utteranceId language =>
    rw [World.step]
    cases hbegin : w.store.beginReplaceLane lowercased isEditable appliedRevision utteranceId language with
    | none => exact hguarded
    | some begun =>
      obtain ⟨store, expectedRevision⟩ := begun
      obtain rfl := of_beginReplaceLane hbegin
      exact hguarded
  | complete other text answer =>
    rw [World.step]
    split
    next hflight =>
      cases answer with
      | none => exact hguarded
      | some updated =>
        obtain ⟨new, happlied, hbarrier⟩ := hguarded
        refine ⟨new, happlied, fun hnone => ?_⟩
        rw [h.completeReplaceLane_eq (hsound hflight)]
        apply List.mem_cons_of_mem
        rw [List.mem_filter, decide_eq_true_iff]
        exact ⟨hbarrier hnone, fun hkey => hends hkey.symm⟩
    · exact hguarded
  | changeSession sessionId => exact absurd trivial hends

theorem Guarded.run {applied : List Row} {events : List Event}
    (h : Inv lowercased w) (hsound : SoundRun lowercased order w events) (hends : ∀ event ∈ events, ¬ event.Ends key)
    (hguarded : Guarded lowercased applied key barrier w) :
    Guarded lowercased applied key barrier (w.run lowercased order events) := by
  induction events generalizing w with
  | nil => exact hguarded
  | cons event events ih =>
    obtain ⟨hevent, hends⟩ := List.forall_mem_cons.mp hends
    exact ih (h.step hsound.1) hsound.2 hends (hguarded.step h hsound.1 hevent)

end

theorem soundRun_append {before after : List Event} :
    SoundRun lowercased order w (before ++ after) ↔
      SoundRun lowercased order w before ∧ SoundRun lowercased order (w.run lowercased order before) after := by
  induction before generalizing w with
  | nil => simp [SoundRun, World.run]
  | cons event before ih => simp [SoundRun, World.run, ih, and_assoc]

/-- The lane reads as it was saved, with its barrier, unless a row of the session that was applied since carries the
edit. -/
def LaneKept (lowercased : String → String) (saved w : World) (key : NotebookCaptureLaneMutationKey) (text : String)
    (updated : Row) : Prop :=
  ∃ new, w.applied = saved.applied ++ new ∧
    ((∀ row ∈ new, ¬ Carries lowercased key updated row) →
      (key, ⟨updated.revision, updated⟩) ∈ w.barriers ∧
        ∀ row ∈ w.store.utterances, row.id = key.utteranceId → laneText lowercased row key.language = some text)

theorem laneText_of_barrier {key : NotebookCaptureLaneMutationKey} {text : String} {updated : Row}
    (h : Inv lowercased w) (hbarrier : (key, ⟨updated.revision, updated⟩) ∈ w.barriers)
    (htext : laneText lowercased updated key.language = some text) :
    ∀ row ∈ w.store.utterances, row.id = key.utteranceId → laneText lowercased row key.language = some text := by
  intro row hrow hid
  obtain ⟨best, hbest⟩ := h.shown row hrow
  have hlanguage : languageKey lowercased key.language = key.language := (h.installed _ hbarrier).language
  have hlane := (hbest.kept _ hbarrier hid.symm).2
  rw [laneText_eq, hlanguage] at htext ⊢
  exact hlane.trans htext

theorem LaneKept.run {key : NotebookCaptureLaneMutationKey}
    {text : String} {updated : Row} {after : List Event} (h : Inv lowercased w)
    (hflight : key ∈ w.store.laneMutationsInFlight) (hanswer : SoundAnswer lowercased w key text updated)
    (hafter : SoundRun lowercased order (w.step lowercased order (.complete key text (some updated))) after)
    (hends : ∀ event ∈ after, ¬ event.Ends key) :
    LaneKept lowercased (w.step lowercased order (.complete key text (some updated)))
      ((w.step lowercased order (.complete key text (some updated))).run lowercased order after) key text updated := by
  have hsaved : Inv lowercased (w.step lowercased order (.complete key text (some updated))) :=
    h.step fun _ => hanswer
  have hguarded : Guarded lowercased (w.step lowercased order (.complete key text (some updated))).applied key
      ⟨updated.revision, updated⟩ (w.step lowercased order (.complete key text (some updated))) := by
    refine ⟨[], (List.append_nil _).symm, fun _ => ?_⟩
    rw [World.step, if_pos hflight, h.completeReplaceLane_eq hanswer]
    exact List.mem_cons_self
  obtain ⟨new, happlied, hbarrier⟩ := hguarded.run hsaved hafter hends
  refine ⟨new, happlied, fun hnone => ⟨hbarrier hnone, ?_⟩⟩
  exact laneText_of_barrier (hsaved.run hafter) (hbarrier hnone) hanswer.text

/-- In a sound run every row shown is the newest but for the lanes of barriers, and a saved lane stays with its
barrier until a row of the session carries its edit. -/
theorem saved_lanes_stay {sessionId : Option String}
    {events : List Event} (hrun : SoundRun lowercased order (opened sessionId) events) :
    (∀ row ∈ ((opened sessionId).run lowercased order events).store.utterances,
      ∃ best, Shown lowercased ((opened sessionId).run lowercased order events) row best) ∧
    ∀ before after key text updated, events = before ++ .complete key text (some updated) :: after →
      key ∈ ((opened sessionId).run lowercased order before).store.laneMutationsInFlight →
      (∀ event ∈ after, ¬ event.Ends key) →
      LaneKept lowercased ((opened sessionId).run lowercased order (before ++ [.complete key text (some updated)]))
        ((opened sessionId).run lowercased order events) key text updated := by
  refine ⟨((inv_of_empty rfl rfl).run hrun).shown, ?_⟩
  rintro before after key text updated rfl hflight hends
  obtain ⟨hbefore, hanswer, hafter⟩ := soundRun_append.mp hrun
  have hinv := (inv_of_empty rfl rfl).run hbefore
  have hkept := LaneKept.run hinv hflight (hanswer hflight) hafter hends
  have hsaved : (opened sessionId).run lowercased order (before ++ [.complete key text (some updated)]) =
      ((opened sessionId).run lowercased order before).step lowercased order (.complete key text (some updated)) :=
    List.foldl_append
  have hend : (opened sessionId).run lowercased order (before ++ .complete key text (some updated) :: after) =
      (((opened sessionId).run lowercased order before).step lowercased order (.complete key text (some updated))).run
        lowercased order after := List.foldl_append
  rw [hsaved, hend]
  exact hkept

/-! ## One utterance -/

/-- The order in which the entries came. -/
def DictionaryOrder.stored : DictionaryOrder := ⟨id, fun barriers => .refl barriers⟩

/-- The source lane of an utterance at a machine revision and an edit revision. -/
def sourceRow (revision editRevision : Nat) (text : String) : Row where
  id := "u"
  sessionId := "s"
  sequence := 1
  sessionSpeakerId := none
  revision := revision
  sourceLanguage := "en"
  provisionalSourceLanguage := none
  sourceText := text
  sourceStartMs := none
  sourceEndMs := none
  translatedLanguage := none
  translatedText := none
  completion := "complete"
  alignment := "complete"
  languageVariants := []
  sourceProjectionRevision := 1
  sourceEditRevision := editRevision

def editing : List Event := [.snapshot [sourceRow 5 0 "old"], .begin true 1 "u" "en"]

def saving : Event := .complete ⟨"u", "en"⟩ "new" (some (sourceRow 5 1 "new"))

theorem laid_sourceRow (revision editRevision revision' editRevision' : Nat) (text text' : String) :
    Laid id (sourceRow revision editRevision text) (sourceRow revision' editRevision' text') "en" := by
  have hkey : decide (languageKey id "en" = "en") = true := by decide +kernel
  have hlane : ∀ revision editRevision text, isSourceLane id (sourceRow revision editRevision text) "en" = true := by
    intro revision editRevision text
    rw [isSourceLane, Bool.and_eq_true]
    exact ⟨rfl, hkey⟩
  apply Laid.source (hlane _ _ _) (hlane _ _ _)
  intro variant hvariant
  cases hvariant

/-- The store with the edit in flight, and with the edit saved. -/
def edited : World := (opened (some "s")).run id .stored editing

def saved : World := (opened (some "s")).run id .stored (editing ++ [saving])

theorem soundRow_first : SoundRow id (opened (some "s")).cleared (sourceRow 5 0 "old") :=
  ⟨by simp [opened, World.cleared], by simp [opened, World.cleared], by simp [opened, World.cleared, World.barriers],
    by simp [opened, World.cleared, World.barriers]⟩

theorem soundAnswer_saving : SoundAnswer id edited ⟨"u", "en"⟩ "new" (sourceRow 5 1 "new") where
  id := rfl
  sessionId := by decide +kernel
  language := by decide +kernel
  text := by decide +kernel
  laid := ⟨sourceRow 5 0 "old", by decide +kernel, rfl, laid_sourceRow _ _ _ _ _ _⟩

theorem soundRow_newer : SoundRow id saved (sourceRow 6 0 "old") := by
  have hutterances : saved.store.utterances = [sourceRow 5 1 "new"] := by decide +kernel
  have hbarriers : saved.barriers = [(⟨"u", "en"⟩, ⟨5, sourceRow 5 1 "new"⟩)] := by
    decide +kernel
  refine ⟨?_, ?_, ?_, ?_⟩
  · rw [hutterances]
    simp [sourceRow]
  · rw [hutterances]
    simp [sourceRow]
  · intro hshows
    refine absurd ⟨sourceRow 5 1 "new", ?_, rfl⟩ hshows
    simp [hutterances]
  · rw [hbarriers]
    intro _ entry hentry _ _
    rw [List.mem_singleton.mp hentry]
    exact laid_sourceRow _ _ _ _ _ _

/-- A row of a newer machine revision that was read before the edit comes after it. -/
theorem saved_lanes_stay_newer :
    LaneKept id saved ((opened (some "s")).run id .stored (editing ++ saving :: [.delta [sourceRow 6 0 "old"]]))
      ⟨"u", "en"⟩ "new" (sourceRow 5 1 "new") := by
  have hrun : SoundRun id .stored (opened (some "s")) (editing ++ saving :: [.delta [sourceRow 6 0 "old"]]) :=
    ⟨⟨fun _ => soundRow_first, trivial⟩, trivial, fun _ => soundAnswer_saving, ⟨fun _ => soundRow_newer, trivial⟩,
      trivial⟩
  exact (saved_lanes_stay hrun).2 editing _ _ _ _ rfl (by decide +kernel)
    (by simp [Event.Ends])

/-- A full snapshot whose row is of an older machine revision takes the saved text back, though the row does not
carry the edit. -/
theorem stale_snapshot_reverts :
    ⟨"u", "en"⟩ ∈ edited.store.laneMutationsInFlight ∧
      ¬ LaneKept id saved ((opened (some "s")).run id .stored (editing ++ saving :: [.snapshot [sourceRow 4 0 "old"]]))
        ⟨"u", "en"⟩ "new" (sourceRow 5 1 "new") := by
  refine ⟨by decide +kernel, ?_⟩
  rintro ⟨new, happlied, hkept⟩
  have hnew : new = [sourceRow 4 0 "old"] := by
    have hstale : ((opened (some "s")).run id .stored (editing ++ saving :: [.snapshot [sourceRow 4 0 "old"]])).applied =
        saved.applied ++ [sourceRow 4 0 "old"] := by decide +kernel
    exact List.append_cancel_left (happlied.symm.trans hstale)
  subst hnew
  have hnone : ∀ row ∈ [sourceRow 4 0 "old"], ¬ Carries id ⟨"u", "en"⟩ (sourceRow 5 1 "new") row := by
    unfold Carries
    decide +kernel
  have hshown := (hkept hnone).2 (sourceRow 4 0 "old") (by decide +kernel) rfl
  exact absurd hshown (by decide +kernel)

end

end Zulangue.LaneEdits
