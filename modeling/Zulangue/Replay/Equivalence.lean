import Zulangue.Replay.Migration

/-!
# Every recorded step shows the text of the legacy document

The blocks follow the lines through each step, so the check of the texts never fails; the
migration refuses the histories that are not linear and no others.
-/

namespace Zulangue.Replay

open Zulangue.Lib.Fallible

/-! ## Blocks and lines -/

/-- A block shows a line, and the registry knows its text container. -/
structure BlockShows (contents : Nat → String) (writer : BlockWriter) (block : BlockMap) (line : Line) : Prop where
  id : block.id = line.id
  registered : writer line.id = some block.text
  text : contents block.text = line.text
  lanes : block.lanes = []

theorem BlockShows.registry {contents : Nat → String} {writer writer' : BlockWriter} {block : BlockMap} {line : Line}
    (h : BlockShows contents writer block line) (hwriter : writer' line.id = writer line.id) :
    BlockShows contents writer' block line :=
  ⟨h.id, hwriter.trans h.registered, h.text, h.lanes⟩

theorem shows_registry {contents : Nat → String} {writer writer' : BlockWriter} {blocks : List BlockMap}
    {lines : List Line} (h : List.Forall₂ (BlockShows contents writer) blocks lines)
    (hwriter : ∀ line ∈ lines, writer' line.id = writer line.id) :
    List.Forall₂ (BlockShows contents writer') blocks lines := by
  induction h with
  | nil => exact .nil
  | cons hblock _ ih =>
    rw [List.forall_mem_cons] at hwriter
    exact .cons (hblock.registry hwriter.1) (ih hwriter.2)

theorem shows_contents {contents contents' : Nat → String} {writer : BlockWriter} {blocks : List BlockMap}
    {lines : List Line} (h : List.Forall₂ (BlockShows contents writer) blocks lines)
    (hcontents : ∀ block ∈ blocks, contents' block.text = contents block.text) :
    List.Forall₂ (BlockShows contents' writer) blocks lines := by
  induction h with
  | nil => exact .nil
  | cons hblock _ ih =>
    rw [List.forall_mem_cons] at hcontents
    exact .cons ⟨hblock.id, hblock.registered, hcontents.1.trans hblock.text, hblock.lanes⟩ (ih hcontents.2)

/-- The text containers of the blocks are distinct and there. -/
structure ContainersOk (doc : BlockDocument) : Prop where
  distinct : (doc.utterances.map (·.text)).Nodup
  bounded : ∀ block ∈ doc.utterances, block.text < doc.containers

/-! ## Deleting -/

theorem deleteGone_shows (nextIds : List String) {previous : List Line} {doc : BlockDocument} {writer : BlockWriter}
    {blocks behind : List BlockMap} (hblocks : doc.utterances = blocks ++ behind)
    (hshows : List.Forall₂ (BlockShows doc.contents writer) blocks previous)
    (hdistinct : (previous.map (·.id)).Nodup) :
    ∃ left writer', deleteGone nextIds previous.zipIdx.reverse doc writer =
        .ok ({ doc with utterances := left ++ behind }, writer') ∧ left.Sublist blocks ∧
      List.Forall₂ (BlockShows doc.contents writer') left (previous.filter (·.id ∈ nextIds)) ∧
      ∀ id, id ∉ previous.map (·.id) → writer' id = writer id := by
  induction previous using List.reverseRecOn generalizing doc writer blocks behind with
  | nil =>
    cases hshows
    refine ⟨[], writer, ?_, .slnil, .nil, fun _ _ => rfl⟩
    rw [List.nil_append] at hblocks
    rw [List.nil_append, ← hblocks]
    rfl
  | append_singleton init x ih =>
    have hinit := List.forall₂_take_append blocks init [x] hshows
    have hx := List.forall₂_drop_append blocks init [x] hshows
    rw [← List.take_append_drop init.length blocks] at hblocks ⊢
    generalize blocks.take init.length = initBlocks at hinit hblocks ⊢
    generalize blocks.drop init.length = xBlocks at hx hblocks ⊢
    obtain ⟨block, hblock, rfl⟩ : ∃ block, BlockShows doc.contents writer block x ∧ xBlocks = [block] := by
      cases hx with
      | cons hblock hnil =>
        cases hnil
        exact ⟨_, hblock, rfl⟩
    have hlength : initBlocks.length = init.length := hinit.length_eq
    rw [List.map_append, List.nodup_append] at hdistinct
    obtain ⟨hinitDistinct, -, hcross⟩ := hdistinct
    have hfresh : x.id ∉ init.map (·.id) := fun hmem => hcross x.id hmem x.id (List.mem_singleton.mpr rfl) rfl
    have hzip : (init ++ [x]).zipIdx.reverse = (x, init.length) :: init.zipIdx.reverse := by
      rw [List.zipIdx_append, List.reverse_append, Nat.zero_add]
      rfl
    rw [hzip, deleteGone]
    by_cases hkept : x.id ∈ nextIds
    · rw [if_pos hkept, List.filter_append, List.filter_cons_of_pos (by simpa using hkept), List.filter_nil]
      obtain ⟨left, writer', hrun, hsub, hleft, hwriter⟩ := @ih doc writer initBlocks (block :: behind)
        (by rw [hblocks, List.append_assoc]; rfl) hinit hinitDistinct
      refine ⟨left ++ [block], writer', ?_, hsub.append (List.Sublist.refl _), ?_, ?_⟩
      · rw [hrun, List.append_assoc]
        rfl
      · exact List.rel_append hleft (.cons (hblock.registry (hwriter x.id hfresh)) .nil)
      · intro id hid
        rw [List.map_append, List.mem_append, not_or] at hid
        exact hwriter id hid.1
    · rw [if_neg hkept, List.filter_append, List.filter_cons_of_neg (by simpa using hkept), List.filter_nil,
        List.append_nil]
      have hdelete : doc.delete init.length = .ok { doc with utterances := initBlocks ++ behind } := by
        have hat : init.length < doc.utterances.length := by
          rw [hblocks, List.length_append, List.length_append, hlength]
          exact Nat.lt_of_lt_of_le (Nat.lt_succ_self _) (Nat.le_add_right _ _)
        rw [BlockDocument.delete, if_pos hat, hblocks, ← hlength, List.append_assoc, List.eraseIdx_append_of_length_le (Nat.le_refl _),
          Nat.sub_self]
        rfl
      have hne : ∀ line ∈ init, Function.update writer x.id none line.id = writer line.id := by
        intro line hline
        refine Function.update_of_ne (β := fun _ => Option Nat) ?_ none writer
        exact fun heq => hfresh (heq ▸ List.mem_map_of_mem hline)
      obtain ⟨left, writer', hrun, hsub, hleft, hwriter⟩ :=
        @ih { doc with utterances := initBlocks ++ behind } (Function.update writer x.id none) initBlocks behind rfl
          (shows_registry hinit hne) hinitDistinct
      refine ⟨left, writer', ?_, hsub.trans (List.sublist_append_left _ _), hleft, ?_⟩
      · rw [hdelete]
        exact hrun
      · intro id hid
        rw [List.map_append, List.mem_append, not_or] at hid
        have hid' : id ≠ x.id := fun heq => hid.2 (List.mem_singleton.mpr heq)
        exact (hwriter id hid.1).trans (Function.update_of_ne (β := fun _ => Option Nat) hid' none writer)

/-! ## Writing -/

theorem writeNext_shows (previousIds : List String) {rest : List Line} {doc : BlockDocument} {writer : BlockWriter}
    {written pending : List BlockMap} {writtenLines pendingLines : List Line}
    (hblocks : doc.utterances = written ++ pending)
    (hwritten : List.Forall₂ (BlockShows doc.contents writer) written writtenLines)
    (hpending : List.Forall₂ (BlockShows doc.contents writer) pending pendingLines)
    (hids : pendingLines.map (·.id) = (rest.filter (·.id ∈ previousIds)).map (·.id))
    (hdistinct : ((writtenLines ++ rest).map (·.id)).Nodup) (hcontainers : ContainersOk doc) :
    ∃ doc' writer', writeNext previousIds (rest.zipIdx written.length) doc writer = .ok (doc', writer') ∧
      List.Forall₂ (BlockShows doc'.contents writer') doc'.utterances (writtenLines ++ rest) ∧ ContainersOk doc' := by
  induction rest generalizing doc writer written pending writtenLines pendingLines with
  | nil =>
    rw [List.filter_nil, List.map_nil, List.map_eq_nil_iff] at hids
    subst hids
    cases hpending
    rw [List.append_nil] at hblocks ⊢
    exact ⟨doc, writer, rfl, hblocks ▸ hwritten, hcontainers⟩
  | cons line rest ih =>
    have hline : line.id ∉ writtenLines.map (·.id) ∧ line.id ∉ rest.map (·.id) := by
      rw [List.map_append, List.map_cons, List.nodup_append, List.nodup_cons] at hdistinct
      exact ⟨fun hmem => hdistinct.2.2 line.id hmem line.id List.mem_cons_self rfl, hdistinct.2.1.1⟩
    have happend : writtenLines ++ line :: rest = (writtenLines ++ [line]) ++ rest := by
      rw [List.append_assoc]
      rfl
    rw [List.zipIdx_cons, writeNext]
    rw [happend] at hdistinct ⊢
    by_cases hkept : line.id ∈ previousIds
    · rw [List.filter_cons_of_pos (by simpa using hkept), List.map_cons] at hids
      obtain ⟨old, oldLines, rfl, hid, hids⟩ := List.map_eq_cons_iff.mp hids
      cases hpending with
      | @cons block _ blocks _ hblock hpending =>
        have hregistered : writer line.id = some block.text := hid ▸ hblock.registered
        rw [if_pos hkept, hregistered]
        -- Either way the container holds the new line and the others are as they were.
        let contents := Function.update doc.contents block.text line.text
        have hupdate : (if doc.contents block.text ≠ line.text then doc.updateText block.text line.text else doc) =
            { doc with contents } := by
          split
          · rfl
          · next hsame =>
            have hsame : doc.contents block.text = line.text := not_not.mp hsame
            have hcontents : contents = doc.contents := by
              dsimp only [contents]
              rw [← hsame]
              exact Function.update_eq_self (β := fun _ => String) block.text doc.contents
            rw [hcontents]
        have hdistinctTexts := hcontainers.distinct
        rw [hblocks, List.map_append, List.map_cons, List.nodup_append, List.nodup_cons] at hdistinctTexts
        have hothers : ∀ other, other ∈ written ∨ other ∈ blocks → contents other.text = doc.contents other.text := by
          intro other hother
          refine Function.update_of_ne (β := fun _ => String) (fun heq => ?_) line.text doc.contents
          cases hother with
          | inl hother =>
            exact hdistinctTexts.2.2 other.text (List.mem_map_of_mem hother) block.text List.mem_cons_self heq
          | inr hother => exact hdistinctTexts.2.1.1 (heq ▸ List.mem_map_of_mem hother)
        have hshown : BlockShows contents writer block line :=
          ⟨hblock.id.trans hid, hregistered, Function.update_self (β := fun _ => String) _ _ _, hblock.lanes⟩
        obtain ⟨doc', writer', hrun, hshows, hcontainers'⟩ :=
          @ih { doc with contents } writer (written ++ [block]) blocks (writtenLines ++ [line]) oldLines
            (by rw [List.append_assoc]; exact hblocks)
            (List.rel_append (shows_contents hwritten fun b hb => hothers b (.inl hb)) (.cons hshown .nil))
            (shows_contents hpending fun b hb => hothers b (.inr hb)) hids hdistinct
            ⟨hcontainers.distinct, hcontainers.bounded⟩
        refine ⟨doc', writer', ?_, hshows, hcontainers'⟩
        rw [List.length_append] at hrun
        change writeNext previousIds (rest.zipIdx (written.length + 1))
          (if doc.contents block.text ≠ line.text then doc.updateText block.text line.text else doc) writer = _
        rw [hupdate]
        exact hrun
    · rw [List.filter_cons_of_neg (by simpa using hkept)] at hids
      rw [if_neg hkept]
      let block : BlockMap := { id := line.id, owner := "user", text := doc.containers, lanes := [] }
      let contents := Function.update doc.contents doc.containers line.text
      let writer₁ := Function.update writer line.id (some doc.containers)
      have hinsert : doc.insertBlock written.length line = .ok
          { doc with utterances := written ++ block :: pending, containers := doc.containers + 1, contents } := by
        have hat : written.length ≤ doc.utterances.length := by
          rw [hblocks, List.length_append]
          exact Nat.le_add_right _ _
        rw [BlockDocument.insertBlock, if_pos hat, hblocks, List.take_left, List.drop_left]
        rfl
      have hother : ∀ other ∈ doc.utterances, contents other.text = doc.contents other.text := by
        intro other hother
        refine Function.update_of_ne (β := fun _ => String) ?_ line.text doc.contents
        exact Nat.ne_of_lt (hcontainers.bounded other hother)
      have hin : ∀ other, other ∈ written ∨ other ∈ pending → other ∈ doc.utterances := by
        intro other hother
        rw [hblocks]
        exact List.mem_append.mpr hother
      have hregistry : ∀ other : Line, other.id ≠ line.id → writer₁ other.id = writer other.id := fun other hne =>
        Function.update_of_ne (β := fun _ => Option Nat) hne (some doc.containers) writer
      have hwritten₁ : List.Forall₂ (BlockShows contents writer₁) written writtenLines := by
        refine shows_registry (shows_contents hwritten fun b hb => hother b (hin b (.inl hb))) fun other hmem => ?_
        exact hregistry other fun heq => hline.1 (heq ▸ List.mem_map_of_mem hmem)
      have hpending₁ : List.Forall₂ (BlockShows contents writer₁) pending pendingLines := by
        refine shows_registry (shows_contents hpending fun b hb => hother b (hin b (.inr hb))) fun other hmem => ?_
        refine hregistry other fun heq => hline.2 ?_
        have hmem : other.id ∈ (rest.filter (·.id ∈ previousIds)).map (·.id) := hids ▸ List.mem_map_of_mem hmem
        obtain ⟨same, hsame, hid⟩ := List.mem_map.mp hmem
        exact List.mem_map.mpr ⟨same, List.mem_of_mem_filter hsame, hid.trans heq⟩
      have hshown : BlockShows contents writer₁ block line :=
        ⟨rfl, Function.update_self (β := fun _ => Option Nat) _ _ _, Function.update_self (β := fun _ => String) _ _ _, rfl⟩
      have hcontainers₁ : ContainersOk
          { doc with utterances := written ++ block :: pending, containers := doc.containers + 1, contents } := by
        have hnew : doc.containers ∉ doc.utterances.map (·.text) := by
          intro hmem
          obtain ⟨other, hother, heq⟩ := List.mem_map.mp hmem
          exact absurd (hcontainers.bounded other hother) (by omega)
        constructor
        · have hperm : ((written ++ block :: pending).map (·.text)).Perm (doc.containers :: doc.utterances.map (·.text)) := by
            have hmiddle : (written ++ block :: pending).Perm (block :: (written ++ pending)) := List.perm_middle
            rw [hblocks]
            exact hmiddle.map fun b => b.text
          exact hperm.nodup_iff.mpr (List.nodup_cons.mpr ⟨hnew, hcontainers.distinct⟩)
        · intro other hother
          rw [List.mem_append, List.mem_cons] at hother
          have hold : other ∈ doc.utterances → other.text < doc.containers + 1 :=
            fun hmem => Nat.lt_succ_of_lt (hcontainers.bounded other hmem)
          cases hother with
          | inl hother => exact hold (hin other (.inl hother))
          | inr hother =>
            cases hother with
            | inl heq =>
              rw [heq]
              exact Nat.lt_succ_self doc.containers
            | inr hother => exact hold (hin other (.inr hother))
      obtain ⟨doc', writer', hrun, hshows, hcontainers'⟩ :=
        @ih { doc with utterances := written ++ block :: pending, containers := doc.containers + 1, contents } writer₁
          (written ++ [block]) pending (writtenLines ++ [line]) pendingLines (by rw [List.append_assoc]; rfl)
          (List.rel_append hwritten₁ (.cons hshown .nil)) hpending₁ hids hdistinct hcontainers₁
      refine ⟨doc', writer', ?_, hshows, hcontainers'⟩
      rw [List.length_append] at hrun
      rw [hinsert]
      exact hrun

/-- The block list follows the lines, and each kept line its block. -/
theorem applyLines_shows {doc : BlockDocument} {writer : BlockWriter} {previous next : List Line}
    (hshows : List.Forall₂ (BlockShows doc.contents writer) doc.utterances previous) (hcontainers : ContainersOk doc)
    (hprevious : (previous.map (·.id)).Nodup) (hnext : (next.map (·.id)).Nodup)
    (hkept : (previous.filter (·.id ∈ next.map (·.id))).map (·.id) =
      (next.filter (·.id ∈ previous.map (·.id))).map (·.id)) :
    ∃ doc' writer', applyLines doc writer previous next = .ok (doc', writer') ∧
      List.Forall₂ (BlockShows doc'.contents writer') doc'.utterances next ∧ ContainersOk doc' := by
  obtain ⟨left, writer₁, hdelete, hsub, hleft, -⟩ :=
    deleteGone_shows (next.map (·.id)) (List.append_nil _).symm hshows hprevious
  rw [List.append_nil] at hdelete
  have hcontainers₁ : ContainersOk { doc with utterances := left } := by
    constructor
    · exact (hsub.map _).nodup hcontainers.distinct
    · intro block hblock
      exact hcontainers.bounded block (hsub.subset hblock)
  obtain ⟨doc', writer', hwrite, hshows', hcontainers'⟩ :=
    @writeNext_shows (previous.map (·.id)) next { doc with utterances := left } writer₁ [] left [] _ rfl .nil hleft hkept
      hnext hcontainers₁
  refine ⟨doc', writer', ?_, hshows', hcontainers'⟩
  rw [applyLines, hdelete]
  exact hwrite

/-! ## One recorded step -/

/-- The lines the document shows. -/
def BlockDocument.lines (doc : BlockDocument) : List Line :=
  doc.utterances.map fun block => { id := block.id, text := doc.contents block.text }

theorem render_eq (doc : BlockDocument) : render doc = joinLines (doc.lines.map (·.text)) := by
  rw [render, BlockDocument.lines, List.map_map]
  rfl

theorem lines_of_shows {doc : BlockDocument} {writer : BlockWriter} {lines : List Line}
    (h : List.Forall₂ (BlockShows doc.contents writer) doc.utterances lines) : doc.lines = lines := by
  rw [BlockDocument.lines]
  generalize doc.utterances = blocks at h ⊢
  induction h with
  | nil => rfl
  | cons hblock _ ih => rw [List.map_cons, ih, hblock.id, hblock.text]

/-- What holds between the steps. -/
structure StateOk (uuid : Nat → String) (s : ReplayState) : Prop where
  shows : List.Forall₂ (BlockShows s.doc.contents s.writer) s.doc.utterances s.previousLines
  containers : ContainersOk s.doc
  lines : LinesOk uuid s.issued s.previousLines

theorem StateOk.start (uuid : Nat → String) : StateOk uuid .start :=
  ⟨.nil, ⟨List.nodup_nil, fun block hblock => by cases hblock⟩, ⟨List.nodup_nil, fun line hline => by cases hline⟩⟩

/-- A recorded step, in the lines before and after it: one block for each line of the text, with
distinct ids, and the lines that survive the edit keep theirs. -/
structure StepShown (text : String) (before after : BlockDocument) : Prop where
  rendered : render after = text
  texts : after.lines.map (·.text) = splitLines text
  distinct : (after.lines.map (·.id)).Nodup
  edit : ∃ front old new back, LineEdit before.lines after.lines front old new back
  survivors : (before.lines.filter (·.id ∈ after.lines.map (·.id))).map (·.id) =
    (after.lines.filter (·.id ∈ before.lines.map (·.id))).map (·.id)

section
variable {uuid : Nat → String} {legacy : LegacyHistory}

theorem replayStep_ok (hinj : Function.Injective uuid) {s : ReplayState} (hs : StateOk uuid s) (index : Nat)
    (step : HistoryStep) :
    ∃ s', replayStep uuid legacy s index step = .ok s' ∧ StateOk uuid s' ∧
      StepShown (legacy.textAt step.last) s.doc s'.doc := by
  generalize htext : legacy.textAt step.last = text
  obtain ⟨front, old, new, back, htracked⟩ := trackLines_tracked uuid s.issued s.previousLines text
  have hlines := htracked.linesOk hinj hs.lines
  have hsurvivors := htracked.survivors hinj hs.lines
  obtain ⟨doc, writer, happly, hshows, hcontainers⟩ :=
    applyLines_shows hs.shows hs.containers hs.lines.distinct hlines.distinct hsurvivors
  have hbefore := lines_of_shows hs.shows
  have hafter := lines_of_shows hshows
  have htexts : doc.lines.map (·.text) = splitLines text := by
    rw [hafter, htracked.texts]
  have hrender : render doc = text := by
    rw [render_eq, htexts, joinLines_splitLines]
  generalize htrack : trackLines uuid s.issued s.previousLines text = next at *
  obtain ⟨nextLines, issued⟩ := next
  refine ⟨{ doc, writer, previousLines := nextLines, issued }, ?_, ⟨hshows, hcontainers, hlines⟩, hrender, htexts, ?_,
    ⟨front, old, new, back, ?_⟩, ?_⟩
  · rw [replayStep, htext, htrack]
    dsimp only
    rw [happly]
    change (ensure (render doc = text) _ >>= fun _ => _) = _
    rw [hrender, decide_eq_true rfl]
    rfl
  · rw [hafter]
    exact hlines.distinct
  · rw [hbefore, hafter]
    exact htracked.edit
  · rw [hbefore, hafter]
    exact hsurvivors

/-- The whole history is replayed: no step fails. -/
theorem replaySteps_ok (hinj : Function.Injective uuid) {s : ReplayState} (hs : StateOk uuid s) (index : Nat)
    (steps : List HistoryStep) : ∃ s', replaySteps uuid legacy s index steps = .ok s' ∧ StateOk uuid s' := by
  induction steps generalizing s index with
  | nil => exact ⟨s, rfl, hs⟩
  | cons step rest ih =>
    obtain ⟨s₁, hstep, hs₁, -⟩ := @replayStep_ok uuid legacy hinj s hs index step
    obtain ⟨s', hrest, hs'⟩ := ih hs₁ (index + 1)
    refine ⟨s', ?_, hs'⟩
    rw [replaySteps, hstep]
    exact hrest

end

end Zulangue.Replay
