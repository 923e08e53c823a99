import Zulangue.Capture.Rows

/-!
# Every function keeps the rows in order

One lemma for each function of the store that writes: it keeps the order of the rows, and
Final lanes go on with their stamps.
-/

namespace Zulangue.Capture

open Zulangue.Lib.Fallible

/-- A write that keeps the store and shows one of its rows. -/
def KeepsShowing (s s' : CaptureStore) (shown : RealtimeUtterance) : Prop :=
  Keeps s s' ∧ ∃ u ∈ s'.utterances, Shows u shown

theorem keepsShowing_of_byId {s s' : CaptureStore} {id : String} {u shown : RealtimeUtterance}
    (hkeeps : Keeps s s') (hu : orError (s'.byId id) StoreError.notFound = .ok u)
    (hshown : s'.applyUtteranceOverrides u = .ok shown) : KeepsShowing s s' shown :=
  ⟨hkeeps, u, (mem_of_byId (orError_eq_ok.mp hu)).1, shows_of_applyUtteranceOverrides hshown⟩

theorem keepsShowing_upsertTranslationVariant {s s' : CaptureStore} {sequence : Nat} {language : String}
    {payload : LanePayload} {laneWrite : TranslationLaneWrite} {shown : RealtimeUtterance}
    (h : s.upsertTranslationVariantFromConn sequence language payload laneWrite = .ok (s', shown)) :
    KeepsShowing s s' shown := by
  obtain ⟨u, hu, h⟩ := bind_eq_ok.mp h
  obtain ⟨⟨⟩, hsource, h⟩ := bind_eq_ok.mp h
  obtain ⟨writes, hdecided, h⟩ := bind_eq_ok.mp h
  have hmem := (mem_of_bySequence (orError_eq_ok.mp hu)).1
  cases writes with
  | false =>
    obtain ⟨shown', hshown, h⟩ := bind_eq_ok.mp h
    cases h
    exact ⟨Keeps.refl s, u, hmem, shows_of_applyUtteranceOverrides hshown⟩
  | true =>
    obtain ⟨⟨⟩, hwellFormed, h⟩ := bind_eq_ok.mp h
    obtain ⟨row, hrow, h⟩ := bind_eq_ok.mp h
    obtain ⟨shown', hshown, h⟩ := bind_eq_ok.mp h
    cases h
    have hother := (Bool.not_eq_true' _).mp (ensure_eq_ok.mp hsource)
    have hkeeps := keeps_writeTranslationLane hmem (canonicalLanguage_canonicalLanguage language) hother
      hdecided (ensure_eq_ok.mp hwellFormed)
    exact keepsShowing_of_byId hkeeps hrow hshown

/-! ## The adoption of a language -/

theorem RowOk.sourceLaneIsComplete {desired : Nat} {u : RealtimeUtterance} (h : RowOk desired u)
    {v : RealtimeUtteranceVariant} (hv : v ∈ u.variants) (hrole : v.role = .source) :
    u.sourceLaneIsComplete = v.isFinal := by
  cases hsource : u.sourceVariant with
  | none =>
    have := List.find?_eq_none.mp hsource v hv
    simp [hrole] at this
  | some w =>
    have hmem : w ∈ u.variants := List.mem_of_find?_eq_some hsource
    have hwrole : w.role = .source := of_decide_eq_true (List.find?_some hsource :)
    obtain rfl := h.eq_of_tag hmem hv ((h.sourceTag w hmem hwrole).trans (h.sourceTag v hv hrole).symm)
    obtain ⟨hstate, -⟩ := h.sourceFact w hmem hwrole
    have htext := (h.ready w hmem hstate).1
    simp [RealtimeUtterance.sourceLaneIsComplete, hsource, hstate, htext, RealtimeUtteranceVariant.isFinal]

/-- The source lane under its new language. -/
def relabel (adopted : String) (projectionRevision : Nat) (v : RealtimeUtteranceVariant) :
    RealtimeUtteranceVariant :=
  if v.role = .source then { v with language := adopted, revision := v.revision + 1, projectionRevision }
  else v

/-- The lanes an adoption leaves: all but a placeholder of the adopted language. -/
def keptLanes (adopted : String) (u : RealtimeUtterance) : List RealtimeUtteranceVariant :=
  u.variants.filter fun v =>
    !(v.role = .translation && v.tag = adopted &&
      (v.state = .waiting || v.state = .failed || v.state = .unavailable))

theorem mem_keptLanes {adopted : String} {u : RealtimeUtterance} {v : RealtimeUtteranceVariant} :
    v ∈ keptLanes adopted u ↔ v ∈ u.variants ∧ ¬(v.role = .translation ∧ v.tag = adopted ∧ v.state ≠ .ready) := by
  rw [keptLanes, List.mem_filter]
  have hstate : (v.state = .waiting || v.state = .failed || v.state = .unavailable) = decide (v.state ≠ .ready) := by
    cases v.state <;> rfl
  rw [hstate]
  by_cases hrole : v.role = .translation <;> by_cases htag : v.tag = adopted <;> simp [hrole, htag]

section
variable {desired : Nat} {u : RealtimeUtterance} {adopted : String}

theorem adoptedRow_of_source (h : RowOk desired u) (hund : canonicalLanguage u.sourceLanguage = "und")
    (stamp : Nat) (hrenames : (u.variants.any fun v => v.role = .source && v.tag = "und") = true) :
    CaptureStore.adoptedRow adopted stamp u =
      { u with
        sourceLanguage := adopted
        sourceProjectionRevision := if u.sourceLaneIsComplete then stamp else 0
        variants := (keptLanes adopted u).map
          (relabel adopted (if u.sourceLaneIsComplete then stamp else 0)) } := by
  rw [CaptureStore.adoptedRow, if_pos hrenames, List.map_map]
  have hlanes : ∀ v ∈ keptLanes adopted u, v.role = .source → v.tag = "und" := by
    intro v hv hrole
    exact (h.sourceTag v (mem_keptLanes.mp hv).1 hrole).trans hund
  congr 1
  apply List.map_congr_left
  intro v hv
  by_cases hrole : v.role = .source
  · simp [relabel, hrole, hlanes v hv hrole]
  · simp [relabel, hrole]

theorem adoptedRow_of_no_source
    (hrenames : (u.variants.any fun v => v.role = .source && v.tag = "und") = false) (stamp : Nat) :
    CaptureStore.adoptedRow adopted stamp u =
      { u with sourceLanguage := adopted, variants := keptLanes adopted u } := by
  rw [CaptureStore.adoptedRow, if_neg (by rw [hrenames]; exact Bool.false_ne_true)]
  have hsame : ∀ v ∈ keptLanes adopted u,
      (if v.role = .source ∧ v.tag = "und" then { v with language := adopted, revision := v.revision + 1 }
        else v) = v := by
    intro v hv
    apply if_neg
    rintro ⟨hrole, htag⟩
    have := List.any_eq_false.mp hrenames v (mem_keptLanes.mp hv).1
    simp [hrole, htag] at this
  congr 1
  exact (List.map_congr_left hsame).trans (List.map_id _)

theorem mem_keptLanes_of_final {v : RealtimeUtteranceVariant} (hv : v ∈ u.variants) (hfinal : v.isFinal = true) :
    v ∈ keptLanes adopted u :=
  mem_keptLanes.mpr ⟨hv, fun h => h.2.2 (isFinal_iff.mp hfinal).1⟩

/-- A language that no Ready translation occupies is free among the lanes that stay. -/
theorem tag_ne_of_mem_keptLanes (h : RowOk desired u) (hund : canonicalLanguage u.sourceLanguage = "und")
    (hadopted : adopted ≠ "und")
    (hfree : ∀ v ∈ u.variants, v.tag = adopted → v.role = .translation → v.state ≠ .ready)
    {v : RealtimeUtteranceVariant} (hv : v ∈ keptLanes adopted u) : v.tag ≠ adopted := by
  obtain ⟨hmem, hkept⟩ := mem_keptLanes.mp hv
  intro htag
  cases hrole : v.role with
  | source => exact hadopted (htag.symm.trans ((h.sourceTag v hmem hrole).trans hund))
  | translation => exact hkept ⟨hrole, htag, hfree v hmem htag hrole⟩

theorem nodup_keptLanes (h : RowOk desired u) : (keptLanes adopted u).Nodup := by
  have hsub : List.Sublist ((keptLanes adopted u).map (·.tag)) (u.variants.map (·.tag)) :=
    List.filter_sublist.map _
  exact List.Nodup.of_map _ (h.distinct.sublist hsub)

theorem relabel_of_translation {p : Nat} {v : RealtimeUtteranceVariant} (hrole : v.role = .translation) :
    relabel adopted p v = v := by
  rw [relabel, if_neg]
  rw [hrole]
  intro h
  cases h

theorem role_relabel (p : Nat) (v : RealtimeUtteranceVariant) : (relabel adopted p v).role = v.role := by
  rw [relabel]
  split <;> rfl

theorem isFinal_relabel (p : Nat) (v : RealtimeUtteranceVariant) :
    (relabel adopted p v).isFinal = v.isFinal := by
  rw [relabel]
  split <;> rfl

theorem projectionRevision_relabel_of_source {p : Nat} {v : RealtimeUtteranceVariant}
    (hrole : v.role = .source) : (relabel adopted p v).projectionRevision = p := by
  rw [relabel, if_pos hrole]

theorem tag_relabel_of_source (hlanguage : canonicalLanguage adopted = adopted) {p : Nat}
    {v : RealtimeUtteranceVariant} (hrole : v.role = .source) : (relabel adopted p v).tag = adopted := by
  rw [relabel, if_pos hrole]
  exact hlanguage

theorem distinct_relabel (h : RowOk desired u) (hlanguage : canonicalLanguage adopted = adopted)
    (hfree : ∀ v ∈ keptLanes adopted u, v.tag ≠ adopted) (p : Nat) :
    (((keptLanes adopted u).map (relabel adopted p)).map (·.tag)).Nodup := by
  rw [List.map_map]
  refine List.Nodup.map_on ?_ (nodup_keptLanes h)
  intro v hv w hw htag
  have hvmem := (mem_keptLanes.mp hv).1
  have hwmem := (mem_keptLanes.mp hw).1
  rw [Function.comp_apply, Function.comp_apply] at htag
  cases hvrole : v.role with
  | source =>
    rw [tag_relabel_of_source hlanguage hvrole] at htag
    cases hwrole : w.role with
    | source =>
      exact h.eq_of_tag hvmem hwmem
        ((h.sourceTag v hvmem hvrole).trans (h.sourceTag w hwmem hwrole).symm)
    | translation =>
      rw [relabel_of_translation hwrole] at htag
      exact absurd htag.symm (hfree w hw)
  | translation =>
    rw [relabel_of_translation hvrole] at htag
    cases hwrole : w.role with
    | source =>
      rw [tag_relabel_of_source hlanguage hwrole] at htag
      exact absurd htag (hfree v hv)
    | translation =>
      rw [relabel_of_translation hwrole] at htag
      exact h.eq_of_tag hvmem hwmem htag

/-- A row under its adopted language. Its source lane goes on under the new name, with a
stamp of its own when it is Final. -/
theorem RowOk.adopt {more stamp : Nat} (h : RowOk desired u) (hle : desired ≤ more)
    (hund : canonicalLanguage u.sourceLanguage = "und") (hadopted : adopted ≠ "und")
    (hlanguage : canonicalLanguage adopted = adopted)
    (hfree : ∀ v ∈ u.variants, v.tag = adopted → v.role = .translation → v.state ≠ .ready)
    (hsource : ∃ v ∈ u.variants, v.role = .source)
    (hstamp : u.sourceLaneIsComplete = true → desired < stamp ∧ stamp ≤ more)
    {p : Nat} (hp : p = if u.sourceLaneIsComplete then stamp else 0)
    {u' : RealtimeUtterance}
    (hu' : u' = { u with
      sourceLanguage := adopted
      sourceProjectionRevision := p
      variants := (keptLanes adopted u).map (relabel adopted p) }) :
    RowOk more u' ∧ RowEvolves desired u u' := by
  have hfinalStamp : ∀ v ∈ u.variants, v.role = .source → v.isFinal = true → desired < p ∧ p ≤ more := by
    intro v hv hrole hfinal
    have hcomplete := (h.sourceLaneIsComplete hv hrole).trans hfinal
    rw [hp, if_pos hcomplete]
    exact hstamp hcomplete
  have hopenStamp : ∀ v ∈ u.variants, v.role = .source → v.isFinal = false → p = 0 := by
    intro v hv hrole hopen
    rw [hp, (h.sourceLaneIsComplete hv hrole).trans hopen]
    rfl
  have hmem : ∀ v' ∈ u'.variants, ∃ v ∈ u.variants, v ∈ keptLanes adopted u ∧ v' = relabel adopted p v := by
    intro v' hv'
    rw [hu'] at hv'
    obtain ⟨v, hv, rfl⟩ := List.mem_map.mp hv'
    exact ⟨v, (mem_keptLanes.mp hv).1, hv, rfl⟩
  have hkeptSource : ∀ v ∈ u.variants, v.role = .source → relabel adopted p v ∈ u'.variants := by
    intro v hv hrole
    rw [hu']
    refine List.mem_map_of_mem (mem_keptLanes.mpr ⟨hv, fun hnot => ?_⟩)
    rw [hrole] at hnot
    cases hnot.1
  constructor
  · apply RowOk.of_lanes
    · rw [hu']
      exact distinct_relabel h hlanguage (fun v hv => tag_ne_of_mem_keptLanes h hund hadopted hfree hv) p
    · intro v' hv'
      obtain ⟨v, hv, -, rfl⟩ := hmem v' hv'
      have hlane := h.lane hv
      cases hrole : v.role with
      | translation =>
        rw [relabel_of_translation hrole]
        exact hlane.of_translation (by simp [hrole]) hle u'
      | source =>
        have hprojection : (relabel adopted p v).projectionRevision = p := projectionRevision_relabel_of_source hrole
        constructor
        · intro hfinal
          rw [isFinal_relabel] at hfinal
          have := hfinalStamp v hv hrole hfinal
          omega
        · intro hopen
          rw [isFinal_relabel] at hopen
          exact hprojection.trans (hopenStamp v hv hrole hopen)
        · rw [relabel, if_pos hrole]
          exact hlane.ready
        · intro hsourceLane
          refine ⟨?_, ?_, ?_⟩
          · rw [tag_relabel_of_source hlanguage hrole, hu']
            exact hlanguage.symm
          · rw [relabel, if_pos hrole, hu']
            exact (hlane.source hrole).2.1
          · rw [hprojection, hu']
    · intro hnone
      obtain ⟨v, hv, hrole⟩ := hsource
      exact absurd ((role_relabel p v).trans hrole) (hnone _ (hkeptSource v hv hrole))
  · constructor
    · intro v hv hfinal
      have hkept : relabel adopted p v ∈ u'.variants := by
        rw [hu']
        exact List.mem_map_of_mem (mem_keptLanes_of_final hv hfinal)
      refine ⟨_, hkept, ?_⟩
      obtain ⟨text, htext⟩ := Option.isSome_iff_exists.mp (h.ready v hv (isFinal_iff.mp hfinal).1).1
      cases hrole : v.role with
      | translation =>
        rw [relabel_of_translation hrole]
        exact h.continues hv hfinal
      | source =>
        have hsame : (relabel adopted p v).text = v.text := by
          rw [relabel, if_pos hrole]
        have hrevision : v.revision ≤ (relabel adopted p v).revision := by
          rw [relabel, if_pos hrole]
          exact Nat.le_succ _
        exact ⟨(isFinal_relabel p v).trans hfinal, role_relabel p v,
          .inr ⟨hrole, (h.sourceTag v hv hrole).trans hund⟩, hrevision,
          ⟨text, text, htext, hsame.trans htext, List.prefix_rfl⟩, fun _ => hsame⟩
    · intro v' hv' hfinal
      obtain ⟨v, hv, -, rfl⟩ := hmem v' hv'
      rw [isFinal_relabel] at hfinal
      cases hrole : v.role with
      | source =>
        rw [projectionRevision_relabel_of_source hrole]
        exact .inr (hfinalStamp v hv hrole hfinal).1
      | translation =>
        rw [relabel_of_translation hrole]
        exact .inl hv

/-- A row without a source lane under its adopted language. -/
theorem RowOk.adopt_of_no_source (h : RowOk desired u) (hnone : ∀ v ∈ u.variants, v.role ≠ .source) :
    RowOk desired { u with sourceLanguage := adopted, variants := keptLanes adopted u } ∧
      RowEvolves desired u { u with sourceLanguage := adopted, variants := keptLanes adopted u } := by
  have hmem : ∀ v ∈ keptLanes adopted u, v ∈ u.variants := fun v hv => (mem_keptLanes.mp hv).1
  have hsub : List.Sublist (keptLanes adopted u) u.variants := List.filter_sublist
  constructor
  · apply RowOk.of_lanes (h.distinct.sublist (hsub.map _))
    · exact fun v hv => (h.lane (hmem v hv)).of_translation (hnone v (hmem v hv)) le_rfl _
    · exact fun _ => h.sourceUnstamped hnone
  · constructor
    · intro v hv hfinal
      exact ⟨v, mem_keptLanes_of_final hv hfinal, h.continues hv hfinal⟩
    · intro v hv _
      exact .inl (hmem v hv)

end

/-- What an adoption makes of a row whose adopted language no Ready translation occupies. -/
theorem RowOk.adoptedRow {desired more stamp : Nat} {u : RealtimeUtterance} {adopted : String}
    (h : RowOk desired u) (hle : desired ≤ more)
    (hund : canonicalLanguage u.sourceLanguage = "und") (hadopted : adopted ≠ "und")
    (hlanguage : canonicalLanguage adopted = adopted)
    (hfree : ∀ v ∈ u.variants, v.tag = adopted → v.role = .translation → v.state ≠ .ready)
    (hstamp : (u.variants.any fun v => v.role = .source && v.tag = "und") = true →
      u.sourceLaneIsComplete = true → desired < stamp ∧ stamp ≤ more) :
    RowOk more (CaptureStore.adoptedRow adopted stamp u) ∧
      RowEvolves desired u (CaptureStore.adoptedRow adopted stamp u) := by
  cases hrenames : u.variants.any fun v => v.role = .source && v.tag = "und" with
  | true =>
    obtain ⟨v, hv, hboth⟩ := List.any_eq_true.mp hrenames
    have hrole : v.role = .source := of_decide_eq_true (Bool.and_eq_true_iff.mp hboth).1
    exact h.adopt hle hund hadopted hlanguage hfree ⟨v, hv, hrole⟩ (hstamp hrenames) rfl
      (adoptedRow_of_source h hund stamp hrenames)
  | false =>
    have hnone : ∀ v ∈ u.variants, v.role ≠ .source := by
      intro v hv hrole
      have := List.any_eq_false.mp hrenames v hv
      simp [hrole, h.sourceTag v hv hrole, hund] at this
    rw [adoptedRow_of_no_source hrenames]
    exact ⟨(h.adopt_of_no_source hnone).1.mono hle, (h.adopt_of_no_source hnone).2⟩

theorem id_adoptedRow (adopted : String) (stamp : Nat) (u : RealtimeUtterance) :
    (CaptureStore.adoptedRow adopted stamp u).id = u.id ∧
      (CaptureStore.adoptedRow adopted stamp u).sequence = u.sequence ∧
      u.revision ≤ (CaptureStore.adoptedRow adopted stamp u).revision := by
  rw [CaptureStore.adoptedRow]
  split
  · exact ⟨rfl, rfl, le_rfl⟩
  · exact ⟨rfl, rfl, le_rfl⟩

theorem keeps_adoptedRow {s : CaptureStore} {u : RealtimeUtterance} {adopted : String} {bumps : Bool}
    (hmem : u ∈ s.utterances) (hund : canonicalLanguage u.sourceLanguage = "und") (hadopted : adopted ≠ "und")
    (hlanguage : canonicalLanguage adopted = adopted)
    (hfree : (u.variants.any fun v => v.tag = adopted && v.role = .translation && v.state = .ready) = false)
    (hbumps : bumps = ((u.variants.any fun v => v.role = .source && v.tag = "und") && u.sourceLaneIsComplete)) :
    Keeps s ((if bumps then s.bumpDesired else s).updateUtterance u.id
      (CaptureStore.adoptedRow adopted (if bumps then s.bumpDesired else s).desiredRevision)) := by
  have hfree' : ∀ v ∈ u.variants, v.tag = adopted → v.role = .translation → v.state ≠ .ready := by
    intro v hv htag hrole hstate
    have := List.any_eq_false.mp hfree v hv
    simp [htag, hrole, hstate] at this
  intro hs
  cases bumps with
  | true =>
    refine keeps_updateUtterance (Nat.le_succ _) ?_ hs
    intro u' hu' hid hok
    obtain rfl := hs.eq_of_id hu' hmem hid
    exact ⟨id_adoptedRow adopted (s.desiredRevision + 1) u',
      hok.adoptedRow (Nat.le_succ _) hund hadopted hlanguage hfree' fun _ _ => ⟨Nat.lt_succ_self _, le_rfl⟩⟩
  | false =>
    refine @keeps_updateUtterance s _ _ s.desiredRevision le_rfl ?_ hs
    intro u' hu' hid hok
    obtain rfl := hs.eq_of_id hu' hmem hid
    refine ⟨id_adoptedRow adopted s.desiredRevision u',
      hok.adoptedRow le_rfl hund hadopted hlanguage hfree' ?_⟩
    intro hrenames hcomplete
    rw [hrenames, hcomplete] at hbumps
    cases hbumps

theorem keepsShowing_adopt {s s' : CaptureStore} {item : RealtimeTranslationInboxItem}
    {canonical shown : RealtimeUtterance} (hmem : canonical ∈ s.utterances)
    (h : s.adoptTranslationInboxSourceLanguage item canonical = .ok (s', shown)) :
    KeepsShowing s s' shown := by
  rw [CaptureStore.adoptTranslationInboxSourceLanguage] at h
  dsimp only at h
  split at h
  · cases h
    exact ⟨Keeps.refl _, canonical, hmem, Shows.refl _⟩
  · next hadopts =>
    obtain ⟨u, hu, h⟩ := bind_eq_ok.mp h
    obtain ⟨shown', hshown, h⟩ := bind_eq_ok.mp h
    cases h
    simp only [Bool.or_eq_true, decide_eq_true_eq, not_or, Bool.not_eq_true, Decidable.not_not] at hadopts
    obtain ⟨⟨⟨-, hadopted⟩, hund⟩, hfree⟩ := hadopts
    exact keepsShowing_of_byId (keeps_adoptedRow hmem hund hadopted
      (canonicalLanguage_canonicalLanguage item.sourceLanguage) hfree rfl) hu hshown

/-! ## The claim of a provisional source lane -/

/-- A row whose partial source lane became a Final translation. -/
theorem RowOk.claim {desired more : Nat} {u : RealtimeUtterance} {language text : String} {stamp : Nat}
    (h : RowOk desired u) (hstamp : desired < stamp ∧ stamp ≤ more)
    {source : RealtimeUtteranceVariant} (hsource : source ∈ u.variants) (hrole : source.role = .source)
    (htag : source.tag = language) (hcompletion : source.completion = some .partial_)
    {u' : RealtimeUtterance}
    (hvariants : u'.variants = u.variants.map (CaptureStore.claimedVariant language text stamp))
    (hunstamped : u'.sourceProjectionRevision = 0) :
    RowOk more u' ∧ RowEvolves desired u u' := by
  have hclaims : ∀ v, CaptureStore.claimedVariant language text stamp v = v ∨
      (v.role = .source ∧ CaptureStore.claimedVariant language text stamp v =
        { v with
          role := .translation, text := some text, state := .ready, completion := some .complete
          revision := v.revision + 1, projectionRevision := stamp }) := by
    intro v
    rw [CaptureStore.claimedVariant]
    split
    · next hclaimed => exact .inr ⟨hclaimed.1, rfl⟩
    · exact .inl rfl
  have htags : u'.variants.map (·.tag) = u.variants.map (·.tag) := by
    rw [hvariants, List.map_map]
    apply List.map_congr_left
    intro v _
    rw [Function.comp_apply, CaptureStore.claimedVariant]
    split <;> rfl
  -- The source lane is unique, and it is the one that is claimed.
  have hsourceClaimed : ∀ v ∈ u.variants, v.role = .source →
      CaptureStore.claimedVariant language text stamp v ≠ v ∧ v.isFinal = false := by
    intro v hv hvrole
    obtain rfl := h.eq_of_tag hv hsource ((h.sourceTag v hv hvrole).trans (h.sourceTag _ hsource hrole).symm)
    have hstate := (h.sourceFact v hv hvrole).1
    constructor
    · intro heq
      have := congrArg RealtimeUtteranceVariant.role heq
      rw [CaptureStore.claimedVariant, if_pos ⟨hrole, htag, hstate, hcompletion⟩, hrole] at this
      cases this
    · simp [RealtimeUtteranceVariant.isFinal, hcompletion]
  have hmem : ∀ v' ∈ u'.variants, v'.role = .translation ∧
      (v' ∈ u.variants ∨ (v'.state = .ready ∧ v'.text.isSome ∧ v'.completion = some .complete ∧
        v'.projectionRevision = stamp)) := by
    intro v' hv'
    rw [hvariants] at hv'
    obtain ⟨v, hv, rfl⟩ := List.mem_map.mp hv'
    cases hclaims v with
    | inl hsame =>
      cases hvrole : v.role with
      | source => exact absurd hsame (hsourceClaimed v hv hvrole).1
      | translation =>
        rw [hsame]
        exact ⟨hvrole, .inl hv⟩
    | inr hclaimed =>
      rw [hclaimed.2]
      exact ⟨rfl, .inr ⟨rfl, rfl, rfl, rfl⟩⟩
  have hnoSource : ∀ v' ∈ u'.variants, v'.role ≠ .source := by
    intro v' hv' hvrole
    have := (hmem v' hv').1
    rw [hvrole] at this
    cases this
  constructor
  · apply RowOk.of_lanes
    · rw [htags]
      exact h.distinct
    · intro v' hv'
      have hnot := hnoSource v' hv'
      cases (hmem v' hv').2 with
      | inl hold => exact (h.lane hold).of_translation hnot (by omega) u'
      | inr hnew =>
        obtain ⟨hstate, htext, hcomplete, hprojection⟩ := hnew
        refine ⟨fun _ => by omega, fun hopen => ?_, fun _ => ⟨htext, by rw [hcomplete]; rfl⟩, fun hvrole => absurd hvrole hnot⟩
        rw [isFinal_iff.mpr ⟨hstate, hcomplete⟩] at hopen
        cases hopen
    · exact fun _ => hunstamped
  · constructor
    · intro v hv hfinal
      have hsame : CaptureStore.claimedVariant language text stamp v = v := by
        cases hclaims v with
        | inl hsame => exact hsame
        | inr hclaimed =>
          rw [(hsourceClaimed v hv hclaimed.1).2] at hfinal
          cases hfinal
      refine ⟨v, ?_, h.continues hv hfinal⟩
      rw [hvariants]
      exact List.mem_map.mpr ⟨v, hv, hsame⟩
    · intro v' hv' hfinal
      cases (hmem v' hv').2 with
      | inl hold => exact .inl hold
      | inr hnew =>
        refine .inr ?_
        rw [hnew.2.2.2]
        exact hstamp.1

/-- The row after a claim. -/
def claimedRow (language text : String) (stamp : Nat) (u : RealtimeUtterance) : RealtimeUtterance :=
  { u with
    variants := u.variants.map (CaptureStore.claimedVariant language text stamp)
    translatedLanguage := some language
    translatedText := some text
    alignment := .paired
    sourceProjectionRevision := 0 }

theorem keeps_claimedRow {s : CaptureStore} {u canonical : RealtimeUtterance} {language text : String}
    (hu : u ∈ s.utterances) (hshows : Shows u canonical)
    (hprovisional : (canonical.variants.any fun v =>
      v.role = .source && v.tag = language && v.state = .ready && v.completion = some .partial_) = true) :
    Keeps s (s.bumpDesired.updateUtterance canonical.id (claimedRow language text (s.desiredRevision + 1))) := by
  obtain ⟨v', hv', hfacts⟩ := List.any_eq_true.mp hprovisional
  simp only [Bool.and_eq_true, decide_eq_true_eq] at hfacts
  obtain ⟨v, hv, hvshown⟩ := hshows.exists_lane hv'
  intro hs
  refine keeps_updateUtterance (Nat.le_succ _) ?_ hs
  intro u' hu' hid hok
  obtain rfl := hs.eq_of_id hu' hu (hid.trans hshows.id)
  have hrole : v.role = .source := hvshown.role.symm.trans hfacts.1.1.1
  have htag : v.tag = language := by
    rw [← hfacts.1.1.2, RealtimeUtteranceVariant.tag, RealtimeUtteranceVariant.tag, hvshown.language]
  have hcompletion : v.completion = some .partial_ := hvshown.completion.symm.trans hfacts.2
  exact ⟨⟨rfl, rfl, le_rfl⟩, hok.claim ⟨Nat.lt_succ_self _, le_rfl⟩ hv hrole htag hcompletion rfl rfl⟩

theorem keepsShowing_claim {s s' : CaptureStore} {item : RealtimeTranslationInboxItem}
    {u canonical shown : RealtimeUtterance} {text : Option String} (hu : u ∈ s.utterances)
    (hshows : Shows u canonical)
    (h : s.claimAuxiliaryFinalFromProvisionalSource canonical item text = .ok (s', shown)) :
    KeepsShowing s s' shown := by
  obtain ⟨claimed, _, h⟩ := bind_eq_ok.mp h
  obtain ⟨⟨⟩, hprovisional, h⟩ := bind_eq_ok.mp h
  obtain ⟨row, hrow, h⟩ := bind_eq_ok.mp h
  obtain ⟨shown', hshown, h⟩ := bind_eq_ok.mp h
  cases h
  exact keepsShowing_of_byId (keeps_claimedRow hu hshows (ensure_eq_ok.mp hprovisional)) hrow hshown

/-! ## The inbox -/

theorem KeepsShowing.collect {s s' s'' : CaptureStore} {shown : RealtimeUtterance}
    {left : Option RealtimeUtterance} (h : KeepsShowing s s' shown)
    (hcollect : s'.collectEmptyTranslationShellAfterWithdrawal shown = (s'', left)) : Keeps s s'' := by
  obtain ⟨hkeeps, u, hu, hshows⟩ := h
  have hcollected := keeps_collectEmptyTranslationShell hu hshows
  rw [hcollect] at hcollected
  exact hkeeps.trans hcollected

theorem keeps_applyWithdrawal {s s' : CaptureStore} {item : RealtimeTranslationInboxItem} {sequence : Nat}
    {u canonical : RealtimeUtterance} {left : Option RealtimeUtterance} (hu : u ∈ s.utterances)
    (hshows : Shows u canonical) (h : s.applyWithdrawal item sequence canonical = .ok (s', left)) :
    Keeps s s' := by
  obtain ⟨⟨⟩, _, h⟩ := bind_eq_ok.mp h
  split at h
  · obtain ⟨visible, hvisible, h⟩ := bind_eq_ok.mp h
    have hshown : KeepsShowing s s visible :=
      ⟨Keeps.refl s, u, hu, hshows.trans (shows_of_applyUtteranceOverrides hvisible)⟩
    exact hshown.collect (Except.ok.inj h)
  · obtain ⟨⟨mid, visible⟩, hwrite, h⟩ := bind_eq_ok.mp h
    exact (keepsShowing_upsertTranslationVariant hwrite).collect (Except.ok.inj h)

theorem keeps_applySegments {s s' : CaptureStore} {item : RealtimeTranslationInboxItem} {sequence : Nat}
    {composed : Option ComposedTranslationLane} {isMutable : Bool} {left : Option RealtimeUtterance}
    (h : s.applySegments item sequence composed isMutable = .ok (s', left)) : Keeps s s' := by
  obtain ⟨⟨mid, visible⟩, hwrite, h⟩ := bind_eq_ok.mp h
  cases h
  exact (keepsShowing_upsertTranslationVariant hwrite).1

theorem keeps_applyTranslationInbox {s s' : CaptureStore} {item : RealtimeTranslationInboxItem}
    {sequence : Nat} {left : Option RealtimeUtterance}
    (h : s.applyTranslationInboxToBoundUtterance item sequence = .ok (s', left)) : Keeps s s' := by
  obtain ⟨row, hrow, h⟩ := bind_eq_ok.mp h
  obtain ⟨⟨mid, canonical⟩, hadopt, h⟩ := bind_eq_ok.mp h
  obtain ⟨hkeeps, u, hu, hshows⟩ :=
    keepsShowing_adopt (mem_of_bySequence (orError_eq_ok.mp hrow)).1 hadopt
  dsimp only at h
  split at h
  · cases h
    exact hkeeps
  · split at h
    · exact hkeeps.trans (keeps_applyWithdrawal hu hshows h)
    · split at h
      · obtain ⟨⟨claimed, visible⟩, hclaim, h⟩ := bind_eq_ok.mp h
        cases h
        exact hkeeps.trans (keepsShowing_claim hu hshows hclaim).1
      · exact hkeeps.trans (keeps_applySegments h)

/-- Writes to the inbox alone. -/
theorem keeps_updateInbox (s : CaptureStore) (key : RealtimeTranslationInboxKey)
    (f : RealtimeTranslationInboxItem → RealtimeTranslationInboxItem) : Keeps s (s.updateInbox key f) :=
  keeps_inbox s _

section
variable {toLowercase : Char → List Char}

theorem keeps_bindTranslationInboxItem {s s' : CaptureStore} {key : RealtimeTranslationInboxKey}
    {sequence : Nat} {left : Option RealtimeUtterance}
    (h : s.bindTranslationInboxItem toLowercase key sequence = .ok (s', left)) : Keeps s s' := by
  obtain ⟨item, hitem, h⟩ := bind_eq_ok.mp h
  split at h
  · cases h
    exact Keeps.refl s
  · obtain ⟨⟨⟩, _, h⟩ := bind_eq_ok.mp h
    obtain ⟨canonical, _, h⟩ := bind_eq_ok.mp h
    obtain ⟨⟨⟩, _, h⟩ := bind_eq_ok.mp h
    obtain ⟨⟨⟩, _, h⟩ := bind_eq_ok.mp h
    obtain ⟨⟨⟩, _, h⟩ := bind_eq_ok.mp h
    split at h
    · cases h
      exact keeps_updateInbox s key _
    · exact (keeps_updateInbox s key _).trans (keeps_applyTranslationInbox h)

theorem keeps_tryBind {s s' : CaptureStore} {key : RealtimeTranslationInboxKey} {sequence : Nat}
    {left : Option (Option RealtimeUtterance)} (h : s.tryBind toLowercase key sequence = .ok (s', left)) :
    Keeps s s' := by
  rw [CaptureStore.tryBind] at h
  split at h
  · next hbind =>
    cases h
    exact keeps_bindTranslationInboxItem hbind
  · cases h
    exact Keeps.refl s
  · cases h

theorem keeps_reconcileItem {candidates : List RealtimeUtterance} {s s' : CaptureStore}
    {item : RealtimeTranslationInboxItem}
    (h : CaptureStore.reconcileItem toLowercase candidates s item = .ok s') : Keeps s s' := by
  rw [CaptureStore.reconcileItem] at h
  split at h
  · cases h
    exact Keeps.refl s
  · obtain ⟨⟨bound, left⟩, hbind, h⟩ := bind_eq_ok.mp h
    cases h
    exact keeps_tryBind hbind

theorem keeps_reconcileTranslationInbox {s s' : CaptureStore}
    (h : s.reconcileTranslationInbox toLowercase = .ok s') : Keeps s s' :=
  foldlM_relates Keeps.refl (fun _ _ _ => Keeps.trans) (fun _ _ _ _ => keeps_reconcileItem) h

theorem keeps_applyItems {id : String} {sequence : Nat} {items : List RealtimeTranslationInboxItem}
    {s s' : CaptureStore} {survives : Bool}
    (h : CaptureStore.applyItems id sequence items s = .ok (s', survives)) : Keeps s s' := by
  induction items generalizing s with
  | nil =>
    cases h
    exact Keeps.refl _
  | cons item rest ih =>
    obtain ⟨⟨mid, left⟩, happly, h⟩ := bind_eq_ok.mp h
    have hkeeps := keeps_applyTranslationInbox happly
    dsimp only at h
    split at h
    · cases h
      exact hkeeps
    · exact hkeeps.trans (ih h)

theorem keeps_applyBound {s s' : CaptureStore} {id : String} {sequence : Nat} {survives : Bool}
    (h : s.applyBoundTranslationInboxItems id sequence = .ok (s', survives)) : Keeps s s' :=
  keeps_applyItems h

theorem keeps_detachTranslationInboxItem {s s' : CaptureStore} {item : RealtimeTranslationInboxItem}
    {left : Option RealtimeUtterance} (h : s.detachTranslationInboxItem item = .ok (s', left)) :
    Keeps s s' := by
  obtain ⟨sequence, _, h⟩ := bind_eq_ok.mp h
  obtain ⟨id, _, h⟩ := bind_eq_ok.mp h
  obtain ⟨⟨⟩, _, h⟩ := bind_eq_ok.mp h
  have hunbound := keeps_updateInbox s item.key fun item =>
    { item with boundUtteranceId := none, boundSequence := none }
  dsimp only at h
  split at h
  · cases h
    exact hunbound
  · split at h
    · cases h
      exact hunbound
    · split at h
      · exact hunbound.trans (keeps_applyTranslationInbox h)
      · obtain ⟨⟨mid, visible⟩, hwrite, h⟩ := bind_eq_ok.mp h
        exact hunbound.trans ((keepsShowing_upsertTranslationVariant hwrite).collect (Except.ok.inj h))

theorem keeps_detachItem {s s' : CaptureStore} {item : RealtimeTranslationInboxItem}
    (h : CaptureStore.detachItem s item = .ok s') : Keeps s s' := by
  obtain ⟨⟨mid, left⟩, hdetach, h⟩ := bind_eq_ok.mp h
  cases h
  exact keeps_detachTranslationInboxItem hdetach

theorem keeps_revalidate {s s' : CaptureStore} {id : String} {sequence : Nat}
    (h : s.revalidateBoundTranslationInboxItems toLowercase id sequence = .ok s') : Keeps s s' := by
  obtain ⟨canonical, _, h⟩ := bind_eq_ok.mp h
  exact foldlM_relates Keeps.refl (fun _ _ _ => Keeps.trans) (fun _ _ _ _ => keeps_detachItem) h

theorem keeps_putInboxItem (s : CaptureStore) (key : RealtimeTranslationInboxKey)
    (input : NewRealtimeTranslationInboxItem) : Keeps s (s.putInboxItem key input) := by
  rw [CaptureStore.putInboxItem]
  split
  · exact keeps_updateInbox s key _
  · exact keeps_inbox s _

theorem keeps_applyChangedItem {s s' : CaptureStore} {item : RealtimeTranslationInboxItem}
    (h : s.applyChangedItem toLowercase item = .ok s') : Keeps s s' := by
  unfold CaptureStore.applyChangedItem at h
  split at h
  · split at h
    · split at h
      · exact keeps_detachItem h
      · obtain ⟨⟨mid, left⟩, happly, h⟩ := bind_eq_ok.mp h
        cases h
        exact keeps_applyTranslationInbox happly
    · cases h
      exact keeps_updateInbox s item.key _
  · cases h
    exact Keeps.refl s
  · cases h

theorem keeps_tryBindUnique {s s' : CaptureStore} {key : RealtimeTranslationInboxKey}
    {candidate : Option Nat}
    (h : (match candidate with
      | none => pure s
      | some sequence => do return (← s.tryBind toLowercase key sequence).1 : Except StoreError CaptureStore)
        = .ok s') : Keeps s s' := by
  cases candidate with
  | none =>
    cases h
    exact Keeps.refl s
  | some sequence =>
    obtain ⟨⟨mid, left⟩, hbind, h⟩ := bind_eq_ok.mp h
    cases h
    exact keeps_tryBind hbind

theorem keeps_upsertTranslationInboxItemFromConn {s s' : CaptureStore}
    {input : NewRealtimeTranslationInboxItem}
    (h : s.upsertTranslationInboxItemFromConn toLowercase input = .ok s') : Keeps s s' := by
  rw [CaptureStore.upsertTranslationInboxItemFromConn] at h
  dsimp only at h
  obtain ⟨⟨⟩, _, h⟩ := bind_eq_ok.mp h
  obtain ⟨item, _, h⟩ := bind_eq_ok.mp h
  split at h
  · obtain ⟨mid, happly, h⟩ := bind_eq_ok.mp h
    obtain ⟨item', _, h⟩ := bind_eq_ok.mp h
    have hmid := (keeps_putInboxItem s _ input).trans (keeps_applyChangedItem happly)
    split at h
    · exact hmid.trans (keeps_tryBindUnique h)
    · cases h
      exact hmid
  · obtain ⟨mid, hsame, h⟩ := bind_eq_ok.mp h
    obtain ⟨item', _, h⟩ := bind_eq_ok.mp h
    cases hsame
    split at h
    · exact keeps_tryBindUnique h
    · cases h
      exact Keeps.refl _

theorem keeps_upsertTranslationInboxItem {s s' : CaptureStore} {input : NewRealtimeTranslationInboxItem}
    (h : s.upsertTranslationInboxItem toLowercase input = .ok s') : Keeps s s' := by
  obtain ⟨⟨⟩, _, h⟩ := bind_eq_ok.mp h
  obtain ⟨⟨⟩, _, h⟩ := bind_eq_ok.mp h
  exact keeps_upsertTranslationInboxItemFromConn h

theorem keeps_bindInboxItem {s s' : CaptureStore} {key : RealtimeTranslationInboxKey} {sequence : Nat}
    (h : s.bindInboxItem toLowercase key sequence = .ok s') : Keeps s s' := by
  obtain ⟨⟨⟩, _, h⟩ := bind_eq_ok.mp h
  obtain ⟨⟨⟩, _, h⟩ := bind_eq_ok.mp h
  obtain ⟨⟨mid, left⟩, hbind, h⟩ := bind_eq_ok.mp h
  cases h
  exact keeps_bindTranslationInboxItem hbind

theorem keeps_bindTranslationInboxItemIfUnique {s s' : CaptureStore} {key : RealtimeTranslationInboxKey}
    (h : s.bindTranslationInboxItemIfUnique toLowercase key = .ok s') : Keeps s s' := by
  obtain ⟨⟨⟩, _, h⟩ := bind_eq_ok.mp h
  split at h
  · cases h
    exact Keeps.refl s
  · obtain ⟨⟨⟩, _, h⟩ := bind_eq_ok.mp h
    obtain ⟨item, _, h⟩ := bind_eq_ok.mp h
    split at h
    · cases h
      exact Keeps.refl s
    · exact keeps_tryBindUnique h

theorem keeps_reconcileActive {s s' : CaptureStore}
    (h : s.reconcileActiveTranslationInbox toLowercase = .ok s') : Keeps s s' := by
  obtain ⟨⟨⟩, _, h⟩ := bind_eq_ok.mp h
  exact keeps_reconcileTranslationInbox h

theorem keeps_applyBoundRow {s s' : CaptureStore} {row : String × Nat}
    (h : CaptureStore.applyBoundRow s row = .ok s') : Keeps s s' := by
  obtain ⟨⟨mid, survives⟩, happly, h⟩ := bind_eq_ok.mp h
  cases h
  exact keeps_applyBound happly

theorem keeps_reconcileAfterRecovery {s s' : CaptureStore} {rows : List (String × Nat)}
    (h : s.reconcileTranslationInboxAfterRecovery toLowercase rows = .ok s') : Keeps s s' := by
  obtain ⟨⟨⟩, _, h⟩ := bind_eq_ok.mp h
  obtain ⟨mid, hrows, h⟩ := bind_eq_ok.mp h
  have hmid : Keeps s mid :=
    foldlM_relates Keeps.refl (fun _ _ _ => Keeps.trans) (fun _ _ _ _ => keeps_applyBoundRow) hrows
  exact hmid.trans (keeps_reconcileTranslationInbox h)

end

end Zulangue.Capture
