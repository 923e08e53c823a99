import Zulangue.Context.Compiled

/-!
# Every trusted source is read

A notebook whose packs and sources are trusted is compiled, from all its sources in order.
-/

namespace Zulangue.Context

open Zulangue.Lib.Fallible Zulangue.Lib.Text

theorem forall₂_mapM {ε α β : Type} {f : α → Except ε β} {R : α → β → Prop} {items : List α}
    (h : ∀ a ∈ items, ∃ b, f a = .ok b ∧ R a b) : ∃ bs, items.mapM f = .ok bs ∧ List.Forall₂ R items bs := by
  induction items with
  | nil => exact ⟨[], rfl, .nil⟩
  | cons a rest ih =>
    obtain ⟨b, hb, hR⟩ := h a List.mem_cons_self
    obtain ⟨bs, hbs, hrest⟩ := ih fun c hc => h c (List.mem_cons_of_mem _ hc)
    refine ⟨b :: bs, ?_, .cons hR hrest⟩
    rw [List.mapM_cons, hb, hbs]
    rfl

/-! ## A source -/

section
variable {Key : Type} (P : Primitives Key) (jsonObject : JsonObject)

/-- What was checked when it was stored parses. -/
theorem parseSource_of_valid {input : NewContextSource} (h : validateSource jsonObject input = .ok ())
    (receipt : ContextReceiptSource) :
    ∃ text parsed, fromUtf8 input.content = some text ∧
      parseSource jsonObject receipt input.contentKind text = .ok parsed ∧
      parsed.receipt = receipt ∧ ∀ piece ∈ parsed.texts, piece ≠ "" := by
  rw [validateSource] at h
  obtain ⟨⟨⟩, -, h⟩ := bind_eq_ok.mp h
  obtain ⟨text, htext, h⟩ := bind_eq_ok.mp h
  obtain ⟨⟨⟩, hfilled, h⟩ := bind_eq_ok.mp h
  have htrim : trim text.toList ≠ [] := of_decide_eq_true (ensure_eq_ok.mp hfilled)
  refine ⟨text, ?_⟩
  simp only [orError_eq_ok.mp htext, true_and]
  obtain ⟨title, format, contentKind, content⟩ := input
  cases contentKind with
  | translationTerms =>
    cases format with
    | translationCsv =>
      rw [if_pos ⟨rfl, rfl⟩] at h
      obtain ⟨⟨⟩, -, h⟩ := bind_eq_ok.mp h
      cases hcsv : parseTranslationCsv text.toList with
      | error e =>
        rw [hcsv] at h
        cases h
      | ok csv =>
        simp only [parseSource, hcsv, Except.map]
        exact ⟨_, rfl, rfl, by simp⟩
    | text => cases h
    | markdown => cases h
  | terms =>
    rw [if_neg (by simp)] at h
    split at h
    · cases h
    · obtain ⟨⟨⟩, -, h⟩ := bind_eq_ok.mp h
      cases hterms : parseTerms text with
      | error e =>
        simp only [hterms] at h
        cases h
      | ok terms =>
        simp only [parseSource, hterms, Except.map]
        exact ⟨_, rfl, rfl, by simp⟩
  | general =>
    rw [if_neg (by simp)] at h
    split at h
    · cases h
    · obtain ⟨⟨⟩, -, h⟩ := bind_eq_ok.mp h
      cases hgeneral : parseGeneral jsonObject text with
      | error e =>
        simp only [hgeneral] at h
        cases h
      | ok general =>
        simp only [parseSource, hgeneral, Except.map]
        exact ⟨_, rfl, rfl, by simp⟩
  | text =>
    refine ⟨_, rfl, rfl, ?_⟩
    intro piece hpiece
    rw [List.mem_singleton.mp hpiece]
    simpa using htrim

/-- A source that the store took as it is, and that still is what was stored. -/
structure TrustedSource (key : Key) (source : EncryptedSource) : Prop where
  trusted : source.record.trusted = true
  content : ∃ input : NewContextSource, validateSource jsonObject input = .ok () ∧
    input.contentKind = source.record.contentKind ∧ decryptChunk P source.ciphertext key = some input.content ∧
    P.sha256Hex input.content = source.record.plaintextSha256

theorem readSource_of_trusted {key : Key} {source : EncryptedSource} (h : TrustedSource P jsonObject key source)
    (pack : ContextPackRecord) :
    ∃ parsed, readSource P jsonObject pack key source = .ok parsed ∧
      parsed.origin = ⟨pack.id, source.record.id⟩ ∧ parsed.Fresh := by
  obtain ⟨input, hvalid, hkind, hdecrypt, hdigest⟩ := h.content
  obtain ⟨text, parsed, htext, hparsed, hreceipt, hpieces⟩ :=
    parseSource_of_valid jsonObject hvalid (emptyReceipt pack source.record)
  refine ⟨parsed, ?_, ?_, ?_, ?_, hpieces⟩
  · rw [hkind] at hparsed
    rw [readSource]
    apply bind_eq_ok.mpr ⟨(), ensure_eq_ok.mpr h.trusted, ?_⟩
    apply bind_eq_ok.mpr ⟨_, orError_eq_ok.mpr hdecrypt, ?_⟩
    apply bind_eq_ok.mpr ⟨(), ensure_eq_ok.mpr (decide_eq_true hdigest), ?_⟩
    exact bind_eq_ok.mpr ⟨text, orError_eq_ok.mpr htext, hparsed⟩
  · rw [ParsedSource.origin, hreceipt]
    rfl
  · rw [hreceipt]
    rfl
  · rw [hreceipt]
    rfl

/-! ## A pack -/

namespace PackStore

variable {P jsonObject} {s : PackStore Key}

/-- A live pack whose key is there, with its sources. -/
structure TrustedPack (P : Primitives Key) (jsonObject : JsonObject) (s : PackStore Key)
    (pack : ContextPackRecord) : Prop where
  live : pack.deletedAt = none
  key : ∃ key, s.loadPackKey pack = .ok key ∧
    ∀ source ∈ s.listEncryptedSources pack.id, TrustedSource P jsonObject key source

/-- The origins of the sources of a pack, in their order. -/
def originsOf (s : PackStore Key) (pack : ContextPackRecord) : List CandidateOrigin :=
  (s.listEncryptedSources pack.id).map fun source => ⟨pack.id, source.record.id⟩

theorem readPack_of_trusted {pack : ContextPackRecord} (h : TrustedPack P jsonObject s pack) :
    ∃ parsed, s.readPack P jsonObject pack = .ok parsed ∧
      parsed.map ParsedSource.origin = s.originsOf pack ∧ ∀ source ∈ parsed, source.Fresh := by
  obtain ⟨key, hkey, hsources⟩ := h.key
  obtain ⟨parsed, hparsed, hrelated⟩ := @forall₂_mapM _ _ _ (readSource P jsonObject pack key)
    (fun source parsed => parsed.origin = ⟨pack.id, source.record.id⟩ ∧ parsed.Fresh)
    (s.listEncryptedSources pack.id) fun source hsource => readSource_of_trusted P jsonObject (hsources source hsource) pack
  have hread : s.readPack P jsonObject pack = .ok parsed := by
    apply bind_eq_ok.mpr ⟨(), ensure_eq_ok.mpr (by rw [h.live]; rfl), ?_⟩
    exact bind_eq_ok.mpr ⟨key, hkey, hparsed⟩
  rw [originsOf]
  generalize s.listEncryptedSources pack.id = sources at hrelated
  refine ⟨parsed, hread, ?_, ?_⟩
  · clear hread hparsed
    induction hrelated with
    | nil => rfl
    | cons hhead _ ih => rw [List.map_cons, List.map_cons, hhead.1, ih]
  · intro source hsource
    clear hread hparsed
    induction hrelated with
    | nil => cases hsource
    | cons hhead _ ih =>
      rcases List.mem_cons.mp hsource with rfl | hsource
      · exact hhead.2
      · exact ih hsource

/-! ## The notebook -/

/-- The primary keys of the tables. -/
structure Keyed (s : PackStore Key) : Prop where
  packs : (s.packs.map ContextPackRecord.id).Nodup
  sources : (s.sources.map fun source => source.record.id).Nodup
  bindings : (s.bindings.map fun binding => (binding.notebookId, binding.packId)).Nodup

/-- The packs that are compiled are trusted, and those that are bound belong to the library. -/
structure Trusted (P : Primitives Key) (jsonObject : JsonObject) (s : PackStore Key) (notebookId : String)
    (private_ : ContextPackRecord) : Prop where
  packs : ∀ pack ∈ private_ :: s.listBoundLibraryPacks notebookId, TrustedPack P jsonObject s pack
  library : ∀ pack ∈ s.listBoundLibraryPacks notebookId, pack.scope = .library ∧ pack.ownerNotebookId = none

theorem getPack_eq_some {packId : String} {pack : ContextPackRecord} (h : s.getPack packId = some pack) :
    pack ∈ s.packs ∧ pack.id = packId := by
  have hid := List.find?_some h
  exact ⟨List.mem_of_find?_eq_some h, by simpa using hid⟩

/-- The bound packs are distinct. -/
theorem nodup_boundLibraryPacks (hkeyed : s.Keyed) (notebookId : String) :
    ((s.listBoundLibraryPacks notebookId).map ContextPackRecord.id).Nodup := by
  have hperm := List.perm_insertionSort boundBefore
    (s.bindings.filter fun binding => binding.notebookId = notebookId)
  have hids : (((s.bindings.filter fun binding => binding.notebookId = notebookId).insertionSort boundBefore).map
      PackBinding.packId).Nodup := by
    rw [(hperm.map PackBinding.packId).nodup_iff]
    have hpairs := hkeyed.bindings
    rw [List.Nodup, List.pairwise_map] at hpairs ⊢
    have hfiltered := hpairs.filter fun binding => decide (binding.notebookId = notebookId)
    apply hfiltered.imp_of_mem
    intro a b ha hb hab heq
    have hnotebook : a.notebookId = b.notebookId := by
      simp only [List.mem_filter, decide_eq_true_eq] at ha hb
      rw [ha.2, hb.2]
    exact hab (by rw [hnotebook, heq])
  apply List.Nodup.sublist _ hids
  rw [listBoundLibraryPacks]
  generalize (s.bindings.filter fun binding => binding.notebookId = notebookId).insertionSort boundBefore = bindings
  induction bindings with
  | nil => exact List.Sublist.slnil
  | cons binding bindings ih =>
    cases hpack : s.getPack binding.packId with
    | none =>
      simp only [List.filterMap_cons, hpack]
      exact ih.cons _
    | some pack =>
      simp only [List.filterMap_cons, hpack, List.map_cons, (getPack_eq_some hpack).2]
      exact ih.cons_cons _

/-- A row that is in the table is the one found by its id. -/
theorem getPack_of_mem (hkeyed : s.Keyed) {pack : ContextPackRecord} (h : pack ∈ s.packs) :
    s.getPack pack.id = some pack := by
  have hpacks := hkeyed.packs
  rw [getPack]
  generalize s.packs = packs at h hpacks
  induction packs with
  | nil => cases h
  | cons row rows ih =>
    rw [List.map_cons, List.nodup_cons] at hpacks
    rcases List.mem_cons.mp h with rfl | h
    · simp
    · have hne : row.id ≠ pack.id := fun heq => hpacks.1 (heq ▸ List.mem_map_of_mem h)
      rw [List.find?_cons_of_neg (by simpa using hne)]
      exact ih h hpacks.2

theorem nodup_listEncryptedSources (hkeyed : s.Keyed) (packId : String) :
    ((s.listEncryptedSources packId).map fun source => source.record.id).Nodup := by
  rw [listEncryptedSources, ((List.perm_insertionSort createdBefore _).map _).nodup_iff]
  exact List.Nodup.sublist (List.filter_sublist.map _) hkeyed.sources

/-- The sources of distinct packs have distinct origins. -/
theorem nodup_origins (hkeyed : s.Keyed) {packs : List ContextPackRecord}
    (h : (packs.map ContextPackRecord.id).Nodup) : (packs.flatMap s.originsOf).Nodup := by
  induction packs with
  | nil => exact List.nodup_nil
  | cons pack packs ih =>
    rw [List.map_cons, List.nodup_cons] at h
    rw [List.flatMap_cons, List.nodup_append']
    refine ⟨?_, ih h.2, ?_⟩
    · have hids := nodup_listEncryptedSources hkeyed pack.id
      rw [originsOf]
      rw [List.Nodup, List.pairwise_map] at hids ⊢
      exact hids.imp fun hne heq => hne (CandidateOrigin.mk.inj heq).2
    · intro origin hhere hthere
      obtain ⟨other, hother, horigin⟩ := List.mem_flatMap.mp hthere
      obtain ⟨source, -, rfl⟩ := List.mem_map.mp hhere
      obtain ⟨source', -, heq⟩ := List.mem_map.mp horigin
      have hid : other.id = pack.id := (CandidateOrigin.mk.inj heq).1
      exact h.1 (hid ▸ List.mem_map_of_mem hother)

theorem getPrivatePack_eq_some {notebookId : String} {pack : ContextPackRecord}
    (h : s.getPrivatePack notebookId = some pack) :
    pack ∈ s.packs ∧ pack.scope = .private_ ∧ pack.ownerNotebookId = some notebookId := by
  have hpack := List.find?_some h
  simp only [Bool.and_eq_true, decide_eq_true_eq] at hpack
  exact ⟨List.mem_of_find?_eq_some h, hpack.1.1, hpack.1.2⟩

/-- The private pack of a notebook is there or is created. -/
theorem ensurePrivatePack_eq_ok (hkeyed : s.Keyed) {fresh : Fresh Key} {notebookId : String}
    {s' : PackStore Key} {private_ : ContextPackRecord}
    (h : s.ensurePrivatePack fresh notebookId = (s', .ok private_)) :
    s'.Keyed ∧ private_ ∈ s'.packs ∧ private_.scope = .private_ ∧ private_.ownerNotebookId = some notebookId := by
  rw [ensurePrivatePack] at h
  split at h
  · cases h
  · split at h
    · next existing hexisting =>
      cases h
      exact ⟨hkeyed, getPrivatePack_eq_some hexisting⟩
    · split at h
      · cases h
      · rw [createPack, if_neg (by simp)] at h
        simp only at h
        split at h
        · cases h
        · split at h
          · next haccepted =>
            cases h
            refine ⟨⟨?_, hkeyed.sources, hkeyed.bindings⟩, by simp, rfl, rfl⟩
            have hids : ∀ row ∈ s.packs, row.id ≠ fresh.id := by
              intro row hrow
              have haccepts := (Bool.and_eq_true_iff.mp haccepted).2
              rw [acceptsPack, List.all_eq_true] at haccepts
              have hrow' := haccepts row hrow
              simp only [Bool.and_eq_true, decide_eq_true_eq, ne_eq] at hrow'
              exact hrow'.1.1
            change ((s.packs ++ [_]).map ContextPackRecord.id).Nodup
            rw [List.map_append, List.nodup_append']
            refine ⟨hkeyed.packs, by simp, ?_⟩
            intro id hid hnew
            obtain ⟨row, hrow, rfl⟩ := List.mem_map.mp hid
            exact hids row hrow (by simpa using hnew)
          · split at h <;> cases h

/-- What the packs give, as one list. -/
theorem origin_flatten {packs : List ContextPackRecord} {parsed : List (List ParsedSource)}
    (h : List.Forall₂ (fun pack parsed => parsed.map ParsedSource.origin = s.originsOf pack ∧
      ∀ source ∈ parsed, ParsedSource.Fresh source) packs parsed) :
    parsed.flatten.map ParsedSource.origin = packs.flatMap s.originsOf ∧
      ∀ source ∈ parsed.flatten, source.Fresh := by
  induction h with
  | nil => simp
  | cons hhead _ ih =>
    rw [List.flatten_cons, List.map_append, List.flatMap_cons, hhead.1, ih.1]
    refine ⟨rfl, ?_⟩
    intro source hsource
    rcases List.mem_append.mp hsource with hsource | hsource
    · exact hhead.2 source hsource
    · exact ih.2 source hsource

theorem gather_of_trusted (hkeyed : s.Keyed) {notebookId : String} {private_ : ContextPackRecord}
    (hmem : private_ ∈ s.packs) (hscope : private_.scope = .private_)
    (howner : private_.ownerNotebookId = some notebookId) (h : s.Trusted P jsonObject notebookId private_) :
    ∃ parsed, s.gather P jsonObject notebookId private_ = .ok parsed ∧
      (parsed.map ParsedSource.origin).Nodup ∧ ∀ source ∈ parsed, source.Fresh := by
  obtain ⟨parsed, hparsed, hrelated⟩ := @forall₂_mapM _ _ _ (s.readPack P jsonObject)
    (fun pack parsed => parsed.map ParsedSource.origin = s.originsOf pack ∧ ∀ source ∈ parsed, source.Fresh)
    (private_ :: s.listBoundLibraryPacks notebookId) fun pack hpack => readPack_of_trusted (h.packs pack hpack)
  have hbound : ∀ bound : List ContextPackRecord, (∀ pack ∈ bound, checkBound pack = .ok ()) →
      bound.forM checkBound = .ok () := by
    intro bound hbound
    induction bound with
    | nil => rfl
    | cons pack bound ih =>
      have hhead := hbound pack (by simp)
      have hrest := ih fun other hother => hbound other (List.mem_cons_of_mem _ hother)
      exact bind_eq_ok.mpr ⟨(), hhead, hrest⟩
  have hchecked : (s.listBoundLibraryPacks notebookId).forM checkBound = .ok () := by
    apply hbound
    intro pack hpack
    have hlibrary := h.library pack hpack
    have hlive := (h.packs pack (List.mem_cons_of_mem _ hpack)).live
    apply bind_eq_ok.mpr ⟨(), ensure_eq_ok.mpr (by simp [hlibrary]), ?_⟩
    exact ensure_eq_ok.mpr (by simp [hlive])
  have hgather : s.gather P jsonObject notebookId private_ = .ok parsed.flatten := by
    apply bind_eq_ok.mpr ⟨(), ensure_eq_ok.mpr (decide_eq_true howner), ?_⟩
    apply bind_eq_ok.mpr ⟨(), hchecked, ?_⟩
    exact bind_eq_ok.mpr ⟨parsed, hparsed, rfl⟩
  have hprivate : private_.id ∉ (s.listBoundLibraryPacks notebookId).map ContextPackRecord.id := by
    intro hid
    obtain ⟨pack, hpack, heq⟩ := List.mem_map.mp hid
    obtain ⟨binding, -, hget⟩ := List.mem_filterMap.mp hpack
    have hsame : pack = private_ := by
      have hone := getPack_of_mem hkeyed hmem
      have htwo := getPack_of_mem hkeyed (getPack_eq_some hget).1
      rw [heq, hone] at htwo
      exact (Option.some.inj htwo).symm
    have hlibrary := (h.library pack hpack).1
    rw [hsame, hscope] at hlibrary
    cases hlibrary
  have hids : ((private_ :: s.listBoundLibraryPacks notebookId).map ContextPackRecord.id).Nodup := by
    rw [List.map_cons, List.nodup_cons]
    exact ⟨hprivate, nodup_boundLibraryPacks hkeyed notebookId⟩
  obtain ⟨horigins, hfresh⟩ := origin_flatten hrelated
  exact ⟨parsed.flatten, hgather, horigins ▸ nodup_origins hkeyed hids, hfresh⟩

end PackStore

end

/-! ## A notebook with one note -/

namespace OneNote

/-- A cipher that keeps the bytes, and a digest of nothing. -/
def primitives : Primitives Unit where
  encrypt _ _ plaintext := some plaintext
  decrypt _ _ ciphertext := some ciphertext
  sha256Hex _ := ""
  contextToJson _ := ""
  contextFromJson _ := none
  receiptToJson _ := ""
  receiptFromJson _ := none

def pack : ContextPackRecord :=
  { id := "p", scope := .private_, ownerNotebookId := some "n", title := "Private Context",
    keyRef := packKeyRef "p", revision := 0, createdAt := "", updatedAt := "", deletedAt := none }

def source : EncryptedSource :=
  { record :=
      { id := "s", packId := "p", title := "Note", format := .text, contentKind := .text, plaintextSha256 := "",
        plaintextBytes := 12, trusted := true, revision := 0, createdAt := "", updatedAt := "", deletedAt := none }
    ciphertext := List.replicate 12 0 ++ bytesOf "say \"hello\"" }

def store : PackStore Unit :=
  { notebooks := ["n"], packs := [pack], sources := [source], bindings := [],
    keys := fun keyRef => if keyRef = packKeyRef "p" then some () else none }

def fresh : PackStore.Fresh Unit :=
  { id := "f", key := (), now := "", keyWritten := true, rowWritten := true, keyDropped := true }

theorem store_trusted : store.Trusted primitives (fun _ => none) "n" pack := by
  have hbound : store.listBoundLibraryPacks "n" = [] := rfl
  have hsources : store.listEncryptedSources "p" = [source] := by decide
  refine ⟨?_, ?_⟩
  · intro p hp
    rw [hbound, List.mem_singleton] at hp
    subst hp
    refine ⟨rfl, (), by decide, ?_⟩
    intro q hq
    rw [pack, hsources, List.mem_singleton] at hq
    subst hq
    refine ⟨rfl, ⟨"Note", .text, .text, bytesOf "say \"hello\""⟩, ?_, rfl, rfl, rfl⟩
    apply bind_eq_ok.mpr ⟨(), by decide, ?_⟩
    apply bind_eq_ok.mpr ⟨_, orError_eq_ok.mpr (fromUtf8_bytesOf _), ?_⟩
    apply bind_eq_ok.mpr ⟨(), by decide, ?_⟩
    rw [if_neg (by decide), if_neg (by decide)]
    exact bind_eq_ok.mpr ⟨(), by decide, rfl⟩
  · intro p hp
    rw [hbound] at hp
    cases hp

end OneNote

end Zulangue.Context
