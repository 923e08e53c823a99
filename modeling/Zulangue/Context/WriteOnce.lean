import Mathlib.Data.List.Nodup
import Zulangue.Context.Snapshot

/-!
# Run snapshots are written once

As long as the key of a snapshot is only written for a run that has neither a snapshot nor a
call under way, what was persisted can be read back in every later state, and a refused call
leaves the rows and the keys as they were.
-/

namespace Zulangue.Context

open Zulangue.Lib Zulangue.Lib.Fallible

namespace ContextPackStore

variable {Key : Type} {P : Primitives Key} {s s' : ContextPackStore Key}

/-! ## What a run relies on -/

/-- The run has no snapshot, no key under the name of one and no call under way. -/
structure Unclaimed (s : ContextPackStore Key) (runId : String) : Prop where
  row : ∀ row ∈ s.runs, row.id = runId → row.contextSnapshot = none
  key : s.keys (snapshotKeyRef runId) = none
  calls : ∀ i call, s.calls i = some call → call.runId ≠ runId

/-- A key is only written for an unclaimed run, what is persisted can be encrypted, and the
key store does not refuse to drop a key. -/
def Admissible (P : Primitives Key) (s : ContextPackStore Key) : Op Key → Prop
  | .beginPersist runId compilation key written =>
    s.beginPersist P runId compilation key written matches .ok _ → s.Unclaimed runId
  | .writeSnapshot i nonce _ => ∀ call, s.calls i = some call →
    (encryptChunk P (bytesOf call.compilation.contextJson) call.key nonce).isSome
  | .dropSnapshotKey _ dropped => dropped
  | _ => True

def AdmissibleStep (P : Primitives Key) (s : ContextPackStore Key) (op : Op Key) (s' : ContextPackStore Key) : Prop :=
  s.Admissible P op ∧ ∃ result, s.step P op = some (s', result)

/-- A call under way holds the key of a run that has no snapshot. -/
structure CallOk (P : Primitives Key) (s : ContextPackStore Key) (i : Nat) (call : PersistCall Key) : Prop where
  issued : i < s.nextCall
  key : s.keys (snapshotKeyRef call.runId) = some call.key
  identifier : validIdentifier (snapshotKeyRef call.runId) = true
  valid : validateCompilation P call.compilation = .ok ()
  row : ∀ row ∈ s.runs, row.id = call.runId → row.contextSnapshot = none

structure StoreOk (P : Primitives Key) (s : ContextPackStore Key) : Prop where
  runs : (s.runs.map (·.id)).Nodup
  packs : ∀ pack ∈ s.packs, pack.keyRef = packKeyRef pack.id
  calls : ∀ i call, s.calls i = some call → CallOk P s i call
  distinct : ∀ i j call call', s.calls i = some call → s.calls j = some call' → call.runId = call'.runId → i = j

/-- The row and the key of the run's snapshot fit the compilation. -/
structure Readable (P : Primitives Key) (s : ContextPackStore Key) (runId : String) (c : ContextCompilation)
    (row : CaptureRunRow) (ciphertext : List UInt8) (key : Key) : Prop where
  mem : row ∈ s.runs
  id : row.id = runId
  receipt : row.contextReceiptJson = some (P.receiptToJson c.receipt)
  snapshot : row.contextSnapshot =
    some { ciphertext, keyRef := snapshotKeyRef runId, sha256 := c.receipt.contextSha256 }
  stored : s.keys (snapshotKeyRef runId) = some key
  identifier : validIdentifier (snapshotKeyRef runId) = true
  decrypts : decryptChunk P ciphertext key = some (bytesOf c.contextJson)
  valid : validateCompilation P c = .ok ()

def Persisted (P : Primitives Key) (s : ContextPackStore Key) (runId : String) (c : ContextCompilation) : Prop :=
  ∃ row ciphertext key, Readable P s runId c row ciphertext key

theorem findRun_eq (hruns : (s.runs.map (·.id)).Nodup) {row : CaptureRunRow} (hrow : row ∈ s.runs) :
    s.findRun row.id = some row := by
  rw [findRun]
  cases hfind : s.runs.find? (·.id = row.id) with
  | none => exact absurd (decide_eq_true rfl) (List.find?_eq_none.mp hfind row hrow)
  | some other =>
    have hid : other.id = row.id := of_decide_eq_true (List.find?_some hfind :)
    rw [List.inj_on_of_nodup_map hruns (List.mem_of_find?_eq_some hfind) hrow hid]

theorem Persisted.load (hs : StoreOk P s) {runId : String} {c : ContextCompilation} (hc : P.ReadsBack c)
    (h : Persisted P s runId c) : s.loadRunSnapshot P runId = .ok (some c) := by
  obtain ⟨row, ciphertext, key, h⟩ := h
  obtain ⟨hjson, hdigest⟩ := validateCompilation_eq_ok P h.valid
  have hfind : s.findRun runId = some row := h.id ▸ findRun_eq hs.runs h.mem
  have hkey : s.loadKey (snapshotKeyRef runId) = some key := by
    rw [loadKey, if_pos h.identifier, h.stored]
  have hcontext : P.contextFromJson c.contextJson = some c.context := hjson ▸ hc.context
  rw [loadRunSnapshot, hfind]
  dsimp only
  rw [h.receipt, h.snapshot]
  simp [hkey, h.decrypts, hdigest, hcontext, hc.receipt, h.valid, orError, ensure, bind, Except.bind, pure,
    Except.pure]

/-! ## Steps that leave snapshots alone -/

/-- No snapshot, no call and no key of a snapshot changes. -/
structure Keeps (s s' : ContextPackStore Key) : Prop where
  rows : ∃ f : CaptureRunRow → CaptureRunRow, s'.runs = s.runs.map f ∧ ∀ row, (f row).id = row.id ∧
    (f row).contextReceiptJson = row.contextReceiptJson ∧ (f row).contextSnapshot = row.contextSnapshot
  calls : s'.calls = s.calls
  nextCall : s'.nextCall = s.nextCall
  keys : ∀ runId, s'.keys (snapshotKeyRef runId) = s.keys (snapshotKeyRef runId)
  packs : ∀ pack ∈ s'.packs, pack.keyRef = packKeyRef pack.id

theorem Keeps.row_snapshot (h : Keeps s s') {runId : String}
    (hrow : ∀ row ∈ s.runs, row.id = runId → row.contextSnapshot = none) :
    ∀ row ∈ s'.runs, row.id = runId → row.contextSnapshot = none := by
  obtain ⟨f, hruns, hf⟩ := h.rows
  intro row' hrow' hid
  rw [hruns] at hrow'
  obtain ⟨row, hmem, rfl⟩ := List.mem_map.mp hrow'
  rw [(hf row).2.2]
  exact hrow row hmem ((hf row).1.symm.trans hid)

theorem Keeps.storeOk (h : Keeps s s') (hs : StoreOk P s) : StoreOk P s' := by
  constructor
  · obtain ⟨f, hruns, hf⟩ := h.rows
    have hids : (s.runs.map f).map (·.id) = s.runs.map (·.id) := by
      rw [List.map_map]
      exact List.map_congr_left fun row _ => (hf row).1
    rw [hruns, hids]
    exact hs.runs
  · exact h.packs
  · intro i call hcall
    rw [h.calls] at hcall
    have hok := hs.calls i call hcall
    exact ⟨h.nextCall ▸ hok.issued, (h.keys call.runId).trans hok.key, hok.identifier, hok.valid,
      h.row_snapshot hok.row⟩
  · intro i j call call' hcall hcall'
    rw [h.calls] at hcall hcall'
    exact hs.distinct i j call call' hcall hcall'

theorem Keeps.persisted (h : Keeps s s') {runId : String} {c : ContextCompilation} (hc : Persisted P s runId c) :
    Persisted P s' runId c := by
  obtain ⟨row, ciphertext, key, hc⟩ := hc
  obtain ⟨f, hruns, hf⟩ := h.rows
  obtain ⟨hid, hreceipt, hsnapshot⟩ := hf row
  exact ⟨f row, ciphertext, key, hruns ▸ List.mem_map_of_mem hc.mem, hid.trans hc.id, hreceipt.trans hc.receipt,
    hsnapshot.trans hc.snapshot, (h.keys runId).trans hc.stored, hc.identifier, hc.decrypts, hc.valid⟩

theorem keeps_of_packs {packs : List ContextPackRow} {sources : List ContextSourceRow} {keys : String → Option Key}
    (hkeys : ∀ runId, keys (snapshotKeyRef runId) = s.keys (snapshotKeyRef runId))
    (hpacks : ∀ pack ∈ packs, pack.keyRef = packKeyRef pack.id) :
    Keeps s { s with packs, sources, keys } :=
  ⟨⟨id, (List.map_id _).symm, fun _ => ⟨rfl, rfl, rfl⟩⟩, rfl, rfl, hkeys, hpacks⟩

theorem keeps_updateRun (hs : StoreOk P s) (runId : String) {f : CaptureRunRow → CaptureRunRow}
    (hf : ∀ row, (f row).id = row.id ∧ (f row).contextReceiptJson = row.contextReceiptJson ∧
      (f row).contextSnapshot = row.contextSnapshot) : Keeps s (s.updateRun runId f) := by
  refine ⟨⟨_, rfl, ?_⟩, rfl, rfl, fun _ => rfl, hs.packs⟩
  intro row
  split
  · exact hf row
  · exact ⟨rfl, rfl, rfl⟩

/-- Keys under the name of a Pack are not those of a snapshot. -/
theorem setPackKey_keys (packId : String) (key : Option Key) (runId : String) :
    (s.setKey (packKeyRef packId) key).keys (snapshotKeyRef runId) = s.keys (snapshotKeyRef runId) :=
  setKey_of_ne s (packKeyRef_ne packId runId).symm key

theorem packs_updated (hs : StoreOk P s) (packId : String) {f : ContextPackRow → ContextPackRow}
    (hf : ∀ pack, (f pack).id = pack.id ∧ (f pack).keyRef = pack.keyRef) :
    ∀ pack ∈ (s.updatePack packId f).packs, pack.keyRef = packKeyRef pack.id := by
  intro pack' hpack'
  obtain ⟨pack, hpack, rfl⟩ := List.mem_map.mp hpack'
  split
  · rw [(hf pack).2, (hf pack).1]
    exact hs.packs pack hpack
  · exact hs.packs pack hpack

theorem keeps_createPack (hs : StoreOk P s) (id : String) (scope : ContextPackScope) (key : Key)
    (stored inserted dropped : Bool) : Keeps s (s.createPack id scope key stored inserted dropped) := by
  rw [createPack]
  split
  · exact keeps_of_packs (fun _ => rfl) hs.packs
  · split
    · refine keeps_of_packs (setPackKey_keys id (some key)) ?_
      intro pack hpack
      cases List.mem_append.mp hpack with
      | inl hpack => exact hs.packs pack hpack
      | inr hpack =>
        obtain rfl := List.mem_singleton.mp hpack
        rfl
    · exact keeps_of_packs (setPackKey_keys id (if dropped then none else some key)) hs.packs

theorem keeps_discardPack (hs : StoreOk P s) {pack : ContextPackRow} (hpack : pack ∈ s.packs) (deleted dropped : Bool) :
    Keeps s (s.discardPack pack deleted dropped) := by
  have hpacks : ∀ other ∈ s.packs.filter (·.id ≠ pack.id), other.keyRef = packKeyRef other.id :=
    fun other hother => hs.packs other (List.mem_of_mem_filter hother)
  have hkeys := setPackKey_keys (s := s) pack.id none
  rw [discardPack, hs.packs pack hpack]
  cases deleted <;> cases dropped
  · exact keeps_of_packs (fun _ => rfl) hs.packs
  · exact keeps_of_packs hkeys hs.packs
  · exact keeps_of_packs (fun _ => rfl) hpacks
  · exact keeps_of_packs hkeys hpacks

theorem keeps_deleteLibraryPack (hs : StoreOk P s) (packId : String) (expectedRevision : Nat) (dropped written : Bool) :
    Keeps s (s.deleteLibraryPack packId expectedRevision dropped written).1 := by
  have hsame : Keeps s s := keeps_of_packs (fun _ => rfl) hs.packs
  rw [deleteLibraryPack]
  split
  · exact hsame
  · next pack hfind =>
    have hpack := hs.packs pack (List.mem_of_find?_eq_some hfind)
    split
    · exact hsame
    · split
      · exact hsame
      · split
        · exact hsame
        · have hkeys := setPackKey_keys (s := s) pack.id none
          rw [hpack]
          split
          · exact keeps_of_packs hkeys hs.packs
          · refine keeps_of_packs hkeys ?_
            exact packs_updated hs packId (s := s) fun _ => ⟨rfl, rfl⟩

theorem keeps_markContextApplied (hs : StoreOk P s) {runId expectedSha256 now appliedAt : String}
    (h : s.markContextApplied runId expectedSha256 now = .ok (appliedAt, s')) : Keeps s s' := by
  rw [markContextApplied] at h
  obtain ⟨⟨⟩, -, h⟩ := bind_eq_ok.mp h
  obtain ⟨row, -, h⟩ := bind_eq_ok.mp h
  obtain ⟨⟨⟩, -, h⟩ := bind_eq_ok.mp h
  cases happlied : row.contextAppliedAt with
  | some first =>
    rw [happlied] at h
    obtain ⟨-, rfl⟩ := Prod.mk.inj (Except.ok.inj h)
    exact keeps_of_packs (fun _ => rfl) hs.packs
  | none =>
    rw [happlied] at h
    obtain ⟨⟨⟩, -, h⟩ := bind_eq_ok.mp h
    obtain ⟨-, rfl⟩ := Prod.mk.inj (Except.ok.inj h)
    exact keeps_updateRun hs runId fun _ => ⟨rfl, rfl, rfl⟩

/-! ## Steps of a call -/

/-- No call is under way for the run. -/
def Idle (s : ContextPackStore Key) (runId : String) : Prop := ∀ i call, s.calls i = some call → call.runId ≠ runId

theorem storeOk_setKey (hs : StoreOk P s) {runId : String} (hidle : s.Idle runId) (key : Option Key) :
    StoreOk P (s.setKey (snapshotKeyRef runId) key) := by
  refine ⟨hs.runs, hs.packs, ?_, hs.distinct⟩
  intro i call hcall
  have hok := hs.calls i call hcall
  have hne : snapshotKeyRef call.runId ≠ snapshotKeyRef runId := fun h => hidle i call hcall (snapshotKeyRef_inj h)
  exact ⟨hok.issued, (setKey_of_ne s hne key).trans hok.key, hok.identifier, hok.valid, hok.row⟩

theorem storeOk_updateRun (hs : StoreOk P s) {runId : String} (hidle : s.Idle runId)
    {f : CaptureRunRow → CaptureRunRow} (hf : ∀ row, (f row).id = row.id) : StoreOk P (s.updateRun runId f) := by
  have hid : ∀ row : CaptureRunRow, (if row.id = runId then f row else row).id = row.id := by
    intro row
    split
    · exact hf row
    · rfl
  refine ⟨?_, hs.packs, ?_, hs.distinct⟩
  · have hids : (s.updateRun runId f).runs.map (·.id) = s.runs.map (·.id) := by
      rw [updateRun, List.map_map]
      exact List.map_congr_left fun row _ => hid row
    rw [hids]
    exact hs.runs
  · intro i call hcall
    have hok := hs.calls i call hcall
    refine ⟨hok.issued, hok.key, hok.identifier, hok.valid, ?_⟩
    intro row' hrow' hrowId
    obtain ⟨row, hrow, rfl⟩ := List.mem_map.mp hrow'
    have hrowId : row.id = call.runId := (hid row).symm.trans hrowId
    rw [if_neg fun h => hidle i call hcall (hrowId.symm.trans h)]
    exact hok.row row hrow hrowId

/-- A call returns, or notes why its row was refused. -/
theorem storeOk_setCall (hs : StoreOk P s) (i : Nat) {value : Option (PersistCall Key)}
    (hvalue : ∀ call', value = some call' → ∃ call, s.calls i = some call ∧ call'.runId = call.runId ∧
      call'.compilation = call.compilation ∧ call'.key = call.key) : StoreOk P (s.setCall i value) := by
  -- Each call there is was there before, up to its failure.
  have hback : ∀ j call', (s.setCall i value).calls j = some call' → ∃ call, s.calls j = some call ∧
      call'.runId = call.runId ∧ call'.compilation = call.compilation ∧ call'.key = call.key := by
    intro j call' hcall
    by_cases hj : j = i
    · subst hj
      rw [setCall_self] at hcall
      exact hvalue call' hcall
    · rw [setCall_of_ne _ hj] at hcall
      exact ⟨call', hcall, rfl, rfl, rfl⟩
  refine ⟨hs.runs, hs.packs, ?_, ?_⟩
  · intro j call' hcall
    obtain ⟨call, hold, hrun, hcompilation, hkey⟩ := hback j call' hcall
    have hok := hs.calls j call hold
    refine ⟨hok.issued, ?_, hrun ▸ hok.identifier, hcompilation ▸ hok.valid, hrun ▸ hok.row⟩
    rw [hrun, hkey]
    exact hok.key
  · intro j k call' call'' hj hk hrun
    obtain ⟨call, hold, hcall, -⟩ := hback j call' hj
    obtain ⟨other, hold', hother, -⟩ := hback k call'' hk
    exact hs.distinct j k call other hold hold' (hcall.symm.trans (hrun.trans hother))

theorem idle_setCall (hs : StoreOk P s) {i : Nat} {call : PersistCall Key} (hcall : s.calls i = some call) :
    (s.setCall i none).Idle call.runId := by
  intro j other hother hrun
  by_cases hj : j = i
  · subst hj
    rw [setCall_self] at hother
    cases hother
  · rw [setCall_of_ne _ hj] at hother
    exact hj (hs.distinct j i other call hother hcall hrun)

theorem persisted_setKey {runId other : String} {c : ContextCompilation} (hc : Persisted P s other c)
    (hne : other ≠ runId) (key : Option Key) : Persisted P (s.setKey (snapshotKeyRef runId) key) other c := by
  obtain ⟨row, ciphertext, key', hc⟩ := hc
  have href : snapshotKeyRef other ≠ snapshotKeyRef runId := fun h => hne (snapshotKeyRef_inj h)
  exact ⟨row, ciphertext, key', hc.mem, hc.id, hc.receipt, hc.snapshot,
    (setKey_of_ne s href key).trans hc.stored, hc.identifier, hc.decrypts, hc.valid⟩

theorem persisted_updateRun {runId other : String} {c : ContextCompilation} (hc : Persisted P s other c)
    (hne : other ≠ runId) (f : CaptureRunRow → CaptureRunRow) : Persisted P (s.updateRun runId f) other c := by
  obtain ⟨row, ciphertext, key, hc⟩ := hc
  refine ⟨row, ciphertext, key, ?_, hc.id, hc.receipt, hc.snapshot, hc.stored, hc.identifier, hc.decrypts, hc.valid⟩
  exact List.mem_map.mpr ⟨row, hc.mem, if_neg fun h => hne (hc.id.symm.trans h)⟩

theorem persisted_setCall {other : String} {c : ContextCompilation} (hc : Persisted P s other c) (i : Nat)
    (value : Option (PersistCall Key)) : Persisted P (s.setCall i value) other c := by
  obtain ⟨row, ciphertext, key, hc⟩ := hc
  exact ⟨row, ciphertext, key, hc.mem, hc.id, hc.receipt, hc.snapshot, hc.stored, hc.identifier, hc.decrypts, hc.valid⟩

/-- A run with a call under way has no snapshot yet. -/
theorem Persisted.ne_runId (hs : StoreOk P s) {i : Nat} {call : PersistCall Key} (hcall : s.calls i = some call)
    {runId : String} {c : ContextCompilation} (hc : Persisted P s runId c) : runId ≠ call.runId := by
  rintro rfl
  obtain ⟨row, ciphertext, key, hc⟩ := hc
  have hnone := (hs.calls i call hcall).row row hc.mem hc.id
  rw [hc.snapshot] at hnone
  cases hnone

/-- What the write of the key starts. -/
theorem beginPersist_eq_ok {runId : String} {compilation : ContextCompilation} {key : Key} {written : Bool}
    (h : s.beginPersist P runId compilation key written = .ok s') :
    validateCompilation P compilation = .ok () ∧ validIdentifier (snapshotKeyRef runId) = true ∧
      s' = { (s.setKey (snapshotKeyRef runId) (some key)).setCall s.nextCall
          (some { runId, compilation, key, failure := none }) with nextCall := s.nextCall + 1 } := by
  rw [beginPersist] at h
  obtain ⟨⟨⟩, hvalid, h⟩ := bind_eq_ok.mp h
  obtain ⟨⟨⟩, hwritten, h⟩ := bind_eq_ok.mp h
  have hidentifier := (Bool.and_eq_true_iff.mp (ensure_eq_ok.mp hwritten)).1
  exact ⟨hvalid, hidentifier, (Except.ok.inj h).symm⟩

theorem storeOk_beginPersist (hs : StoreOk P s) {runId : String} {compilation : ContextCompilation} {key : Key}
    {written : Bool} (hunclaimed : s.Unclaimed runId)
    (h : s.beginPersist P runId compilation key written = .ok s') : StoreOk P s' := by
  obtain ⟨hvalid, hidentifier, rfl⟩ := beginPersist_eq_ok h
  let keyed := s.setKey (snapshotKeyRef runId) (some key)
  let begun : PersistCall Key := { runId, compilation, key, failure := none }
  have hkeyed : StoreOk P keyed := storeOk_setKey hs hunclaimed.calls (some key)
  have hcases : ∀ i call, (keyed.setCall s.nextCall (some begun)).calls i = some call →
      i = s.nextCall ∧ call = begun ∨ s.calls i = some call := by
    intro i call hcall
    by_cases hi : i = s.nextCall
    · subst hi
      rw [setCall_self] at hcall
      exact .inl ⟨rfl, (Option.some.inj hcall).symm⟩
    · rw [setCall_of_ne _ hi] at hcall
      exact .inr hcall
  refine ⟨hs.runs, hs.packs, ?_, ?_⟩
  · intro i call hcall
    cases hcases i call hcall with
    | inl hnew =>
      obtain ⟨rfl, rfl⟩ := hnew
      exact ⟨Nat.lt_succ_self _, setKey_self s _ _, hidentifier, hvalid, hunclaimed.row⟩
    | inr hold =>
      have hok := hkeyed.calls i call hold
      exact ⟨Nat.lt_succ_of_lt hok.issued, hok.key, hok.identifier, hok.valid, hok.row⟩
  · intro i j call call' hcall hcall' hrun
    cases hcases i call hcall with
    | inl hnew =>
      obtain ⟨rfl, rfl⟩ := hnew
      cases hcases j call' hcall' with
      | inl hnew' => exact hnew'.1.symm
      | inr hold' => exact absurd hrun.symm (hunclaimed.calls j call' hold')
    | inr hold =>
      cases hcases j call' hcall' with
      | inl hnew' =>
        obtain ⟨rfl, rfl⟩ := hnew'
        exact absurd hrun (hunclaimed.calls i call hold)
      | inr hold' => exact hs.distinct i j call call' hold hold' hrun

theorem persisted_beginPersist {runId other : String} {c compilation : ContextCompilation} {key : Key} {written : Bool}
    (hunclaimed : s.Unclaimed runId) (h : s.beginPersist P runId compilation key written = .ok s')
    (hc : Persisted P s other c) : Persisted P s' other c := by
  obtain ⟨-, -, rfl⟩ := beginPersist_eq_ok h
  have hne : other ≠ runId := by
    rintro rfl
    obtain ⟨row, ciphertext, key, hc⟩ := hc
    have hnone := hunclaimed.key
    rw [hc.stored] at hnone
    cases hnone
  obtain ⟨row, ciphertext, key', hc⟩ := persisted_setKey hc hne (some key)
  exact ⟨row, ciphertext, key', hc.mem, hc.id, hc.receipt, hc.snapshot, hc.stored, hc.identifier, hc.decrypts, hc.valid⟩

/-- The three ways in which the write of the row ends, where the snapshot can be encrypted. -/
inductive SnapshotWrite (P : Primitives Key) (s : ContextPackStore Key) (i : Nat) (call : PersistCall Key)
    (nonce : Nonce) : ContextPackStore Key → Option (Except ContextPackStoreError Unit) → Prop
  | refused (error : ContextPackStoreError) :
    SnapshotWrite P s i call nonce (s.setCall i (some { call with failure := some error })) none
  | persisted (ciphertext : List UInt8) (row : CaptureRunRow)
      (hciphertext : encryptChunk P (bytesOf call.compilation.contextJson) call.key nonce = some ciphertext)
      (hrow : s.findRun call.runId = some row) :
    SnapshotWrite P s i call nonce
      ((s.setCall i none).updateRun call.runId fun row =>
        { row with
          contextReceiptJson := some (P.receiptToJson call.compilation.receipt)
          contextSnapshot := some (snapshotOf call ciphertext) }) (some (.ok ()))

theorem writeSnapshot_cases {i : Nat} {call : PersistCall Key} {nonce : Nonce} (written : Bool)
    (hencrypts : (encryptChunk P (bytesOf call.compilation.contextJson) call.key nonce).isSome) :
    SnapshotWrite P s i call nonce (s.writeSnapshot P i call nonce written).1
      (s.writeSnapshot P i call nonce written).2 := by
  obtain ⟨ciphertext, hciphertext⟩ := Option.isSome_iff_exists.mp hencrypts
  rw [writeSnapshot, hciphertext]
  dsimp only
  split
  · exact .refused .sqlite
  · split
    · next haccepts =>
      cases hrow : s.findRun call.runId with
      | none =>
        rw [hrow] at haccepts
        cases haccepts
      | some row => exact .persisted ciphertext row hciphertext hrow
    · exact .refused _

theorem persisted_of_write (hP : P.Decrypts) (hs : StoreOk P s) {i : Nat} {call : PersistCall Key} {nonce : Nonce}
    (hcall : s.calls i = some call) (h : SnapshotWrite P s i call nonce s' (some (.ok ()))) :
    Persisted P s' call.runId call.compilation := by
  cases h with
  | persisted ciphertext row hciphertext hrow =>
    have hok := hs.calls i call hcall
    have hmem := List.mem_of_find?_eq_some hrow
    have hid : row.id = call.runId := of_decide_eq_true (List.find?_some hrow :)
    refine ⟨_, ciphertext, call.key, List.mem_map.mpr ⟨row, hmem, if_pos hid⟩, hid, rfl, rfl, hok.key,
      hok.identifier, decryptChunk_encryptChunk hP hciphertext, hok.valid⟩

/-- Both invariants through the write of the row. -/
theorem SnapshotWrite.keeps (hs : StoreOk P s) {i : Nat} {call : PersistCall Key} {nonce : Nonce}
    {result : Option (Except ContextPackStoreError Unit)} (hcall : s.calls i = some call)
    (h : SnapshotWrite P s i call nonce s' result) :
    StoreOk P s' ∧ ∀ runId c, Persisted P s runId c → Persisted P s' runId c := by
  cases h with
  | refused error =>
    refine ⟨storeOk_setCall hs i ?_, fun runId c hc => persisted_setCall hc i _⟩
    intro call' heq
    obtain rfl := Option.some.inj heq
    exact ⟨call, hcall, rfl, rfl, rfl⟩
  | persisted ciphertext row hciphertext hrow =>
    have hreturned : StoreOk P (s.setCall i none) := storeOk_setCall hs i (fun call' heq => by cases heq)
    refine ⟨storeOk_updateRun hreturned (idle_setCall hs hcall) fun _ => rfl, ?_⟩
    intro runId c hc
    exact persisted_updateRun (persisted_setCall hc i none) (hc.ne_runId hs hcall) _

theorem dropSnapshotKey_keeps (hs : StoreOk P s) {i : Nat} {call : PersistCall Key} (hcall : s.calls i = some call)
    (dropped : Bool) : StoreOk P (s.dropSnapshotKey i call dropped) ∧
      ∀ runId c, Persisted P s runId c → Persisted P (s.dropSnapshotKey i call dropped) runId c := by
  have hreturned : StoreOk P (s.setCall i none) := storeOk_setCall hs i (fun call' heq => by cases heq)
  cases dropped with
  | false => exact ⟨hreturned, fun runId c hc => persisted_setCall hc i none⟩
  | true =>
    refine ⟨storeOk_setKey hreturned (idle_setCall hs hcall) none, fun runId c hc => ?_⟩
    exact persisted_setKey (persisted_setCall hc i none) (hc.ne_runId hs hcall) none

theorem createRun_keeps (hs : StoreOk P s) {row : CaptureRunRow} (hnew : (s.findRun row.id).isSome = false)
    (hsnapshot : row.contextSnapshot = none) : StoreOk P { s with runs := s.runs ++ [row] } ∧
      ∀ runId c, Persisted P s runId c → Persisted P { s with runs := s.runs ++ [row] } runId c := by
  have hfresh : ∀ other ∈ s.runs, other.id ≠ row.id := by
    intro other hother hid
    rw [findRun, Option.isSome_eq_false_iff, Option.isNone_iff_eq_none] at hnew
    exact absurd (decide_eq_true hid) (List.find?_eq_none.mp hnew other hother)
  constructor
  · refine ⟨?_, hs.packs, ?_, hs.distinct⟩
    · rw [List.map_append, List.nodup_append]
      refine ⟨hs.runs, List.nodup_singleton _, ?_⟩
      intro a ha b hb
      obtain ⟨other, hother, rfl⟩ := List.mem_map.mp ha
      obtain rfl := List.mem_singleton.mp hb
      exact hfresh other hother
    · intro i call hcall
      have hok := hs.calls i call hcall
      refine ⟨hok.issued, hok.key, hok.identifier, hok.valid, ?_⟩
      intro other hother hid
      cases List.mem_append.mp hother with
      | inl hother => exact hok.row other hother hid
      | inr hother =>
        obtain rfl := List.mem_singleton.mp hother
        exact hsnapshot
  · rintro runId c ⟨other, ciphertext, key, hc⟩
    exact ⟨other, ciphertext, key, List.mem_append_left _ hc.mem, hc.id, hc.receipt, hc.snapshot, hc.stored,
      hc.identifier, hc.decrypts, hc.valid⟩

/-! ## Runs -/

/-- What a step can do. -/
inductive StepEffect (P : Primitives Key) (s : ContextPackStore Key) : Op Key → ContextPackStore Key → Prop
  | keeps {op : Op Key} {s' : ContextPackStore Key} (h : Keeps s s') : StepEffect P s op s'
  | begins {runId : String} {compilation : ContextCompilation} {key : Key} {written : Bool}
      {s' : ContextPackStore Key} (h : s.beginPersist P runId compilation key written = .ok s') :
    StepEffect P s (.beginPersist runId compilation key written) s'
  | writes {i : Nat} {call : PersistCall Key} (hcall : s.calls i = some call) (nonce : Nonce) (written : Bool) :
    StepEffect P s (.writeSnapshot i nonce written) (s.writeSnapshot P i call nonce written).1
  | drops {i : Nat} {call : PersistCall Key} (hcall : s.calls i = some call) (dropped : Bool) :
    StepEffect P s (.dropSnapshotKey i dropped) (s.dropSnapshotKey i call dropped)
  | creates {op : Op Key} {row : CaptureRunRow} (hnew : (s.findRun row.id).isSome = false)
      (hsnapshot : row.contextSnapshot = none) : StepEffect P s op { s with runs := s.runs ++ [row] }

theorem stepEffect (hs : StoreOk P s) {op : Op Key} {result : Option (Except ContextPackStoreError Unit)}
    (hstep : s.step P op = some (s', result)) : StepEffect P s op s' := by
  have hsame : Keeps s s := keeps_of_packs (fun _ => rfl) hs.packs
  cases op with
  | beginPersist runId compilation key written =>
    rw [step] at hstep
    cases hbegin : s.beginPersist P runId compilation key written with
    | error error =>
      rw [hbegin] at hstep
      obtain ⟨rfl, -⟩ := Prod.mk.inj (Option.some.inj hstep)
      exact .keeps hsame
    | ok next =>
      rw [hbegin] at hstep
      obtain ⟨rfl, -⟩ := Prod.mk.inj (Option.some.inj hstep)
      exact .begins hbegin
  | writeSnapshot i nonce written =>
    rw [step] at hstep
    cases hcall : s.calls i with
    | none =>
      rw [hcall] at hstep
      cases hstep
    | some call =>
      rw [hcall] at hstep
      dsimp only at hstep
      split at hstep
      · have heffect : StepEffect P s _ (s.writeSnapshot P i call nonce written).1 := .writes hcall nonce written
        rwa [Option.some.inj hstep] at heffect
      · cases hstep
  | dropSnapshotKey i dropped =>
    rw [step] at hstep
    cases hcall : s.calls i with
    | none =>
      rw [hcall] at hstep
      cases hstep
    | some call =>
      rw [hcall] at hstep
      obtain ⟨error, -, heq⟩ := Option.map_eq_some_iff.mp hstep
      obtain ⟨rfl, -⟩ := Prod.mk.inj heq
      exact .drops hcall dropped
  | markContextApplied runId expectedSha256 now =>
    rw [step] at hstep
    cases hmark : s.markContextApplied runId expectedSha256 now with
    | error error =>
      rw [hmark] at hstep
      obtain ⟨rfl, -⟩ := Prod.mk.inj (Option.some.inj hstep)
      exact .keeps hsame
    | ok applied =>
      rw [hmark] at hstep
      obtain ⟨rfl, -⟩ := Prod.mk.inj (Option.some.inj hstep)
      exact .keeps (keeps_markContextApplied hs hmark)
  | createRun runId notebookId remoteHealth =>
    rw [step] at hstep
    split at hstep
    · cases hstep
    · next hnew =>
      obtain ⟨rfl, -⟩ := Prod.mk.inj (Option.some.inj hstep)
      exact .creates (Bool.eq_false_iff.mpr hnew) rfl
  | setRemoteHealth runId remoteHealth =>
    obtain ⟨rfl, -⟩ := Prod.mk.inj (Option.some.inj hstep)
    exact .keeps (keeps_updateRun hs runId fun _ => ⟨rfl, rfl, rfl⟩)
  | createPack id scope key stored inserted dropped =>
    obtain ⟨rfl, -⟩ := Prod.mk.inj (Option.some.inj hstep)
    exact .keeps (keeps_createPack hs id scope key stored inserted dropped)
  | discardPack id deleted dropped =>
    obtain ⟨pack, hfind, heq⟩ := Option.map_eq_some_iff.mp hstep
    obtain ⟨rfl, -⟩ := Prod.mk.inj heq
    exact .keeps (keeps_discardPack hs (List.mem_of_find?_eq_some hfind) deleted dropped)
  | importSource source | rewriteSource source ciphertext deleted =>
    obtain ⟨rfl, -⟩ := Prod.mk.inj (Option.some.inj hstep)
    exact .keeps (keeps_of_packs (fun _ => rfl) (packs_updated hs source.packId fun _ => ⟨rfl, rfl⟩))
  | deleteLibraryPack packId expectedRevision dropped written =>
    obtain ⟨rfl, -⟩ := Prod.mk.inj (Option.some.inj hstep)
    exact .keeps (keeps_deleteLibraryPack hs packId expectedRevision dropped written)

theorem step_keeps (hs : StoreOk P s) {op : Op Key} (hstep : AdmissibleStep P s op s') :
    StoreOk P s' ∧ ∀ runId c, Persisted P s runId c → Persisted P s' runId c := by
  obtain ⟨hadmissible, result, hstep⟩ := hstep
  cases stepEffect hs hstep with
  | keeps h => exact ⟨h.storeOk hs, fun _ _ hc => h.persisted hc⟩
  | begins hbegin =>
    rw [Admissible, hbegin] at hadmissible
    have hunclaimed := hadmissible rfl
    exact ⟨storeOk_beginPersist hs hunclaimed hbegin, fun _ _ hc => persisted_beginPersist hunclaimed hbegin hc⟩
  | writes hcall nonce written => exact (writeSnapshot_cases written (hadmissible _ hcall)).keeps hs hcall
  | drops hcall dropped => exact dropSnapshotKey_keeps hs hcall dropped
  | creates hnew hsnapshot => exact createRun_keeps hs hnew hsnapshot

theorem storeOk_run {ops : List (Op Key)} (hs : StoreOk P s) (hrun : Run (AdmissibleStep P) s ops s') : StoreOk P s' :=
  hrun.invariant (I := StoreOk P) (fun _ _ _ h hstep => (step_keeps h hstep).1) hs

theorem persisted_run {ops : List (Op Key)} (hs : StoreOk P s) {runId : String} {c : ContextCompilation}
    (hc : Persisted P s runId c) (hrun : Run (AdmissibleStep P) s ops s') : Persisted P s' runId c := by
  have hboth := hrun.invariant (I := fun s => StoreOk P s ∧ Persisted P s runId c)
    (fun _ _ _ h hstep => ⟨(step_keeps h.1 hstep).1, (step_keeps h.1 hstep).2 runId c h.2⟩) ⟨hs, hc⟩
  exact hboth.2

/-- A call that was issued stays with its run. -/
def Issued (s : ContextPackStore Key) (i : Nat) (runId : String) : Prop :=
  i < s.nextCall ∧ ∀ call, s.calls i = some call → call.runId = runId

theorem Issued.setCall {i : Nat} {runId : String} (h : s.Issued i runId) (j : Nat) {value : Option (PersistCall Key)}
    (hvalue : ∀ call', value = some call' → ∃ call, s.calls j = some call ∧ call'.runId = call.runId) :
    (s.setCall j value).Issued i runId := by
  refine ⟨h.1, fun call' hcall => ?_⟩
  by_cases hi : i = j
  · subst hi
    rw [setCall_self] at hcall
    obtain ⟨call, hold, hsame⟩ := hvalue call' hcall
    exact hsame.trans (h.2 call hold)
  · rw [setCall_of_ne _ hi] at hcall
    exact h.2 call' hcall

theorem issued_step (hs : StoreOk P s) {i : Nat} {runId : String} (h : s.Issued i runId) {op : Op Key}
    (hstep : AdmissibleStep P s op s') : s'.Issued i runId := by
  obtain ⟨hadmissible, result, hstep⟩ := hstep
  have hreturned : ∀ j, (s.setCall j none).Issued i runId := fun j => h.setCall j (fun call' heq => by cases heq)
  cases stepEffect hs hstep with
  | keeps hkeeps => exact ⟨hkeeps.nextCall ▸ h.1, hkeeps.calls ▸ h.2⟩
  | begins hbegin =>
    obtain ⟨-, -, rfl⟩ := beginPersist_eq_ok hbegin
    refine ⟨Nat.lt_succ_of_lt h.1, fun call hcall => h.2 call ?_⟩
    have hne : i ≠ s.nextCall := Nat.ne_of_lt h.1
    exact (setCall_of_ne _ hne _).symm.trans hcall
  | @writes j call hcall nonce written =>
    have hwrite := writeSnapshot_cases (s := s) (i := j) written (hadmissible call hcall)
    generalize s.writeSnapshot P j call nonce written = outcome at hwrite
    obtain ⟨next, result⟩ := outcome
    cases hwrite with
    | refused error =>
      refine h.setCall _ fun call' heq => ?_
      obtain rfl := Option.some.inj heq
      exact ⟨_, hcall, rfl⟩
    | persisted ciphertext row hciphertext hrow => exact hreturned _
  | drops hcall dropped =>
    cases dropped with
    | false => exact hreturned _
    | true => exact hreturned _
  | creates hnew hsnapshot => exact h

theorem issued_run {ops : List (Op Key)} (hs : StoreOk P s) {i : Nat} {runId : String} (h : s.Issued i runId)
    (hrun : Run (AdmissibleStep P) s ops s') : s'.Issued i runId := by
  have hboth := hrun.invariant (I := fun s => StoreOk P s ∧ s.Issued i runId)
    (fun _ _ _ h hstep => ⟨(step_keeps h.1 hstep).1, issued_step h.1 h.2 hstep⟩) ⟨hs, h⟩
  exact hboth.2

/-- The rows are the same. -/
def SameRows (s s' : ContextPackStore Key) : Prop := s'.runs = s.runs ∧ s'.packs = s.packs ∧ s'.sources = s.sources

/-- A refused call, from the write of its key to its drop. -/
theorem refused_call_restores (hs : StoreOk P s) {runId : String} {compilation : ContextCompilation} {key : Key}
    {written : Bool} {begun rejected restored : ContextPackStore Key} {ops : List (Op Key)}
    {error : ContextPackStoreError} (hunclaimed : s.Unclaimed runId)
    (hbegin : s.beginPersist P runId compilation key written = .ok begun)
    (hrun : Run (AdmissibleStep P) begun ops rejected)
    (hdrop : rejected.step P (.dropSnapshotKey s.nextCall true) = some (restored, some (.error error))) :
    SameRows s begun ∧ SameRows rejected restored ∧
      restored.keys (snapshotKeyRef runId) = s.keys (snapshotKeyRef runId) ∧
      ∀ keyRef ≠ snapshotKeyRef runId, begun.keys keyRef = s.keys keyRef ∧
        restored.keys keyRef = rejected.keys keyRef := by
  have hissued : begun.Issued s.nextCall runId := by
    obtain ⟨-, -, rfl⟩ := beginPersist_eq_ok hbegin
    refine ⟨Nat.lt_succ_self _, fun call hcall => ?_⟩
    obtain rfl := Option.some.inj ((setCall_self _ _ _).symm.trans hcall)
    rfl
  have hrejected := issued_run (storeOk_beginPersist hs hunclaimed hbegin) hissued hrun
  rw [step] at hdrop
  cases hcall : rejected.calls s.nextCall with
  | none =>
    rw [hcall] at hdrop
    cases hdrop
  | some call =>
    rw [hcall] at hdrop
    obtain ⟨failure, -, heq⟩ := Option.map_eq_some_iff.mp hdrop
    obtain ⟨rfl, -⟩ := Prod.mk.inj heq
    have hid := hrejected.2 call hcall
    refine ⟨?_, ⟨rfl, rfl, rfl⟩, ?_, ?_⟩
    · obtain ⟨-, -, rfl⟩ := beginPersist_eq_ok hbegin
      exact ⟨rfl, rfl, rfl⟩
    · rw [hunclaimed.key, ← hid]
      exact setKey_self rejected _ none
    · intro keyRef hne
      refine ⟨?_, setKey_of_ne rejected (hid.symm ▸ hne) none⟩
      obtain ⟨-, -, rfl⟩ := beginPersist_eq_ok hbegin
      exact setKey_of_ne s hne (some key)

/-- **Run snapshots are written once.** -/
theorem run_snapshots_write_once (hP : P.Decrypts) {start : ContextPackStore Key}
    (hruns : (start.runs.map (·.id)).Nodup) (hpacks : ∀ pack ∈ start.packs, pack.keyRef = packKeyRef pack.id)
    (hcalls : ∀ i, start.calls i = none) {ops : List (Op Key)} (hrun : Run (AdmissibleStep P) start ops s) :
    (∀ i call nonce written persisted, s.calls i = some call → P.ReadsBack call.compilation →
      s.step P (.writeSnapshot i nonce written) = some (persisted, some (.ok ())) →
      ∀ ops' later, Run (AdmissibleStep P) persisted ops' later →
        later.loadRunSnapshot P call.runId = .ok (some call.compilation)) ∧
    (∀ runId compilation key written error s', s.step P (.beginPersist runId compilation key written) =
      some (s', some (.error error)) → s' = s) ∧
    (∀ i nonce written s', s.step P (.writeSnapshot i nonce written) = some (s', none) →
      SameRows s s' ∧ s'.keys = s.keys) ∧
    ∀ runId compilation key written begun ops' rejected restored error, s.Unclaimed runId →
      s.step P (.beginPersist runId compilation key written) = some (begun, none) →
      Run (AdmissibleStep P) begun ops' rejected →
      rejected.step P (.dropSnapshotKey s.nextCall true) = some (restored, some (.error error)) →
      SameRows s begun ∧ SameRows rejected restored ∧
        restored.keys (snapshotKeyRef runId) = s.keys (snapshotKeyRef runId) ∧
        ∀ keyRef ≠ snapshotKeyRef runId, begun.keys keyRef = s.keys keyRef ∧
          restored.keys keyRef = rejected.keys keyRef := by
  have hstart : StoreOk P start := by
    refine ⟨hruns, hpacks, fun i call hcall => ?_, fun i j call call' hcall => ?_⟩
    · rw [hcalls i] at hcall
      cases hcall
    · rw [hcalls i] at hcall
      cases hcall
  have hs := storeOk_run hstart hrun
  refine ⟨?_, ?_, ?_, ?_⟩
  · intro i call nonce written persisted hcall hreads hstep ops' later hlater
    rw [step, hcall] at hstep
    dsimp only at hstep
    split at hstep
    · have hwrite := Option.some.inj hstep
      cases hencrypt : encryptChunk P (bytesOf call.compilation.contextJson) call.key nonce with
      | none =>
        rw [writeSnapshot, hencrypt] at hwrite
        cases hwrite
      | some ciphertext =>
        have hencrypts : (encryptChunk P (bytesOf call.compilation.contextJson) call.key nonce).isSome := by
          rw [hencrypt]
          rfl
        have hcases := writeSnapshot_cases (s := s) (i := i) written hencrypts
        rw [hwrite] at hcases
        have hkept := (hcases.keeps hs hcall).1
        have hpersisted := persisted_run hkept (persisted_of_write hP hs hcall hcases) hlater
        exact hpersisted.load (storeOk_run hkept hlater) hreads
    · cases hstep
  · intro runId compilation key written error s' hstep
    rw [step] at hstep
    split at hstep
    · cases hstep
    · exact (Prod.mk.inj (Option.some.inj hstep)).1.symm
  · intro i nonce written s' hstep
    rw [step] at hstep
    split at hstep
    · split at hstep
      · have hwrite := Option.some.inj hstep
        rw [writeSnapshot] at hwrite
        split at hwrite
        · cases hwrite
        · split at hwrite
          · obtain ⟨rfl, -⟩ := Prod.mk.inj hwrite
            exact ⟨⟨rfl, rfl, rfl⟩, rfl⟩
          · split at hwrite
            · cases hwrite
            · obtain ⟨rfl, -⟩ := Prod.mk.inj hwrite
              exact ⟨⟨rfl, rfl, rfl⟩, rfl⟩
      · cases hstep
    · cases hstep
  · intro runId compilation key written begun ops' rejected restored error hunclaimed hstep hrejected hdrop
    rw [step] at hstep
    split at hstep
    · next next hbegin =>
      obtain ⟨rfl, -⟩ := Prod.mk.inj (Option.some.inj hstep)
      exact refused_call_restores hs hunclaimed hbegin hrejected hdrop
    · cases hstep

end ContextPackStore

/-! ## One run, persisted twice -/

def contextText (text : String) : ContextCompilation :=
  { context := { translationTerms := [], terms := [], general := [], text }
    contextJson := "\x7b\"text\":\"" ++ text ++ "\"\x7d"
    receipt :=
      { notebookId := "n"
        contextSha256 :=
          if text = "a" then "6193c97585a0f731ce7b500bb69d2476816afb14c8d95ac8e6e865f680e9e438"
          else "7b8de1c2be81d629aaac41de6be74133f8c90b9747098a3fc1a7adc9274cb35e"
        serializedScalars := 12, sources := [], omissions := [] } }

def receiptText (c : ContextCompilation) : String :=
  "\x7b\"notebook_id\":\"n\",\"context_sha256\":\"" ++ c.receipt.contextSha256 ++
    "\",\"serialized_scalars\":12,\"sources\":[],\"omissions\":[]\x7d"

/-- The primitives on the two compilations, with a cipher that names its key. -/
def twoTexts : Primitives UInt8 where
  encrypt key _ plaintext := some (key :: plaintext)
  decrypt key _ ciphertext := if ciphertext.head? = some key then some ciphertext.tail else none
  sha256Hex bytes :=
    if bytes = bytesOf (contextText "a").contextJson then (contextText "a").receipt.contextSha256
    else if bytes = bytesOf (contextText "b").contextJson then (contextText "b").receipt.contextSha256
    else ""
  contextToJson context := (contextText context.text).contextJson
  contextFromJson json :=
    if json = (contextText "a").contextJson then some (contextText "a").context
    else if json = (contextText "b").contextJson then some (contextText "b").context
    else none
  receiptToJson receipt :=
    if receipt = (contextText "a").receipt then receiptText (contextText "a") else receiptText (contextText "b")
  receiptFromJson json :=
    if json = receiptText (contextText "a") then some (contextText "a").receipt
    else if json = receiptText (contextText "b") then some (contextText "b").receipt
    else none

def zeroNonce : Nonce := ⟨List.replicate 12 0, rfl⟩

/-- A store with one run of the Notebook. -/
def oneRun : ContextPackStore UInt8 :=
  { runs := [{ id := "r", notebookId := "n", remoteHealth := .live, contextReceiptJson := none
               contextSnapshot := none, contextAppliedAt := none }]
    packs := [], sources := [], keys := fun _ => none, calls := fun _ => none, nextCall := 0 }

theorem twoTexts_decrypts : twoTexts.Decrypts := by
  intro key nonce plaintext ciphertext h
  obtain rfl := Option.some.inj h
  exact if_pos rfl

theorem twoTexts_readsBack : twoTexts.ReadsBack (contextText "a") := by
  constructor <;> decide +kernel

theorem run_snapshots_write_once_sample : ∃ s persisted : ContextPackStore UInt8,
    Run (ContextPackStore.AdmissibleStep twoTexts) oneRun [.beginPersist "r" (contextText "a") 1 true] s ∧
      s.step twoTexts (.writeSnapshot 0 zeroNonce true) = some (persisted, some (.ok ())) ∧
      persisted.loadRunSnapshot twoTexts "r" = .ok (some (contextText "a")) := by
  have hunclaimed : oneRun.Unclaimed "r" :=
    ⟨by decide +kernel, rfl, fun i call hcall => by cases hcall⟩
  have hbegins : (oneRun.beginPersist twoTexts "r" (contextText "a") 1 true).isOk = true := by decide +kernel
  cases hbegin : oneRun.beginPersist twoTexts "r" (contextText "a") 1 true with
  | error error =>
    rw [hbegin] at hbegins
    cases hbegins
  | ok s =>
    have hrun : Run (ContextPackStore.AdmissibleStep twoTexts) oneRun
        [.beginPersist "r" (contextText "a") 1 true] s :=
      .single ⟨fun _ => hunclaimed, none, by rw [ContextPackStore.step, hbegin]⟩
    obtain ⟨-, -, hs⟩ := ContextPackStore.beginPersist_eq_ok hbegin
    have hcall : s.calls 0 = some { runId := "r", compilation := contextText "a", key := 1, failure := none } := by
      rw [hs]
      rfl
    have hwrites : (s.step twoTexts (.writeSnapshot 0 zeroNonce true)).map (·.2) = some (some (.ok ())) := by
      rw [hs]
      decide +kernel
    obtain ⟨⟨persisted, result⟩, hstep, hresult⟩ := Option.map_eq_some_iff.mp hwrites
    obtain rfl : result = some (.ok ()) := hresult
    have honce := ContextPackStore.run_snapshots_write_once twoTexts_decrypts (by decide +kernel)
      (fun pack hpack => absurd hpack List.not_mem_nil) (fun _ => rfl) hrun
    have hlater := honce.1 0 _ zeroNonce true persisted hcall twoTexts_readsBack hstep [] persisted (.nil persisted)
    exact ⟨s, persisted, hrun, hstep, hlater⟩

/-- The first call returned Ok. The second is refused and drops the key of the first. -/
theorem second_persist_drops_key :
    ((exec (fun s op => (ContextPackStore.step twoTexts s op).map (·.1)) oneRun
        [.beginPersist "r" (contextText "a") 1 true]).bind fun s =>
          (s.step twoTexts (.writeSnapshot 0 zeroNonce true)).map (·.2)) = some (some (.ok ())) ∧
      (exec (fun s op => (ContextPackStore.step twoTexts s op).map (·.1)) oneRun
        [.beginPersist "r" (contextText "a") 1 true, .writeSnapshot 0 zeroNonce true,
          .beginPersist "r" (contextText "b") 2 true, .writeSnapshot 1 zeroNonce true, .dropSnapshotKey 1 true]).map
            (fun s => s.loadRunSnapshot twoTexts "r") = some (.error (.missingKey (snapshotKeyRef "r"))) := by
  decide +kernel

end Zulangue.Context
