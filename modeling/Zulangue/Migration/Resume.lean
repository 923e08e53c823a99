import Zulangue.Migration.Steps

/-!
# Resuming a migration

`run_migrations` takes a file up to the current version one transaction at a time, and
reads from the stamp where to go on. A crash leaves the file as some transaction left it.
The run over that file ends where the interrupted one would have ended, except for two
stamps: v30, which no arm takes, and the current version on a file whose bound-lane index
is still unique, which is what the rebuild of the runs leaves behind.
-/

namespace Zulangue.Migration

open Zulangue.Lib.Sqlite Zulangue.Lib.Fallible

/-- What each transaction left in the file, and how the run ended. -/
structure Outcome where
  committed : List Database
  result : Except MigrationError Database
  deriving DecidableEq

def profileTable : String := "notebook_capture_profiles"

/-- `SET common_caption_language = NULL WHERE common_caption_language IS NOT NULL`. -/
def withoutCommonCaption (row : Row) : Row :=
  if isNull (row.get "common_caption_language") then row else row.set "common_caption_language" .null

/-- The column takes NULL in every version that has it, so no constraint is asked. -/
def retireLegacyCommonCaptionProfileState (db : Database) : Except MigrationError Database := do
  let _ ← (table? db profileTable).mapError .sql
  return db.setRows profileTable (List.map withoutCommonCaption)

def refused (error : MigrationError) : Outcome := { committed := [], result := .error error }

/-- A transaction and what follows it. -/
def andThen (step : Except MigrationError Database) (next : Database → Outcome) : Outcome :=
  match step with
  | .error error => refused error
  | .ok db => { next db with committed := db :: (next db).committed }

/-- A check and what follows it. -/
def checked (check : Except MigrationError Unit) (next : Outcome) : Outcome :=
  match check with
  | .error error => refused error
  | .ok () => next

def finish (db : Database) : Outcome :=
  andThen (retireLegacyCommonCaptionProfileState db) fun db => { committed := [], result := .ok db }

def fromV31 (db : Database) : Outcome := checked (validateV31Baseline db.schema) (finish db)

def fromV30 (e : Engine) (db : Database) : Outcome :=
  checked (validateV30Baseline db.schema) (andThen (migrateV30ToV31 e db) fromV31)

def fromV29 (e : Engine) (db : Database) : Outcome :=
  checked (validateV24OrLaterBaseline db.schema transcriptGapsVersion)
    (andThen (migrateV29ToV30 e db) (fromV30 e))

def fromV28 (e : Engine) (db : Database) : Outcome :=
  checked (validateV24OrLaterBaseline db.schema translationInboxVersion)
    (andThen (migrateV28ToV29 e db) (fromV29 e))

def fromV27 (e : Engine) (db : Database) : Outcome :=
  checked (validateV24OrLaterBaseline db.schema realtimeLoroVersion)
    (andThen (migrateV27ToV28 e db) (fromV28 e))

def fromV26 (e : Engine) (db : Database) : Outcome :=
  checked (validateV24OrLaterBaseline db.schema multilingualVersion)
    (andThen (migrateV26ToV27 e db) (fromV27 e))

def fromV25 (e : Engine) (db : Database) : Outcome :=
  checked (validateV24OrLaterBaseline db.schema selectedLanguagesVersion)
    (andThen (migrateV25ToV26 e db) (fromV26 e))

def fromV24 (e : Engine) (db : Database) : Outcome :=
  checked (validateV24OrLaterBaseline db.schema speakerVersion)
    (andThen (migrateV24ToV25 e db) (fromV25 e))

def fromV23 (e : Engine) (db : Database) : Outcome :=
  checked (validateV23Baseline db.schema) (andThen (migrateV23ToV24 e db) (fromV24 e))

def databaseHasUserObjects (db : Database) : Bool :=
  let names := db.tables.map Prod.fst ++ db.indexes.map Prod.fst ++ db.triggers.map Prod.fst ++ db.views
  !names.isEmpty

def installCurrentBaseline (e : Engine) (db : Database) : Outcome :=
  andThen (transaction e currentBaseline currentVersion db) finish

/-- The arms of the source: there is none for `remoteArtifactsVersion`. -/
def runMigrations (e : Engine) (db : Database) : Outcome :=
  if db.userVersion = 0 then
    if databaseHasUserObjects db then refused (.schemaResetRequired 0) else installCurrentBaseline e db
  else if db.userVersion = oldestSupportedVersion then fromV23 e db
  else if db.userVersion = speakerVersion then fromV24 e db
  else if db.userVersion = selectedLanguagesVersion then fromV25 e db
  else if db.userVersion = multilingualVersion then fromV26 e db
  else if db.userVersion = realtimeLoroVersion then fromV27 e db
  else if db.userVersion = translationInboxVersion then fromV28 e db
  else if db.userVersion = transcriptGapsVersion then fromV29 e db
  else if db.userVersion = currentVersion then fromV31 db
  else refused (.schemaResetRequired db.userVersion)

/-- The migration of a supported version without a crash; for v30 it is what follows the
rebuild of the runs. -/
def uninterrupted (e : Engine) (db : Database) : Outcome :=
  if db.userVersion = remoteArtifactsVersion then fromV30 e db else runMigrations e db

/-- Another run over the file succeeds, at the current version and with its shapes, and
leaves the tables the migration without a crash leaves. -/
def Resumes (e : Engine) (final crashed : Database) : Prop :=
  ∃ db, (runMigrations e crashed).result = .ok db ∧ db.userVersion = currentVersion ∧
    validateV31Baseline db.schema = .ok () ∧ db.tables = final.tables

/-- The index v28 created, which v31 replaces. -/
def HasUniqueBoundLane (db : Database) : Prop :=
  ∃ index, List.lookup boundLaneIndex db.indexes = some index ∧ containsLowercase index.sql "unique" = true

/-! ## What the checks read -/

theorem seq_iff {ε β : Type} {x x' : Except ε Unit} {f f' : Unit → Except ε β} {b : β}
    (hx : x = .ok () ↔ x' = .ok ()) (hf : f () = .ok b ↔ f' () = .ok b) :
    (x >>= f) = .ok b ↔ (x' >>= f') = .ok b := by
  rw [bind_eq_ok, bind_eq_ok]
  constructor
  · rintro ⟨⟨⟩, h, hb⟩
    exact ⟨(), hx.mp h, hf.mp hb⟩
  · rintro ⟨⟨⟩, h, hb⟩
    exact ⟨(), hx.mpr h, hf.mpr hb⟩

theorem require_iff (v v' : Int) (holds : Bool) : require v holds = .ok () ↔ require v' holds = .ok () := by
  rw [require_eq_ok, require_eq_ok]

theorem validateActiveIndex_iff (v v' : Int) (schema : Schema) :
    validateActiveIndex v schema = .ok () ↔ validateActiveIndex v' schema = .ok () := by
  rw [validateActiveIndex, validateActiveIndex, bind_eq_ok, bind_eq_ok]
  simp only [require_eq_ok]

theorem validateTriggers_iff (v v' : Int) (schema : Schema) (triggers : List String) :
    validateTriggers v schema triggers = .ok () ↔ validateTriggers v' schema triggers = .ok () := by
  induction triggers with
  | nil => exact Iff.rfl
  | cons trigger rest ih =>
    rw [validateTriggers, validateTriggers, bind_eq_ok, bind_eq_ok]
    apply exists_congr
    intro sql
    apply and_congr_right
    intro _
    exact seq_iff (require_iff v v' _) ih

/-- v31 has the objects of v30. -/
theorem validateV30BaselineObjects_iff (schema : Schema) :
    validateV30BaselineObjects schema currentVersion = .ok () ↔
      validateV30BaselineObjects schema remoteArtifactsVersion = .ok () := by
  have hreq := require_iff currentVersion remoteArtifactsVersion
  refine seq_iff ?_ ?_
  · refine seq_iff (hreq _) (seq_iff (hreq _) (seq_iff (hreq _) (seq_iff (hreq _) (seq_iff (hreq _) ?_))))
    refine seq_iff (hreq _) (seq_iff (hreq _) (seq_iff (hreq _) (seq_iff (hreq _) (seq_iff (hreq _) ?_))))
    refine seq_iff (hreq _) (seq_iff (validateActiveIndex_iff _ _ _) (validateTriggers_iff _ _ _ _))
  · rw [bind_eq_ok, bind_eq_ok]
    simp only [require_eq_ok]

theorem mem_keys_iff {α : Type} {name : String} {objects : List (String × α)} :
    name ∈ objects.map Prod.fst ↔ ∃ object, List.lookup name objects = some object := by
  induction objects with
  | nil => simp
  | cons entry rest ih =>
    rw [List.map_cons, List.mem_cons, List.lookup_cons, ih]
    by_cases hname : name = entry.1
    · simp [hname]
    · simp [hname, beq_eq_false_iff_ne.mpr hname]

/-- A checked file of v30 or v31 has the bound-lane index. -/
theorem exists_boundLaneIndex {schema : Schema}
    (h : validateV30BaselineObjects schema remoteArtifactsVersion = .ok ()) :
    ∃ index, List.lookup boundLaneIndex schema.indexes = some index := by
  obtain ⟨⟨⟩, hobjects, _⟩ := bind_eq_ok.mp h
  obtain ⟨⟨⟩, _, hobjects⟩ := bind_eq_ok.mp hobjects
  obtain ⟨⟨⟩, hindexes, _⟩ := bind_eq_ok.mp hobjects
  have hnames := List.isPerm_iff.mp (require_eq_ok.mp hindexes)
  apply mem_keys_iff.mp
  rw [hnames.mem_iff]
  simp [boundLaneIndex, v29Indexes]

theorem not_unique_of_validateV31Baseline {db : Database} (h : validateV31Baseline db.schema = .ok ()) :
    ¬ HasUniqueBoundLane db := by
  rintro ⟨index, hindex, hcontains⟩
  obtain ⟨⟨⟩, _, h⟩ := bind_eq_ok.mp h
  obtain ⟨sql, hsql, hunique⟩ := bind_eq_ok.mp h
  have hindex' : List.lookup boundLaneIndex db.schema.indexes = some index := hindex
  rw [schemaObjectSql, hindex'] at hsql
  obtain rfl := Except.ok.inj hsql
  rw [require_eq_ok, hcontains] at hunique
  cases hunique

theorem validateV31Baseline_iff {db : Database}
    (h : validateV30BaselineObjects db.schema remoteArtifactsVersion = .ok ()) :
    validateV31Baseline db.schema = .ok () ↔ ¬ HasUniqueBoundLane db := by
  constructor
  · exact not_unique_of_validateV31Baseline
  · intro hunique
    obtain ⟨index, hindex⟩ := exists_boundLaneIndex h
    have hsql : schemaObjectSql db.schema.indexes Attached.sql boundLaneIndex = .ok index.sql := by
      rw [schemaObjectSql, hindex]
    rw [validateV31Baseline, (validateV30BaselineObjects_iff db.schema).mpr h]
    refine bind_eq_ok.mpr ⟨(), rfl, bind_eq_ok.mpr ⟨index.sql, hsql, require_eq_ok.mpr ?_⟩⟩
    rw [Bool.not_eq_true', Bool.eq_false_iff]
    intro hcontains
    exact hunique ⟨index, hindex, hcontains⟩

theorem objects_of_validateV31Baseline {schema : Schema} (h : validateV31Baseline schema = .ok ()) :
    validateV30BaselineObjects schema remoteArtifactsVersion = .ok () := by
  obtain ⟨⟨⟩, hobjects, -⟩ := bind_eq_ok.mp h
  exact (validateV30BaselineObjects_iff schema).mp hobjects

/-! ## The retirement -/

theorem withoutCommonCaption_idem (row : Row) :
    withoutCommonCaption (withoutCommonCaption row) = withoutCommonCaption row := by
  have hnull : isNull ((withoutCommonCaption row).get "common_caption_language") = true := by
    rw [withoutCommonCaption]
    split
    · assumption
    · rw [Row.get_set_self]
      rfl
  rw [withoutCommonCaption, if_pos hnull]

theorem retire_eq_ok {db db' : Database} (h : retireLegacyCommonCaptionProfileState db = .ok db') :
    db' = db.setRows profileTable (List.map withoutCommonCaption) := by
  obtain ⟨_, -, h⟩ := bind_eq_ok.mp h
  exact (Except.ok.inj h).symm

theorem retire_congr {db other final : Database} (htables : other.tables = db.tables)
    (h : retireLegacyCommonCaptionProfileState db = .ok final) :
    ∃ final', retireLegacyCommonCaptionProfileState other = .ok final' ∧ final'.tables = final.tables := by
  obtain ⟨table, htable, -⟩ := bind_eq_ok.mp h
  refine ⟨other.setRows profileTable (List.map withoutCommonCaption), ?_, ?_⟩
  · refine bind_eq_ok.mpr ⟨table, ?_, rfl⟩
    rw [table?, htables]
    exact htable
  · rw [retire_eq_ok h, Database.setRows, Database.setRows, htables]

/-- The retirement finds nothing to do the second time. -/
theorem retire_idem {db final : Database} (h : retireLegacyCommonCaptionProfileState db = .ok final) :
    retireLegacyCommonCaptionProfileState final = .ok final := by
  obtain ⟨table, htable, -⟩ := bind_eq_ok.mp h
  have hfinal := retire_eq_ok h
  have htable' : ∃ table, (table? final profileTable).mapError MigrationError.sql = .ok table := by
    have hkey : profileTable ∈ final.tables.map Prod.fst := by
      have hdb : profileTable ∈ db.tables.map Prod.fst := by
        have hget := mapError_eq_ok htable
        rw [table?] at hget
        apply mem_keys_iff.mpr
        cases hfound : List.lookup profileTable db.tables with
        | some found => exact ⟨found, rfl⟩
        | none =>
          rw [hfound] at hget
          cases hget
      rw [hfinal, Database.setRows, List.map_map]
      exact hdb
    obtain ⟨found, hfound⟩ := mem_keys_iff.mp hkey
    exact ⟨found, by rw [table?, hfound]; rfl⟩
  obtain ⟨found, hfound⟩ := htable'
  refine bind_eq_ok.mpr ⟨found, hfound, congrArg Except.ok ?_⟩
  rw [hfinal, Database.setRows_setRows]
  congr 1
  funext rows
  rw [Function.comp_apply, List.map_map]
  exact List.map_congr_left fun row _ => withoutCommonCaption_idem row

/-! ## The chain -/

theorem checked_result {check : Except MigrationError Unit} {next : Outcome} {final : Database}
    (h : (checked check next).result = .ok final) : check = .ok () ∧ checked check next = next := by
  cases check with
  | error error => cases h
  | ok u => exact ⟨rfl, rfl⟩

theorem andThen_result {step : Except MigrationError Database} {next : Database → Outcome}
    {final : Database} (h : (andThen step next).result = .ok final) :
    ∃ db, step = .ok db ∧ (next db).result = .ok final ∧
      (andThen step next).committed = db :: (next db).committed := by
  cases step with
  | error error => cases h
  | ok db => exact ⟨db, rfl, h, rfl⟩

/-- What a run has to show for the crashes between its transactions: its end is current,
and each file a crash can leave resumes exactly if its stamp is one to go on from. -/
structure CrashSafe (e : Engine) (run : Database → Outcome) (db final : Database) : Prop where
  current : final.userVersion = currentVersion ∧ validateV31Baseline final.schema = .ok ()
  resumes : ∀ crashed ∈ db :: (run db).committed,
    (Resumes e final crashed ↔ crashed.userVersion ≠ remoteArtifactsVersion ∧
      ¬(crashed.userVersion = currentVersion ∧ HasUniqueBoundLane crashed))

theorem runMigrations_current {e : Engine} {db : Database} (h : db.userVersion = currentVersion) :
    runMigrations e db = fromV31 db := by
  rw [runMigrations, h]
  rfl

theorem runMigrations_remoteArtifacts {e : Engine} {db : Database}
    (h : db.userVersion = remoteArtifactsVersion) :
    runMigrations e db = refused (.schemaResetRequired remoteArtifactsVersion) := by
  rw [runMigrations, h]
  rfl

/-- A file with the current stamp and the objects of v30 resumes unless the bound-lane
index is unique. -/
theorem resumes_current {e : Engine} {db other final : Database} (hversion : db.userVersion = currentVersion)
    (hobjects : validateV30BaselineObjects db.schema remoteArtifactsVersion = .ok ())
    (htables : other.tables = db.tables) (hretire : retireLegacyCommonCaptionProfileState other = .ok final) :
    Resumes e final db ↔ ¬ HasUniqueBoundLane db := by
  rw [← validateV31Baseline_iff hobjects]
  constructor
  · rintro ⟨db', hresult, -⟩
    rw [runMigrations_current hversion] at hresult
    exact (checked_result hresult).1
  · intro hvalid
    obtain ⟨final', hfinal', htables'⟩ := retire_congr htables.symm hretire
    refine ⟨final', ?_, ?_, ?_, htables'⟩
    · rw [runMigrations_current hversion, fromV31, hvalid, finish, hfinal']
      rfl
    · rw [retire_eq_ok hfinal', userVersion_setRows, hversion]
    · rw [retire_eq_ok hfinal', schema_setRows, hvalid]

theorem crashSafe_fromV31 {e : Engine} {db final : Database} (hversion : db.userVersion = currentVersion)
    (h : (fromV31 db).result = .ok final) : CrashSafe e fromV31 db final := by
  obtain ⟨hvalid, hnext⟩ := checked_result h
  obtain ⟨db', hretire, hfinal, hcommitted⟩ := andThen_result (hnext ▸ h : (finish db).result = .ok final)
  obtain rfl := Except.ok.inj hfinal
  have hversion' : db'.userVersion = currentVersion := by
    rw [retire_eq_ok hretire, userVersion_setRows, hversion]
  have hvalid' : validateV31Baseline db'.schema = .ok () := by
    rw [retire_eq_ok hretire, schema_setRows, hvalid]
  refine ⟨⟨hversion', hvalid'⟩, ?_⟩
  have hcurrent : ∀ crashed : Database, crashed.userVersion = currentVersion →
      (Resumes e db' crashed ↔ ¬ HasUniqueBoundLane crashed) →
      (Resumes e db' crashed ↔ crashed.userVersion ≠ remoteArtifactsVersion ∧
        ¬(crashed.userVersion = currentVersion ∧ HasUniqueBoundLane crashed)) := by
    intro crashed hcrashed hresumes
    rw [hresumes, hcrashed]
    constructor
    · intro hunique
      exact ⟨by decide, fun hboth => hunique hboth.2⟩
    · rintro ⟨-, hboth⟩ hunique
      exact hboth ⟨rfl, hunique⟩
  intro crashed hcrashed
  rw [fromV31, hvalid] at hcrashed
  cases hcrashed with
  | head =>
    exact hcurrent db hversion
      (resumes_current hversion (objects_of_validateV31Baseline hvalid) rfl hretire)
  | tail _ hcrashed =>
    replace hcrashed : crashed ∈ (finish db).committed := hcrashed
    rw [finish, hcommitted] at hcrashed
    cases hcrashed with
    | head =>
      exact hcurrent db' hversion' (resumes_current hversion' (objects_of_validateV31Baseline hvalid') rfl
        (retire_idem hretire))
    | tail _ hnil => cases hnil

/-- After the rebuild of the runs: of a file with the stamp of v30 nothing resumes, and of
one with the current stamp only what has the index of v31. -/
theorem crashSafe_fromV30 {e : Engine} {db final : Database}
    (hversion : db.userVersion = remoteArtifactsVersion ∨ db.userVersion = currentVersion)
    (h : (fromV30 e db).result = .ok final) : CrashSafe e (fromV30 e) db final := by
  obtain ⟨hvalid, hnext⟩ := checked_result h
  rw [fromV30, hnext] at h
  obtain ⟨db', hmigrate, hresult, hcommitted⟩ := andThen_result h
  have hsafe := crashSafe_fromV31 (userVersion_of_transaction hmigrate) hresult (e := e)
  refine ⟨hsafe.current, fun crashed hcrashed => ?_⟩
  cases hcrashed with
  | head =>
    cases hversion with
    | inl hold =>
      constructor
      · rintro ⟨final', hrefused, -⟩
        rw [runMigrations_remoteArtifacts hold] at hrefused
        cases hrefused
      · rintro ⟨hne, -⟩
        exact absurd hold hne
    | inr hcurrent =>
      obtain ⟨-, hnext'⟩ := checked_result hresult
      obtain ⟨retired, hretire, hfinal, -⟩ := andThen_result (hnext' ▸ hresult : (finish db').result = .ok final)
      obtain rfl := Except.ok.inj hfinal
      rw [resumes_current hcurrent hvalid (tables_of_migrateV30ToV31 hmigrate) hretire, hcurrent]
      constructor
      · intro hunique
        exact ⟨by decide, fun hboth => hunique hboth.2⟩
      · rintro ⟨-, hboth⟩ hunique
        exact hboth ⟨rfl, hunique⟩
  | tail _ hcrashed =>
    rw [fromV30, hnext, hcommitted] at hcrashed
    exact hsafe.resumes crashed hcrashed

/-- A version with an arm of its own resumes by that arm. -/
theorem crashSafe_step {e : Engine} {db final : Database} {run next : Database → Outcome}
    {check : Except MigrationError Unit} {step : Except MigrationError Database}
    (hrun : run db = checked check (andThen step next)) (harm : runMigrations e db = run db)
    (hremote : db.userVersion ≠ remoteArtifactsVersion) (hcurrent : db.userVersion ≠ currentVersion)
    (hnext : ∀ db', step = .ok db' → (next db').result = .ok final → CrashSafe e next db' final)
    (h : (run db).result = .ok final) : CrashSafe e run db final := by
  have hresult := h
  rw [hrun] at h
  obtain ⟨hvalid, hchecked⟩ := checked_result h
  rw [hchecked] at h
  obtain ⟨db', hstep, hdb', hcommitted⟩ := andThen_result h
  have hsafe := hnext db' hstep hdb'
  refine ⟨hsafe.current, fun crashed hcrashed => ?_⟩
  cases hcrashed with
  | head =>
    constructor
    · intro _
      exact ⟨hremote, fun hboth => hcurrent hboth.1⟩
    · intro _
      exact ⟨final, by rw [harm, hresult], hsafe.current.1, hsafe.current.2, rfl⟩
  | tail _ hcrashed =>
    rw [hrun, hchecked, hcommitted] at hcrashed
    exact hsafe.resumes crashed hcrashed

theorem crashSafe_fromV29 {e : Engine} {db final : Database} (hversion : db.userVersion = transcriptGapsVersion)
    (h : (fromV29 e db).result = .ok final) : CrashSafe e (fromV29 e) db final := by
  refine crashSafe_step rfl ?_ (by rw [hversion]; decide) (by rw [hversion]; decide) ?_ h
  · rw [runMigrations, hversion]
    rfl
  · intro db' hstep hresult
    exact crashSafe_fromV30 (.inr (userVersion_of_migrateV29ToV30 hstep)) hresult

theorem crashSafe_fromV28 {e : Engine} {db final : Database}
    (hversion : db.userVersion = translationInboxVersion) (h : (fromV28 e db).result = .ok final) :
    CrashSafe e (fromV28 e) db final := by
  refine crashSafe_step rfl ?_ (by rw [hversion]; decide) (by rw [hversion]; decide) ?_ h
  · rw [runMigrations, hversion]
    rfl
  · intro db' hstep hresult
    exact crashSafe_fromV29 (userVersion_of_transaction hstep) hresult

theorem crashSafe_fromV27 {e : Engine} {db final : Database} (hversion : db.userVersion = realtimeLoroVersion)
    (h : (fromV27 e db).result = .ok final) : CrashSafe e (fromV27 e) db final := by
  refine crashSafe_step rfl ?_ (by rw [hversion]; decide) (by rw [hversion]; decide) ?_ h
  · rw [runMigrations, hversion]
    rfl
  · intro db' hstep hresult
    exact crashSafe_fromV28 (userVersion_of_transaction hstep) hresult

theorem crashSafe_fromV26 {e : Engine} {db final : Database} (hversion : db.userVersion = multilingualVersion)
    (h : (fromV26 e db).result = .ok final) : CrashSafe e (fromV26 e) db final := by
  refine crashSafe_step rfl ?_ (by rw [hversion]; decide) (by rw [hversion]; decide) ?_ h
  · rw [runMigrations, hversion]
    rfl
  · intro db' hstep hresult
    exact crashSafe_fromV27 (userVersion_of_migrateV26ToV27 hstep) hresult

theorem crashSafe_fromV25 {e : Engine} {db final : Database}
    (hversion : db.userVersion = selectedLanguagesVersion) (h : (fromV25 e db).result = .ok final) :
    CrashSafe e (fromV25 e) db final := by
  refine crashSafe_step rfl ?_ (by rw [hversion]; decide) (by rw [hversion]; decide) ?_ h
  · rw [runMigrations, hversion]
    rfl
  · intro db' hstep hresult
    exact crashSafe_fromV26 (userVersion_of_transaction hstep) hresult

theorem crashSafe_fromV24 {e : Engine} {db final : Database} (hversion : db.userVersion = speakerVersion)
    (h : (fromV24 e db).result = .ok final) : CrashSafe e (fromV24 e) db final := by
  refine crashSafe_step rfl ?_ (by rw [hversion]; decide) (by rw [hversion]; decide) ?_ h
  · rw [runMigrations, hversion]
    rfl
  · intro db' hstep hresult
    exact crashSafe_fromV25 (userVersion_of_transaction hstep) hresult

theorem crashSafe_fromV23 {e : Engine} {db final : Database}
    (hversion : db.userVersion = oldestSupportedVersion) (h : (fromV23 e db).result = .ok final) :
    CrashSafe e (fromV23 e) db final := by
  refine crashSafe_step rfl ?_ (by rw [hversion]; decide) (by rw [hversion]; decide) ?_ h
  · rw [runMigrations, hversion]
    rfl
  · intro db' hstep hresult
    exact crashSafe_fromV24 (userVersion_of_transaction hstep) hresult

/-- Migration is crash-resumable except at the two stamps no run goes on from: v30, and the
current version on a file that still has the unique bound-lane index. -/
theorem migration_resumes_iff {e : Engine} {db final crashed : Database}
    (hsupported : oldestSupportedVersion ≤ db.userVersion ∧ db.userVersion ≤ remoteArtifactsVersion)
    (hvalid : (uninterrupted e db).result = .ok final)
    (hcrashed : crashed ∈ db :: (runMigrations e db).committed) :
    Resumes e final crashed ↔ crashed.userVersion ≠ remoteArtifactsVersion ∧
      ¬(crashed.userVersion = currentVersion ∧ HasUniqueBoundLane crashed) := by
  have hversions : db.userVersion = 23 ∨ db.userVersion = 24 ∨ db.userVersion = 25 ∨
      db.userVersion = 26 ∨ db.userVersion = 27 ∨ db.userVersion = 28 ∨ db.userVersion = 29 ∨
      db.userVersion = 30 := by
    have hlow : 23 ≤ db.userVersion := hsupported.1
    have hhigh : db.userVersion ≤ 30 := hsupported.2
    omega
  have harm : ∀ {run : Database → Outcome}, runMigrations e db = run db → uninterrupted e db = run db →
      ((run db).result = .ok final → CrashSafe e run db final) →
      (Resumes e final crashed ↔ crashed.userVersion ≠ remoteArtifactsVersion ∧
        ¬(crashed.userVersion = currentVersion ∧ HasUniqueBoundLane crashed)) := by
    intro run hmigrations hrun hsafe
    rw [hrun] at hvalid
    rw [hmigrations] at hcrashed
    exact (hsafe hvalid).resumes crashed hcrashed
  rcases hversions with h | h | h | h | h | h | h | h
  · exact harm (by rw [runMigrations, h]; rfl) (by rw [uninterrupted, runMigrations, h]; rfl)
      (crashSafe_fromV23 h)
  · exact harm (by rw [runMigrations, h]; rfl) (by rw [uninterrupted, runMigrations, h]; rfl)
      (crashSafe_fromV24 h)
  · exact harm (by rw [runMigrations, h]; rfl) (by rw [uninterrupted, runMigrations, h]; rfl)
      (crashSafe_fromV25 h)
  · exact harm (by rw [runMigrations, h]; rfl) (by rw [uninterrupted, runMigrations, h]; rfl)
      (crashSafe_fromV26 h)
  · exact harm (by rw [runMigrations, h]; rfl) (by rw [uninterrupted, runMigrations, h]; rfl)
      (crashSafe_fromV27 h)
  · exact harm (by rw [runMigrations, h]; rfl) (by rw [uninterrupted, runMigrations, h]; rfl)
      (crashSafe_fromV28 h)
  · exact harm (by rw [runMigrations, h]; rfl) (by rw [uninterrupted, runMigrations, h]; rfl)
      (crashSafe_fromV29 h)
  · -- The run over a file of v30 commits nothing, so the crash leaves the file itself.
    rw [runMigrations_remoteArtifacts h] at hcrashed
    replace hvalid : (fromV30 e db).result = .ok final := by
      rw [← hvalid, uninterrupted, h]
      rfl
    cases hcrashed with
    | head => exact (crashSafe_fromV30 (.inl h) hvalid).resumes db List.mem_cons_self
    | tail _ hnil => cases hnil

/-! ## A file of v29 -/

/-- An engine that finds nothing to object to. -/
def permissive : Engine := { admits := fun _ _ => true, foreignKeyViolations := fun _ => 0 }

def empty : Database := { userVersion := 0, tables := [], indexes := [], triggers := [], views := [] }

/-- The objects of v29 without a row: no journal of remote artifacts, and the bound-lane
index as v28 created it. -/
def v29Database : Database :=
  let objects := baselineObjects ++ notebookCaptureRunsSchema ++ realtimeTranscriptGapsSchema ++
    [.dropIndex boundLaneIndex, uniqueIndex boundLaneIndex "realtime_translation_inbox"]
  match executeBatch permissive objects empty with
  | .ok db => { db with userVersion := transcriptGapsVersion }
  | .error _ => empty

def isUniqueBoundLane (db : Database) : Bool :=
  (List.lookup boundLaneIndex db.indexes).any fun index => containsLowercase index.sql "unique"

theorem hasUniqueBoundLane_of_is {db : Database} (h : isUniqueBoundLane db = true) :
    HasUniqueBoundLane db := by
  obtain ⟨index, hindex, hunique⟩ := (Option.any_eq_true _ _).mp h
  exact ⟨index, hindex, hunique⟩

/-- Its migration succeeds, and its first transaction leaves the current stamp on a file
whose bound-lane index is unique. -/
theorem v29Database_migrates :
    ∃ final rebuilt rest, (runMigrations permissive v29Database).result = .ok final ∧
      (runMigrations permissive v29Database).committed = rebuilt :: rest ∧
      rebuilt.userVersion = currentVersion ∧ HasUniqueBoundLane rebuilt := by
  have hrun : ((runMigrations permissive v29Database).result.isOk &&
      (runMigrations permissive v29Database).committed.head?.any fun rebuilt =>
        decide (rebuilt.userVersion = currentVersion) && isUniqueBoundLane rebuilt) = true := by
    decide +kernel
  generalize runMigrations permissive v29Database = outcome at hrun
  obtain ⟨committed, result⟩ := outcome
  cases committed with
  | nil =>
    rw [List.head?_nil, Option.any_none, Bool.and_false] at hrun
    cases hrun
  | cons rebuilt rest =>
    cases result with
    | error error => cases hrun
    | ok final =>
      have hboth := Bool.and_eq_true_iff.mp (Bool.and_eq_true_iff.mp hrun).2
      exact ⟨final, rebuilt, rest, rfl, rfl, of_decide_eq_true hboth.1, hasUniqueBoundLane_of_is hboth.2⟩

theorem v29Database_userVersion : v29Database.userVersion = transcriptGapsVersion := by
  decide +kernel

theorem uninterrupted_v29Database :
    uninterrupted permissive v29Database = runMigrations permissive v29Database := by
  refine if_neg ?_
  rw [v29Database_userVersion]
  decide

/-- The untouched file of v29 resumes. -/
theorem migration_resumes_v29 : ∃ final, Resumes permissive final v29Database := by
  obtain ⟨final, _, _, hresult, _⟩ := v29Database_migrates
  refine ⟨final, (migration_resumes_iff ?_ ?_ List.mem_cons_self).mpr ⟨?_, ?_⟩⟩
  · rw [v29Database_userVersion]
    decide
  · rw [uninterrupted_v29Database, hresult]
  · rw [v29Database_userVersion]
    decide
  · rintro ⟨hversion, -⟩
    rw [v29Database_userVersion] at hversion
    exact absurd hversion (by decide)

/-- A crash after the rebuild of the runs leaves a file that must be reset. -/
theorem migration_stuck_after_rebuild :
    ∃ final crashed, (oldestSupportedVersion ≤ v29Database.userVersion ∧
        v29Database.userVersion ≤ remoteArtifactsVersion) ∧
      (uninterrupted permissive v29Database).result = .ok final ∧
      crashed ∈ v29Database :: (runMigrations permissive v29Database).committed ∧
      ¬ Resumes permissive final crashed := by
  obtain ⟨final, rebuilt, rest, hresult, hcommitted, hversion, hunique⟩ := v29Database_migrates
  refine ⟨final, rebuilt, ?_, ?_, ?_, ?_⟩
  · rw [v29Database_userVersion]
    decide
  · rw [uninterrupted_v29Database, hresult]
  · rw [hcommitted]
    exact List.mem_cons_of_mem _ List.mem_cons_self
  · rintro ⟨db, hdb, -⟩
    rw [runMigrations_current hversion] at hdb
    exact not_unique_of_validateV31Baseline (checked_result hdb).1 hunique

end Zulangue.Migration
