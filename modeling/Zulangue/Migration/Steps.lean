import Zulangue.Migration.Baseline

/-!
# The migrations

Each `migrate_vN_to_vM` is its statements followed by the stamp of the version it claims,
in one transaction: it leaves the file as it was or with everything done. What
`INSERT … SELECT` and `UPDATE` compute from rows is given on rows read by column name.
-/

namespace Zulangue.Migration

open Zulangue.Lib.Sqlite Zulangue.Lib.Fallible

/-- A batch and the stamp, committed together. -/
def transaction (e : Engine) (statements : List Statement) (version : Int) (db : Database) :
    Except MigrationError Database := do
  let db ← (executeBatch e statements db).mapError .sql
  return { db with userVersion := version }

/-- The columns taken over from another row. -/
def project (columns : List String) (row : Row) : Row := columns.map fun column => (column, row.get column)

def migrateV23ToV24 (e : Engine) : Database → Except MigrationError Database :=
  transaction e
    [.createTable "participants" (shape
       ["id", "display_name", "created_at", "updated_at"]),
     index "idx_participants_display_name" "participants",
     .createTable "session_speakers" (shape
       ["id", "session_id", "provider_session_epoch", "provider", "provider_label",
        "local_display_name", "participant_id", "participant_linked_at", "created_at", "updated_at"]),
     index "idx_session_speakers_session_epoch" "session_speakers",
     index "idx_session_speakers_participant" "session_speakers",
     .addColumn "realtime_utterances" "session_speaker_id" "session_speaker_id TEXT" .null,
     index "idx_realtime_utterances_session_speaker" "realtime_utterances"]
    speakerVersion

def hexDigit (n : Nat) : Char := if n < 10 then Char.ofNat (48 + n) else Char.ofNat (87 + n)

def jsonEscape (c : Char) : List Char :=
  if c = '"' ∨ c = '\\' then ['\\', c]
  else if c = '\n' then ['\\', 'n']
  else if c = '\t' then ['\\', 't']
  else if c = '\r' then ['\\', 'r']
  else if c.toNat = 8 then ['\\', 'b']
  else if c.toNat = 12 then ['\\', 'f']
  else if c.toNat < 32 then ['\\', 'u', '0', '0', hexDigit (c.toNat / 16), hexDigit (c.toNat % 16)]
  else [c]

/-- A string as `json_array` writes it. -/
def jsonString (value : String) : String :=
  String.ofList ('"' :: value.toList.flatMap jsonEscape ++ ['"'])

def jsonElement : Cell → String
  | .text value => jsonString value
  | .integer value => toString value
  | .null => "null"
  | .blob _ => ""

/-- `json_array(language_a, language_b)`. -/
def jsonArray (first second : Cell) : Cell :=
  .text ("[" ++ jsonElement first ++ "," ++ jsonElement second ++ "]")

def selectedLanguagesRow (row : Row) : Row :=
  project ["notebook_id", "remote_realtime_enabled", "capture_mode", "language_a", "language_b",
      "left_language", "right_language"] row ++
    [("selected_languages_json", jsonArray (row.get "language_a") (row.get "language_b")),
     ("common_caption_language", .null)] ++
    project ["privacy_level", "send_context_to_soniox", "revision", "created_at", "updated_at"] row

def migrateV24ToV25 (e : Engine) : Database → Except MigrationError Database :=
  transaction e
    [.renameTable "notebook_capture_profiles" "notebook_capture_profiles_v24",
     .createTable "notebook_capture_profiles" (shape
       ["notebook_id", "remote_realtime_enabled", "capture_mode", "language_a", "language_b",
        "left_language", "right_language", "selected_languages_json", "common_caption_language",
        "privacy_level", "send_context_to_soniox", "revision", "created_at", "updated_at"]),
     .insertSelect "notebook_capture_profiles" "notebook_capture_profiles_v24"
       (fun db => (db.rows "notebook_capture_profiles_v24").map selectedLanguagesRow),
     .dropTable "notebook_capture_profiles_v24"]
    selectedLanguagesVersion

def isNull (cell : Cell) : Bool := cell = .null

def sourceVariantRow (row : Row) : Row :=
  [("utterance_id", row.get "id"), ("language", row.get "source_language"), ("role", .text "source"),
   ("text", row.get "source_text"), ("state", .text "ready"), ("completion", row.get "completion"),
   ("revision", row.get "revision"), ("created_at", row.get "created_at"),
   ("updated_at", row.get "updated_at")]

def translationVariantRow (row : Row) : Row :=
  [("utterance_id", row.get "id"), ("language", row.get "translated_language"),
   ("role", .text "translation"), ("text", row.get "translated_text"), ("state", .text "ready"),
   ("completion", row.get "completion"), ("revision", row.get "revision"),
   ("created_at", row.get "created_at"), ("updated_at", row.get "updated_at")]

/-- A mutation of v25 with the language of the lane it edits, for each utterance it joins. -/
def laneMutationRows (db : Database) (mutation : Row) : List Row :=
  ((db.rows "realtime_utterances").filter fun u => u.get "id" = mutation.get "utterance_id").map fun u =>
    let language :=
      if mutation.get "lane" = .text "source" then u.get "source_language"
      else if mutation.get "lane" = .text "translated" then u.get "translated_language" else .null
    project ["id", "session_id", "utterance_id", "lane"] mutation ++ [("lane_language", language)] ++
      project ["expected_revision", "target_text", "state", "created_at", "updated_at"] mutation

def migrateV25ToV26 (e : Engine) : Database → Except MigrationError Database :=
  transaction e
    [.createTable "realtime_utterance_variants" (shape
       ["utterance_id", "language", "role", "text", "state", "completion", "revision", "created_at",
        "updated_at"]),
     uniqueIndex "idx_realtime_utterance_variants_language" "realtime_utterance_variants",
     uniqueIndex "idx_realtime_utterance_variants_one_source" "realtime_utterance_variants",
     .insertSelect "realtime_utterance_variants" "realtime_utterances"
       (fun db => (db.rows "realtime_utterances").map sourceVariantRow),
     .insertSelect "realtime_utterance_variants" "realtime_utterances"
       (fun db => ((db.rows "realtime_utterances").filter fun row =>
         !isNull (row.get "translated_language") && !isNull (row.get "translated_text")).map
           translationVariantRow),
     .renameTable "notebook_projection_mutations" "notebook_projection_mutations_v25",
     .createTable "notebook_projection_mutations" (shape
       ["id", "session_id", "utterance_id", "lane", "lane_language", "expected_revision",
        "target_text", "state", "created_at", "updated_at"]),
     .insertSelect "notebook_projection_mutations" "notebook_projection_mutations_v25"
       (fun db => (db.rows "notebook_projection_mutations_v25").flatMap (laneMutationRows db)),
     .dropTable "notebook_projection_mutations_v25",
     index "idx_notebook_projection_mutations_session" "notebook_projection_mutations"]
    multilingualVersion

/-- `trim`: SQLite takes away spaces only. -/
def trimSpaces (cs : List Char) : List Char :=
  ((cs.dropWhile (· = ' ')).reverse.dropWhile (· = ' ')).reverse

/-- The primary subtag: `lower` of what stands before the first `-` of the trimmed text. -/
def primaryLanguage : Cell → Cell
  | .text value => .text (String.ofList (((trimSpaces value.toList).takeWhile (· ≠ '-')).map Char.toLower))
  | cell => cell

/-- `lower(trim(…))`. -/
def lowerTrimmed : Cell → Cell
  | .text value => .text (String.ofList ((trimSpaces value.toList).map Char.toLower))
  | cell => cell

def hasPrimaryLanguageCollision (db : Database) : Bool :=
  let keys := (db.rows "realtime_utterance_variants").map fun row =>
    (row.get "utterance_id", primaryLanguage (row.get "language"))
  !decide keys.Nodup

def hasBaseLanguageCollision (db : Database) : Bool :=
  (db.rows "realtime_utterances").any fun row =>
    !isNull (row.get "translated_language") && !isNull (row.get "source_language") &&
      primaryLanguage (row.get "source_language") = primaryLanguage (row.get "translated_language")

def isComplete (row : Row) : Bool := row.get "completion" = .text "complete"

def isReadyComplete (row : Row) : Bool := row.get "state" = .text "ready" && isComplete row

/-- Whether a run has a Final source or a Final translation. -/
def hasFinalLane (db : Database) (run : Row) : Bool :=
  (db.rows "realtime_utterances").any fun u =>
    u.get "session_id" = run.get "session_id" &&
      (isComplete u || (db.rows "realtime_utterance_variants").any fun v =>
        v.get "utterance_id" = u.get "id" && v.get "role" = .text "translation" && isReadyComplete v)

/-- `COALESCE((SELECT variant.revision …), 0)`. -/
def variantRevision (db : Database) (mutation : Row) : Cell :=
  let same := (db.rows "realtime_utterance_variants").find? fun v =>
    v.get "utterance_id" = mutation.get "utterance_id" &&
      lowerTrimmed (v.get "language") = lowerTrimmed (mutation.get "lane_language")
  match same with
  | some v => v.get "revision"
  | none => .integer 0

def laneRevisionMutationRow (db : Database) (mutation : Row) : Row :=
  project ["id", "session_id", "utterance_id", "lane", "lane_language"] mutation ++
    [("expected_revision", .integer 0), ("expected_variant_revision", variantRevision db mutation)] ++
    project ["target_text", "state", "created_at", "updated_at"] mutation

def realtimeLoroStatements : List Statement :=
  [.addColumn "notebook_capture_runs" "realtime_loro_desired_revision"
     "realtime_loro_desired_revision INTEGER NOT NULL DEFAULT 0" (.integer 0),
   .addColumn "notebook_capture_runs" "realtime_loro_applied_revision"
     "realtime_loro_applied_revision INTEGER NOT NULL DEFAULT 0" (.integer 0),
   .addColumn "realtime_utterances" "source_projection_revision"
     "source_projection_revision INTEGER NOT NULL DEFAULT 0" (.integer 0),
   .addColumn "realtime_utterance_variants" "projection_revision"
     "projection_revision INTEGER NOT NULL DEFAULT 0" (.integer 0),
   .update "realtime_utterances" (fun _ row =>
     (row.set "source_language" (primaryLanguage (row.get "source_language"))).set
       "translated_language" (primaryLanguage (row.get "translated_language"))),
   .update "realtime_utterance_variants" (fun _ row =>
     row.set "language" (primaryLanguage (row.get "language"))),
   .update "notebook_projection_mutations" (fun _ row =>
     row.set "lane_language" (primaryLanguage (row.get "lane_language"))),
   .update "notebook_capture_runs" (fun db row =>
     if hasFinalLane db row then row.set "realtime_loro_desired_revision" (.integer 1) else row),
   .update "realtime_utterances" (fun _ row =>
     if isComplete row then row.set "source_projection_revision" (.integer 1) else row),
   .update "realtime_utterance_variants" (fun _ row =>
     if isReadyComplete row then row.set "projection_revision" (.integer 1) else row),
   .dropIndex "idx_notebook_projection_mutations_session",
   .renameTable "notebook_projection_mutations" "notebook_projection_mutations_v26",
   .createTable "notebook_projection_mutations" (shape
     ["id", "session_id", "utterance_id", "lane", "lane_language", "expected_revision",
      "expected_variant_revision", "target_text", "state", "created_at", "updated_at"]),
   .insertSelect "notebook_projection_mutations" "notebook_projection_mutations_v26"
     (fun db => (db.rows "notebook_projection_mutations_v26").map (laneRevisionMutationRow db)),
   .dropTable "notebook_projection_mutations_v26",
   index "idx_notebook_projection_mutations_session" "notebook_projection_mutations",
   uniqueIndex "idx_notebook_projection_mutations_utterance_language" "notebook_projection_mutations",
   .createTable "realtime_utterance_overrides" (shape
     ["utterance_id", "lane", "lane_language", "text", "machine_utterance_revision",
      "machine_variant_revision", "edit_revision", "created_at", "updated_at"])]

def migrateV26ToV27 (e : Engine) (db : Database) : Except MigrationError Database :=
  -- Two lanes of one utterance that come to the same primary language would clash.
  if hasPrimaryLanguageCollision db || hasBaseLanguageCollision db then
    .error (.schemaResetRequired multilingualVersion)
  else transaction e realtimeLoroStatements realtimeLoroVersion db

def migrateV27ToV28 (e : Engine) : Database → Except MigrationError Database :=
  transaction e
    [uniqueIndex "idx_realtime_utterances_id_sequence" "realtime_utterances",
     .createTable "realtime_translation_inbox" (shape
       ["session_id", "lane_index", "group_epoch", "provider_sequence", "target_language",
        "source_language", "source_text", "source_start_ms", "source_end_ms", "translated_text",
        "completion", "state", "revision", "bound_utterance_id", "bound_sequence", "created_at",
        "updated_at"]),
     uniqueIndex boundLaneIndex "realtime_translation_inbox",
     index "idx_realtime_translation_inbox_unbound" "realtime_translation_inbox"]
    translationInboxVersion

def migrateV28ToV29 (e : Engine) : Database → Except MigrationError Database :=
  transaction e realtimeTranscriptGapsSchema transcriptGapsVersion

/-- A claimed post-stop model stays only with the receipt of a result. -/
def rebuiltRunRow (row : Row) : Row :=
  let kept := fun column =>
    if isNull (row.get "async_provider_output_sha256") then .null else row.get column
  ((project ["id", "notebook_id", "session_id", "profile_revision", "profile_snapshot_json",
      "realtime_provider_id", "realtime_model_id", "post_stop_provider_id", "post_stop_model_id",
      "context_receipt_json", "context_applied_at", "context_snapshot_ciphertext",
      "context_snapshot_key_ref", "context_snapshot_sha256", "capture_state", "remote_health",
      "projection_state", "async_task_state", "async_authorized_at_ms", "async_language_hint",
      "async_task_id", "async_task_payload_sha256", "async_projection_state",
      "async_provider_output_sha256", "async_provider_result_json", "async_provider_completed_at",
      "async_search_projection_state", "provider_error_type", "provider_request_id",
      "audio_journal_path", "audio_path", "audio_key_ref", "sample_rate", "channels",
      "captured_frames", "created_at", "updated_at", "completed_at",
      "realtime_loro_desired_revision", "realtime_loro_applied_revision"] row).set
      "post_stop_provider_id" (kept "post_stop_provider_id")).set
      "post_stop_model_id" (kept "post_stop_model_id")

def runsRebuildStatements : List Statement :=
  [.dropTrigger "notebook_capture_runs_async_receipt_insert",
   .dropTrigger "notebook_capture_runs_async_receipt_update",
   .dropTrigger "notebook_capture_runs_async_state_transition",
   .dropTrigger "notebook_capture_runs_async_authorization_immutable",
   .dropTrigger "notebook_capture_runs_async_projection_transition",
   .dropTrigger "notebook_capture_runs_async_identity_immutable",
   .dropTrigger "notebook_capture_runs_provider_receipt_immutable",
   .dropTrigger "notebook_capture_runs_realtime_provenance_immutable",
   .dropTrigger "notebook_capture_runs_post_stop_provenance_immutable",
   .dropIndex "idx_notebook_capture_runs_notebook_created",
   .dropIndex "idx_notebook_capture_runs_single_active",
   .renameTable "notebook_capture_runs" "notebook_capture_runs_v29_legacy"] ++
  notebookCaptureRunsSchema ++
  [.insertSelect "notebook_capture_runs" "notebook_capture_runs_v29_legacy"
     (fun db => (db.rows "notebook_capture_runs_v29_legacy").map rebuiltRunRow),
   .dropTable "notebook_capture_runs_v29_legacy"] ++
  providerRemoteArtifactsSchema

/-- The foreign keys are counted before the commit. The stamp is that of the current
version, not of the one this migration leads to. -/
def migrateV29ToV30 (e : Engine) (db : Database) : Except MigrationError Database := do
  let rebuilt ← (executeBatch e runsRebuildStatements db).mapError .sql
  if 0 < e.foreignKeyViolations rebuilt then
    .error (.foreignKeyViolations (e.foreignKeyViolations rebuilt))
  else .ok { rebuilt with userVersion := currentVersion }

def boundLaneIndexStatements : List Statement :=
  [.dropIndexIfExists boundLaneIndex,
   index boundLaneIndex "realtime_translation_inbox"]

def migrateV30ToV31 (e : Engine) : Database → Except MigrationError Database :=
  transaction e boundLaneIndexStatements currentVersion

theorem transaction_eq_ok {e : Engine} {statements : List Statement} {version : Int} {db db' : Database}
    (h : transaction e statements version db = .ok db') :
    ∃ mid, executeBatch e statements db = .ok mid ∧ db' = { mid with userVersion := version } := by
  obtain ⟨mid, hmid, h⟩ := bind_eq_ok.mp h
  exact ⟨mid, mapError_eq_ok hmid, (Except.ok.inj h).symm⟩

theorem userVersion_of_transaction {e : Engine} {statements : List Statement} {version : Int}
    {db db' : Database} (h : transaction e statements version db = .ok db') :
    db'.userVersion = version := by
  obtain ⟨mid, -, rfl⟩ := transaction_eq_ok h
  rfl

theorem userVersion_of_migrateV26ToV27 {e : Engine} {db db' : Database}
    (h : migrateV26ToV27 e db = .ok db') : db'.userVersion = realtimeLoroVersion := by
  rw [migrateV26ToV27] at h
  split at h
  · cases h
  · exact userVersion_of_transaction h

/-- The rebuild of the runs claims the version after the one it leads to. -/
theorem userVersion_of_migrateV29ToV30 {e : Engine} {db db' : Database}
    (h : migrateV29ToV30 e db = .ok db') : db'.userVersion = currentVersion := by
  obtain ⟨rebuilt, -, h⟩ := bind_eq_ok.mp h
  split at h
  · cases h
  · obtain rfl := Except.ok.inj h
    rfl

theorem isIndex_of_mem_boundLaneIndexStatements {s : Statement} (hs : s ∈ boundLaneIndexStatements) :
    s.IsIndex := by
  cases hs with
  | head => exact .dropIfExists _
  | tail _ hs =>
    cases hs with
    | head => exact .create _ _
    | tail _ hs => cases hs

/-- The last migration only replaces an index. -/
theorem tables_of_migrateV30ToV31 {e : Engine} {db db' : Database} (h : migrateV30ToV31 e db = .ok db') :
    db'.tables = db.tables := by
  obtain ⟨mid, hmid, rfl⟩ := transaction_eq_ok h
  have htables : mid.tables = db.tables := by
    refine tables_eq_of_executeBatch ?_ hmid
    intro s hs
    exact isIndex_of_mem_boundLaneIndexStatements hs
  exact htables

end Zulangue.Migration
