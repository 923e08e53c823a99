import Zulangue.Lib.Sqlite

/-!
# The schema versions

The versions of `vt-store/src/migration.rs`, the objects each one has, and the checks a
file must pass before it is migrated or used. A probe is a `SELECT … LIMIT 0` that has to
compile. Of the text of an object only what the checks look for is kept.
-/

namespace Zulangue.Migration

open Zulangue.Lib Zulangue.Lib.Sqlite

def oldestSupportedVersion : Int := 23
def speakerVersion : Int := 24
def selectedLanguagesVersion : Int := 25
def multilingualVersion : Int := 26
def realtimeLoroVersion : Int := 27
def translationInboxVersion : Int := 28
def transcriptGapsVersion : Int := 29
def remoteArtifactsVersion : Int := 30
def currentVersion : Int := 31

def v23Tables : List String :=
  ["audio_retention_chunks", "context_pack_sources", "context_packs", "notebook_capture_profiles",
   "notebook_capture_runs", "notebook_context_pack_bindings", "notebook_projection_mutations",
   "notebook_session_projections", "notebook_sessions", "notebook_tabs", "notebooks",
   "realtime_utterances", "search_index", "search_index_config", "search_index_content",
   "search_index_data", "search_index_docsize", "search_index_idx", "session_meta",
   "session_purge_jobs", "session_records"]

def v23Indexes : List String :=
  ["idx_audio_retention_chunks_due", "idx_audio_retention_chunks_session",
   "idx_context_pack_sources_pack_order", "idx_context_packs_library",
   "idx_context_packs_private_owner", "idx_notebook_capture_runs_notebook_created",
   "idx_notebook_capture_runs_single_active", "idx_notebook_context_bindings_order",
   "idx_notebook_projection_mutations_session", "idx_notebook_session_projections_notebook_session",
   "idx_notebook_session_projections_tab", "idx_notebook_sessions_session_unique",
   "idx_notebook_tabs_builtin_unique", "idx_notebook_tabs_notebook_position",
   "idx_notebooks_updated", "idx_realtime_utterances_session_sequence",
   "idx_session_purge_jobs_updated", "idx_session_records_active_created"]

def v23Triggers : List String :=
  ["context_binding_library_only_insert", "context_binding_library_only_update",
   "notebook_capture_runs_async_authorization_immutable",
   "notebook_capture_runs_async_identity_immutable",
   "notebook_capture_runs_async_projection_transition",
   "notebook_capture_runs_async_receipt_insert", "notebook_capture_runs_async_receipt_update",
   "notebook_capture_runs_async_state_transition",
   "notebook_capture_runs_post_stop_provenance_immutable",
   "notebook_capture_runs_provider_receipt_immutable",
   "notebook_capture_runs_realtime_provenance_immutable",
   "realtime_utterances_require_realtime_provenance", "session_meta_provider_tokens_immutable"]

def v24Tables : List String :=
  ["audio_retention_chunks", "context_pack_sources", "context_packs", "notebook_capture_profiles",
   "notebook_capture_runs", "notebook_context_pack_bindings", "notebook_projection_mutations",
   "notebook_session_projections", "notebook_sessions", "notebook_tabs", "notebooks",
   "participants", "realtime_utterances", "search_index", "search_index_config",
   "search_index_content", "search_index_data", "search_index_docsize", "search_index_idx",
   "session_meta", "session_purge_jobs", "session_records", "session_speakers"]

def v24Indexes : List String :=
  ["idx_audio_retention_chunks_due", "idx_audio_retention_chunks_session",
   "idx_context_pack_sources_pack_order", "idx_context_packs_library",
   "idx_context_packs_private_owner", "idx_notebook_capture_runs_notebook_created",
   "idx_notebook_capture_runs_single_active", "idx_notebook_context_bindings_order",
   "idx_notebook_projection_mutations_session", "idx_notebook_session_projections_notebook_session",
   "idx_notebook_session_projections_tab", "idx_notebook_sessions_session_unique",
   "idx_notebook_tabs_builtin_unique", "idx_notebook_tabs_notebook_position",
   "idx_notebooks_updated", "idx_participants_display_name",
   "idx_realtime_utterances_session_sequence", "idx_realtime_utterances_session_speaker",
   "idx_session_purge_jobs_updated", "idx_session_records_active_created",
   "idx_session_speakers_participant", "idx_session_speakers_session_epoch"]

def v24Triggers : List String := v23Triggers

def v25Tables : List String := v24Tables

def v25Indexes : List String := v24Indexes

def v25Triggers : List String := v24Triggers

def v26Tables : List String :=
  ["audio_retention_chunks", "context_pack_sources", "context_packs", "notebook_capture_profiles",
   "notebook_capture_runs", "notebook_context_pack_bindings", "notebook_projection_mutations",
   "notebook_session_projections", "notebook_sessions", "notebook_tabs", "notebooks",
   "participants", "realtime_utterance_variants", "realtime_utterances", "search_index",
   "search_index_config", "search_index_content", "search_index_data", "search_index_docsize",
   "search_index_idx", "session_meta", "session_purge_jobs", "session_records", "session_speakers"]

def v26Indexes : List String :=
  ["idx_audio_retention_chunks_due", "idx_audio_retention_chunks_session",
   "idx_context_pack_sources_pack_order", "idx_context_packs_library",
   "idx_context_packs_private_owner", "idx_notebook_capture_runs_notebook_created",
   "idx_notebook_capture_runs_single_active", "idx_notebook_context_bindings_order",
   "idx_notebook_projection_mutations_session", "idx_notebook_session_projections_notebook_session",
   "idx_notebook_session_projections_tab", "idx_notebook_sessions_session_unique",
   "idx_notebook_tabs_builtin_unique", "idx_notebook_tabs_notebook_position",
   "idx_notebooks_updated", "idx_participants_display_name",
   "idx_realtime_utterance_variants_language", "idx_realtime_utterance_variants_one_source",
   "idx_realtime_utterances_session_sequence", "idx_realtime_utterances_session_speaker",
   "idx_session_purge_jobs_updated", "idx_session_records_active_created",
   "idx_session_speakers_participant", "idx_session_speakers_session_epoch"]

def v26Triggers : List String := v25Triggers

def v27Tables : List String :=
  ["audio_retention_chunks", "context_pack_sources", "context_packs", "notebook_capture_profiles",
   "notebook_capture_runs", "notebook_context_pack_bindings", "notebook_projection_mutations",
   "notebook_session_projections", "notebook_sessions", "notebook_tabs", "notebooks",
   "participants", "realtime_utterance_overrides", "realtime_utterance_variants",
   "realtime_utterances", "search_index", "search_index_config", "search_index_content",
   "search_index_data", "search_index_docsize", "search_index_idx", "session_meta",
   "session_purge_jobs", "session_records", "session_speakers"]

def v27Indexes : List String :=
  ["idx_audio_retention_chunks_due", "idx_audio_retention_chunks_session",
   "idx_context_pack_sources_pack_order", "idx_context_packs_library",
   "idx_context_packs_private_owner", "idx_notebook_capture_runs_notebook_created",
   "idx_notebook_capture_runs_single_active", "idx_notebook_context_bindings_order",
   "idx_notebook_projection_mutations_session",
   "idx_notebook_projection_mutations_utterance_language",
   "idx_notebook_session_projections_notebook_session", "idx_notebook_session_projections_tab",
   "idx_notebook_sessions_session_unique", "idx_notebook_tabs_builtin_unique",
   "idx_notebook_tabs_notebook_position", "idx_notebooks_updated", "idx_participants_display_name",
   "idx_realtime_utterance_variants_language", "idx_realtime_utterance_variants_one_source",
   "idx_realtime_utterances_session_sequence", "idx_realtime_utterances_session_speaker",
   "idx_session_purge_jobs_updated", "idx_session_records_active_created",
   "idx_session_speakers_participant", "idx_session_speakers_session_epoch"]

def v27Triggers : List String := v26Triggers

def v28Tables : List String :=
  ["audio_retention_chunks", "context_pack_sources", "context_packs", "notebook_capture_profiles",
   "notebook_capture_runs", "notebook_context_pack_bindings", "notebook_projection_mutations",
   "notebook_session_projections", "notebook_sessions", "notebook_tabs", "notebooks",
   "participants", "realtime_translation_inbox", "realtime_utterance_overrides",
   "realtime_utterance_variants", "realtime_utterances", "search_index", "search_index_config",
   "search_index_content", "search_index_data", "search_index_docsize", "search_index_idx",
   "session_meta", "session_purge_jobs", "session_records", "session_speakers"]

def v28Indexes : List String :=
  ["idx_audio_retention_chunks_due", "idx_audio_retention_chunks_session",
   "idx_context_pack_sources_pack_order", "idx_context_packs_library",
   "idx_context_packs_private_owner", "idx_notebook_capture_runs_notebook_created",
   "idx_notebook_capture_runs_single_active", "idx_notebook_context_bindings_order",
   "idx_notebook_projection_mutations_session",
   "idx_notebook_projection_mutations_utterance_language",
   "idx_notebook_session_projections_notebook_session", "idx_notebook_session_projections_tab",
   "idx_notebook_sessions_session_unique", "idx_notebook_tabs_builtin_unique",
   "idx_notebook_tabs_notebook_position", "idx_notebooks_updated", "idx_participants_display_name",
   "idx_realtime_translation_inbox_bound_lane", "idx_realtime_translation_inbox_unbound",
   "idx_realtime_utterance_variants_language", "idx_realtime_utterance_variants_one_source",
   "idx_realtime_utterances_id_sequence", "idx_realtime_utterances_session_sequence",
   "idx_realtime_utterances_session_speaker", "idx_session_purge_jobs_updated",
   "idx_session_records_active_created", "idx_session_speakers_participant",
   "idx_session_speakers_session_epoch"]

def v28Triggers : List String := v27Triggers

def v29Tables : List String :=
  ["audio_retention_chunks", "context_pack_sources", "context_packs", "notebook_capture_profiles",
   "notebook_capture_runs", "notebook_context_pack_bindings", "notebook_projection_mutations",
   "notebook_session_projections", "notebook_sessions", "notebook_tabs", "notebooks",
   "participants", "realtime_transcript_gaps", "realtime_translation_inbox",
   "realtime_utterance_overrides", "realtime_utterance_variants", "realtime_utterances",
   "search_index", "search_index_config", "search_index_content", "search_index_data",
   "search_index_docsize", "search_index_idx", "session_meta", "session_purge_jobs",
   "session_records", "session_speakers"]

def v29Indexes : List String :=
  ["idx_audio_retention_chunks_due", "idx_audio_retention_chunks_session",
   "idx_context_pack_sources_pack_order", "idx_context_packs_library",
   "idx_context_packs_private_owner", "idx_notebook_capture_runs_notebook_created",
   "idx_notebook_capture_runs_single_active", "idx_notebook_context_bindings_order",
   "idx_notebook_projection_mutations_session",
   "idx_notebook_projection_mutations_utterance_language",
   "idx_notebook_session_projections_notebook_session", "idx_notebook_session_projections_tab",
   "idx_notebook_sessions_session_unique", "idx_notebook_tabs_builtin_unique",
   "idx_notebook_tabs_notebook_position", "idx_notebooks_updated", "idx_participants_display_name",
   "idx_realtime_transcript_gaps_pending", "idx_realtime_translation_inbox_bound_lane",
   "idx_realtime_translation_inbox_unbound", "idx_realtime_utterance_variants_language",
   "idx_realtime_utterance_variants_one_source", "idx_realtime_utterances_id_sequence",
   "idx_realtime_utterances_session_sequence", "idx_realtime_utterances_session_speaker",
   "idx_session_purge_jobs_updated", "idx_session_records_active_created",
   "idx_session_speakers_participant", "idx_session_speakers_session_epoch"]

def v29Triggers : List String := v28Triggers

def v30Tables : List String :=
  ["audio_retention_chunks", "context_pack_sources", "context_packs", "notebook_capture_profiles",
   "notebook_capture_runs", "notebook_context_pack_bindings", "notebook_projection_mutations",
   "notebook_session_projections", "notebook_sessions", "notebook_tabs", "notebooks",
   "participants", "provider_remote_artifacts", "realtime_transcript_gaps",
   "realtime_translation_inbox", "realtime_utterance_overrides", "realtime_utterance_variants",
   "realtime_utterances", "search_index", "search_index_config", "search_index_content",
   "search_index_data", "search_index_docsize", "search_index_idx", "session_meta",
   "session_purge_jobs", "session_records", "session_speakers"]

inductive MigrationError where
  /-- `schema_reset_required`: "unsupported schema {version}; reset required". -/
  | schemaResetRequired (version : Int)
  | sql (e : SqlError)
  /-- "notebook_capture_runs rebuild left {count} foreign key violations". -/
  | foreignKeyViolations (count : Nat)
  deriving DecidableEq, Repr

/-- Answers that the file must be reset unless the check holds. -/
def require (version : Int) (holds : Bool) : Except MigrationError Unit :=
  if holds then .ok () else .error (.schemaResetRequired version)

/-- A table with columns that must be there. -/
abbrev Probe := String × List String

def Schema.passes (schema : Schema) (probe : Probe) : Bool := schema.prepares probe.1 probe.2

/-- The names, in order, are those listed; the lists of the source are in order too. -/
def validateExactObjectNames {α : Type} (claimedVersion : Int) (objects : List (String × α))
    (expected : List String) : Except MigrationError Unit :=
  require claimedVersion ((objects.map Prod.fst).isPerm expected)

def schemaObjectSql {α : Type} (objects : List (String × α)) (sql : α → String) (name : String) :
    Except MigrationError String :=
  match List.lookup name objects with
  | some object => .ok (sql object)
  | none => .error (.sql (.noSuchObject name))

def validateActiveIndex (claimedVersion : Int) (schema : Schema) : Except MigrationError Unit := do
  let sql ← schemaObjectSql schema.indexes Attached.sql "idx_notebook_capture_runs_single_active"
  require claimedVersion (containsLowercase sql "create unique index" &&
    containsLowercase sql "capture_state in ('recording', 'paused', 'draining')")

def validateTriggers (claimedVersion : Int) (schema : Schema) : List String → Except MigrationError Unit
  | [] => .ok ()
  | trigger :: rest => do
    let sql ← schemaObjectSql schema.triggers Attached.sql trigger
    require claimedVersion (containsLowercase sql "raise(abort")
    validateTriggers claimedVersion schema rest

def v23Probes : List Probe :=
  [("session_records",
    ["id", "title", "session_type", "status", "duration_ms", "created_at", "deleted_at"]),
   ("session_meta",
    ["session_id", "encrypted_path", "key_id", "tokens_json", "privacy_level", "sample_rate",
     "channels"]),
   ("notebooks",
    ["id", "title", "created_at", "updated_at", "deleted_at"]),
   ("notebook_tabs",
    ["id", "notebook_id", "builtin_kind", "title", "doc_id", "position", "created_at", "updated_at",
     "deleted_at"]),
   ("notebook_capture_profiles",
    ["notebook_id", "remote_realtime_enabled", "capture_mode", "language_a", "language_b",
     "left_language", "right_language", "privacy_level", "send_context_to_soniox", "revision",
     "created_at", "updated_at"]),
   ("notebook_capture_runs",
    ["id", "notebook_id", "session_id", "profile_revision", "profile_snapshot_json",
     "realtime_provider_id", "realtime_model_id", "post_stop_provider_id", "post_stop_model_id",
     "context_receipt_json", "context_snapshot_ciphertext", "context_snapshot_key_ref",
     "context_snapshot_sha256", "capture_state", "remote_health", "projection_state",
     "async_task_state", "async_authorized_at_ms", "async_language_hint", "async_task_id",
     "async_task_payload_sha256", "async_projection_state", "provider_error_type",
     "provider_request_id", "audio_journal_path", "audio_path", "audio_key_ref", "sample_rate",
     "channels", "captured_frames", "created_at", "updated_at", "completed_at"]),
   ("realtime_utterances",
    ["id", "session_id", "sequence", "source_language", "source_text", "source_start_ms",
     "source_end_ms", "translated_language", "translated_text", "revision", "completion",
     "alignment", "created_at", "updated_at"]),
   ("context_packs",
    ["id", "scope", "owner_notebook_id", "title", "key_ref", "revision", "created_at", "updated_at",
     "deleted_at"]),
   ("context_pack_sources",
    ["id", "pack_id", "title", "format", "content_kind", "ciphertext", "plaintext_sha256",
     "plaintext_bytes", "metadata_json", "trust_state", "revision", "created_at", "updated_at",
     "deleted_at"]),
   ("notebook_projection_mutations",
    ["id", "session_id", "utterance_id", "lane", "expected_revision", "target_text", "state",
     "created_at", "updated_at"]),
   ("session_purge_jobs",
    ["session_id", "plan_json", "phase", "last_error", "created_at", "updated_at"])]

def validateV23Baseline (schema : Schema) : Except MigrationError Unit := do
  validateExactObjectNames oldestSupportedVersion schema.tables v23Tables
  validateExactObjectNames oldestSupportedVersion schema.indexes v23Indexes
  validateExactObjectNames oldestSupportedVersion schema.triggers v23Triggers
  require oldestSupportedVersion (v23Probes.all (Schema.passes schema))
  validateActiveIndex oldestSupportedVersion schema
  validateTriggers oldestSupportedVersion schema v23Triggers

def v24Probes : List Probe :=
  [("session_records",
    ["id", "title", "session_type", "status", "duration_ms", "created_at", "deleted_at"]),
   ("session_meta",
    ["session_id", "encrypted_path", "key_id", "tokens_json", "privacy_level", "sample_rate",
     "channels"]),
   ("notebooks",
    ["id", "title", "created_at", "updated_at", "deleted_at"]),
   ("notebook_tabs",
    ["id", "notebook_id", "builtin_kind", "title", "doc_id", "position", "created_at", "updated_at",
     "deleted_at"]),
   ("notebook_capture_runs",
    ["id", "notebook_id", "session_id", "profile_revision", "profile_snapshot_json",
     "realtime_provider_id", "realtime_model_id", "post_stop_provider_id", "post_stop_model_id",
     "context_receipt_json", "context_snapshot_ciphertext", "context_snapshot_key_ref",
     "context_snapshot_sha256", "capture_state", "remote_health", "projection_state",
     "async_task_state", "async_authorized_at_ms", "async_language_hint", "async_task_id",
     "async_task_payload_sha256", "async_projection_state", "provider_error_type",
     "provider_request_id", "audio_journal_path", "audio_path", "audio_key_ref", "sample_rate",
     "channels", "captured_frames", "created_at", "updated_at", "completed_at"]),
   ("participants",
    ["id", "display_name", "created_at", "updated_at"]),
   ("session_speakers",
    ["id", "session_id", "provider_session_epoch", "provider", "provider_label",
     "local_display_name", "participant_id", "participant_linked_at", "created_at", "updated_at"]),
   ("realtime_utterances",
    ["id", "session_id", "sequence", "session_speaker_id", "source_language", "source_text",
     "source_start_ms", "source_end_ms", "translated_language", "translated_text", "revision",
     "completion", "alignment", "created_at", "updated_at"]),
   ("context_packs",
    ["id", "scope", "owner_notebook_id", "title", "key_ref", "revision", "created_at", "updated_at",
     "deleted_at"]),
   ("context_pack_sources",
    ["id", "pack_id", "title", "format", "content_kind", "ciphertext", "plaintext_sha256",
     "plaintext_bytes", "metadata_json", "trust_state", "revision", "created_at", "updated_at",
     "deleted_at"]),
   ("session_purge_jobs",
    ["session_id", "plan_json", "phase", "last_error", "created_at", "updated_at"])]

def multilingualProfileProbe : Probe :=
  ("notebook_capture_profiles",
   ["notebook_id", "remote_realtime_enabled", "capture_mode", "language_a", "language_b",
    "left_language", "right_language", "selected_languages_json", "common_caption_language",
    "privacy_level", "send_context_to_soniox", "revision", "created_at", "updated_at"])

def profileProbe : Probe :=
  ("notebook_capture_profiles",
   ["notebook_id", "remote_realtime_enabled", "capture_mode", "language_a", "language_b",
    "left_language", "right_language", "privacy_level", "send_context_to_soniox", "revision",
    "created_at", "updated_at"])

def laneMutationProbe : Probe :=
  ("notebook_projection_mutations",
   ["id", "session_id", "utterance_id", "lane", "lane_language", "expected_revision", "target_text",
    "state", "created_at", "updated_at"])

def mutationProbe : Probe :=
  ("notebook_projection_mutations",
   ["id", "session_id", "utterance_id", "lane", "expected_revision", "target_text", "state",
    "created_at", "updated_at"])

def variantProbe : Probe :=
  ("realtime_utterance_variants",
   ["utterance_id", "language", "role", "text", "state", "completion", "revision", "created_at",
    "updated_at"])

def loroProbes : List Probe :=
  [("notebook_capture_runs",
    ["realtime_loro_desired_revision", "realtime_loro_applied_revision"]),
   ("realtime_utterance_overrides",
    ["utterance_id", "lane", "lane_language", "text", "machine_utterance_revision",
     "machine_variant_revision", "edit_revision", "created_at", "updated_at"]),
   ("notebook_projection_mutations",
    ["expected_variant_revision"]),
   ("realtime_utterances",
    ["source_projection_revision"]),
   ("realtime_utterance_variants",
    ["projection_revision"])]

def inboxProbe : Probe :=
  ("realtime_translation_inbox",
   ["session_id", "lane_index", "group_epoch", "provider_sequence", "target_language",
    "source_language", "source_text", "source_start_ms", "source_end_ms", "translated_text",
    "completion", "state", "revision", "bound_utterance_id", "bound_sequence", "created_at",
    "updated_at"])

def gapProbe : Probe :=
  ("realtime_transcript_gaps",
   ["id", "session_id", "start_frame", "end_frame", "reason", "repair_state", "created_at",
    "updated_at"])

def artifactProbe : Probe :=
  ("provider_remote_artifacts",
   ["task_id", "session_id", "provider_id", "client_reference_id", "remote_file_id",
    "remote_transcription_id", "created_at", "updated_at"])

/-- The tables, indexes and triggers a version has, from v24 on. -/
def objectNames (claimedVersion : Int) : List String × List String × List String :=
  if claimedVersion = currentVersion ∨ claimedVersion = remoteArtifactsVersion then
    -- v31 changed one index's uniqueness, not the object set.
    (v30Tables, v29Indexes, v29Triggers)
  else if claimedVersion = transcriptGapsVersion then (v29Tables, v29Indexes, v29Triggers)
  else if claimedVersion = translationInboxVersion then (v28Tables, v28Indexes, v28Triggers)
  else if claimedVersion = realtimeLoroVersion then (v27Tables, v27Indexes, v27Triggers)
  else if claimedVersion = multilingualVersion then (v26Tables, v26Indexes, v26Triggers)
  else if claimedVersion = selectedLanguagesVersion then (v25Tables, v25Indexes, v25Triggers)
  else (v24Tables, v24Indexes, v24Triggers)

def validateV24OrLaterBaseline (schema : Schema) (claimedVersion : Int) : Except MigrationError Unit := do
  let (tables, indexes, triggers) := objectNames claimedVersion
  validateExactObjectNames claimedVersion schema.tables tables
  validateExactObjectNames claimedVersion schema.indexes indexes
  validateExactObjectNames claimedVersion schema.triggers triggers
  require claimedVersion (Schema.passes schema
    (if selectedLanguagesVersion ≤ claimedVersion then multilingualProfileProbe else profileProbe))
  require claimedVersion (Schema.passes schema
    (if multilingualVersion ≤ claimedVersion then laneMutationProbe else mutationProbe))
  require claimedVersion (decide (claimedVersion < multilingualVersion) || Schema.passes schema variantProbe)
  require claimedVersion
    (decide (claimedVersion < realtimeLoroVersion) || loroProbes.all (Schema.passes schema))
  require claimedVersion
    (decide (claimedVersion < translationInboxVersion) || Schema.passes schema inboxProbe)
  require claimedVersion (decide (claimedVersion < transcriptGapsVersion) || Schema.passes schema gapProbe)
  require claimedVersion
    (decide (claimedVersion < remoteArtifactsVersion) || Schema.passes schema artifactProbe)
  require claimedVersion (v24Probes.all (Schema.passes schema))
  validateActiveIndex claimedVersion schema
  validateTriggers claimedVersion schema triggers

def validateV30BaselineObjects (schema : Schema) (claimedVersion : Int) : Except MigrationError Unit := do
  validateV24OrLaterBaseline schema claimedVersion
  let sql ← schemaObjectSql schema.tables Shape.sql "notebook_capture_runs"
  require claimedVersion (containsLowercase sql "'stt-async-v5'")

def validateV30Baseline (schema : Schema) : Except MigrationError Unit :=
  validateV30BaselineObjects schema remoteArtifactsVersion

def boundLaneIndex : String := "idx_realtime_translation_inbox_bound_lane"

def validateV31Baseline (schema : Schema) : Except MigrationError Unit := do
  validateV30BaselineObjects schema currentVersion
  let sql ← schemaObjectSql schema.indexes Attached.sql boundLaneIndex
  require currentVersion (!containsLowercase sql "unique")

def shape (columns : List String) : Shape := { columns, sql := "CREATE TABLE" }

/-- A trigger that refuses a write. -/
def abortTrigger (name table : String) : Statement := .createTrigger name ⟨table, "RAISE(ABORT"⟩

def index (name table : String) : Statement := .createIndex name ⟨table, "CREATE INDEX"⟩

def uniqueIndex (name table : String) : Statement := .createIndex name ⟨table, "CREATE UNIQUE INDEX"⟩

def notebookCaptureRunsSchema : List Statement :=
  [.createTable "notebook_capture_runs"
     { columns :=
         ["id", "notebook_id", "session_id", "profile_revision", "profile_snapshot_json",
          "realtime_provider_id", "realtime_model_id", "post_stop_provider_id",
          "post_stop_model_id", "context_receipt_json", "context_applied_at",
          "context_snapshot_ciphertext", "context_snapshot_key_ref", "context_snapshot_sha256",
          "capture_state", "remote_health", "projection_state", "async_task_state",
          "async_authorized_at_ms", "async_language_hint", "async_task_id",
          "async_task_payload_sha256", "async_projection_state", "async_provider_output_sha256",
          "async_provider_result_json", "async_provider_completed_at",
          "async_search_projection_state", "provider_error_type", "provider_request_id",
          "audio_journal_path", "audio_path", "audio_key_ref", "sample_rate", "channels",
          "captured_frames", "created_at", "updated_at", "completed_at",
          "realtime_loro_desired_revision", "realtime_loro_applied_revision"],
       sql := "CHECK(post_stop_model_id IN ('stt-rt-v5', 'stt-async-v5'))" },
   index "idx_notebook_capture_runs_notebook_created" "notebook_capture_runs",
   .createIndex "idx_notebook_capture_runs_single_active" ⟨"notebook_capture_runs",
     "CREATE UNIQUE INDEX WHERE capture_state IN ('recording', 'paused', 'draining')"⟩,
   abortTrigger "notebook_capture_runs_async_receipt_insert" "notebook_capture_runs",
   abortTrigger "notebook_capture_runs_async_receipt_update" "notebook_capture_runs",
   abortTrigger "notebook_capture_runs_async_state_transition" "notebook_capture_runs",
   abortTrigger "notebook_capture_runs_async_authorization_immutable" "notebook_capture_runs",
   abortTrigger "notebook_capture_runs_async_projection_transition" "notebook_capture_runs",
   abortTrigger "notebook_capture_runs_async_identity_immutable" "notebook_capture_runs",
   abortTrigger "notebook_capture_runs_provider_receipt_immutable" "notebook_capture_runs",
   abortTrigger "notebook_capture_runs_realtime_provenance_immutable" "notebook_capture_runs",
   abortTrigger "notebook_capture_runs_post_stop_provenance_immutable" "notebook_capture_runs"]

def realtimeTranscriptGapsSchema : List Statement :=
  [.createTable "realtime_transcript_gaps" (shape
     ["id", "session_id", "start_frame", "end_frame", "reason", "repair_state", "created_at",
      "updated_at"]),
   index "idx_realtime_transcript_gaps_pending" "realtime_transcript_gaps"]

def providerRemoteArtifactsSchema : List Statement :=
  [.createTable "provider_remote_artifacts" (shape
     ["task_id", "session_id", "provider_id", "client_reference_id", "remote_file_id",
      "remote_transcription_id", "created_at", "updated_at"])]

/-- What `install_current_baseline` creates before the runs, the gaps and the artifacts. -/
def baselineObjects : List Statement :=
  [.createTable "session_records" (shape
     ["id", "title", "session_type", "status", "duration_ms", "created_at", "deleted_at"]),
   index "idx_session_records_active_created" "session_records",
   .createTable "session_meta" (shape
     ["session_id", "encrypted_path", "key_id", "tokens_json", "privacy_level", "sample_rate",
      "channels"]),
   .createTable "audio_retention_chunks" (shape
     ["session_id", "chunk_id", "start_ms", "end_ms", "local_path", "encrypted", "deleted",
      "retention_deadline_ms", "delete_error", "deleted_at_ms"]),
   index "idx_audio_retention_chunks_session" "audio_retention_chunks",
   index "idx_audio_retention_chunks_due" "audio_retention_chunks",
   .createTable "search_index" (shape
     ["session_id", "content"]),
   .createTable "search_index_data" (shape
     ["id", "block"]),
   .createTable "search_index_idx" (shape
     ["segid", "term", "pgno"]),
   .createTable "search_index_content" (shape
     ["id", "c0", "c1"]),
   .createTable "search_index_docsize" (shape
     ["id", "sz"]),
   .createTable "search_index_config" (shape
     ["k", "v"]),
   .createTable "notebooks" (shape
     ["id", "title", "created_at", "updated_at", "deleted_at"]),
   index "idx_notebooks_updated" "notebooks",
   .createTable "notebook_tabs" (shape
     ["id", "notebook_id", "builtin_kind", "title", "doc_id", "position", "created_at",
      "updated_at", "deleted_at"]),
   uniqueIndex "idx_notebook_tabs_builtin_unique" "notebook_tabs",
   index "idx_notebook_tabs_notebook_position" "notebook_tabs",
   .createTable "notebook_sessions" (shape
     ["notebook_id", "session_id", "created_at"]),
   uniqueIndex "idx_notebook_sessions_session_unique" "notebook_sessions",
   .createTable "notebook_session_projections" (shape
     ["id", "notebook_id", "tab_id", "session_id", "section_title", "created_at", "updated_at",
      "deleted_at"]),
   index "idx_notebook_session_projections_tab" "notebook_session_projections",
   index "idx_notebook_session_projections_notebook_session" "notebook_session_projections",
   .createTable "notebook_capture_profiles" (shape
     ["notebook_id", "remote_realtime_enabled", "capture_mode", "language_a", "language_b",
      "left_language", "right_language", "selected_languages_json", "common_caption_language",
      "privacy_level", "send_context_to_soniox", "revision", "created_at", "updated_at"]),
   .createTable "participants" (shape
     ["id", "display_name", "created_at", "updated_at"]),
   index "idx_participants_display_name" "participants",
   .createTable "session_speakers" (shape
     ["id", "session_id", "provider_session_epoch", "provider", "provider_label",
      "local_display_name", "participant_id", "participant_linked_at", "created_at", "updated_at"]),
   index "idx_session_speakers_session_epoch" "session_speakers",
   index "idx_session_speakers_participant" "session_speakers",
   .createTable "realtime_utterances" (shape
     ["id", "session_id", "sequence", "session_speaker_id", "source_language", "source_text",
      "source_start_ms", "source_end_ms", "translated_language", "translated_text", "revision",
      "completion", "alignment", "created_at", "updated_at", "source_projection_revision"]),
   index "idx_realtime_utterances_session_sequence" "realtime_utterances",
   index "idx_realtime_utterances_session_speaker" "realtime_utterances",
   uniqueIndex "idx_realtime_utterances_id_sequence" "realtime_utterances",
   abortTrigger "realtime_utterances_require_realtime_provenance" "realtime_utterances",
   .createTable "realtime_utterance_variants" (shape
     ["utterance_id", "language", "role", "text", "state", "completion", "revision", "created_at",
      "updated_at", "projection_revision"]),
   uniqueIndex "idx_realtime_utterance_variants_language" "realtime_utterance_variants",
   uniqueIndex "idx_realtime_utterance_variants_one_source" "realtime_utterance_variants",
   .createTable "realtime_utterance_overrides" (shape
     ["utterance_id", "lane", "lane_language", "text", "machine_utterance_revision",
      "machine_variant_revision", "edit_revision", "created_at", "updated_at"]),
   .createTable "realtime_translation_inbox" (shape
     ["session_id", "lane_index", "group_epoch", "provider_sequence", "target_language",
      "source_language", "source_text", "source_start_ms", "source_end_ms", "translated_text",
      "completion", "state", "revision", "bound_utterance_id", "bound_sequence", "created_at",
      "updated_at"]),
   index "idx_realtime_translation_inbox_bound_lane" "realtime_translation_inbox",
   index "idx_realtime_translation_inbox_unbound" "realtime_translation_inbox",
   .createTable "context_packs" (shape
     ["id", "scope", "owner_notebook_id", "title", "key_ref", "revision", "created_at",
      "updated_at", "deleted_at"]),
   uniqueIndex "idx_context_packs_private_owner" "context_packs",
   index "idx_context_packs_library" "context_packs",
   .createTable "context_pack_sources" (shape
     ["id", "pack_id", "title", "format", "content_kind", "ciphertext", "plaintext_sha256",
      "plaintext_bytes", "metadata_json", "trust_state", "revision", "created_at", "updated_at",
      "deleted_at"]),
   index "idx_context_pack_sources_pack_order" "context_pack_sources",
   .createTable "notebook_context_pack_bindings" (shape
     ["notebook_id", "pack_id", "position", "created_at"]),
   index "idx_notebook_context_bindings_order" "notebook_context_pack_bindings",
   abortTrigger "context_binding_library_only_insert" "notebook_context_pack_bindings",
   abortTrigger "context_binding_library_only_update" "notebook_context_pack_bindings",
   .createTable "notebook_projection_mutations" (shape
     ["id", "session_id", "utterance_id", "lane", "lane_language", "expected_revision",
      "expected_variant_revision", "target_text", "state", "created_at", "updated_at"]),
   index "idx_notebook_projection_mutations_session" "notebook_projection_mutations",
   uniqueIndex "idx_notebook_projection_mutations_utterance_language"
     "notebook_projection_mutations",
   .createTable "session_purge_jobs" (shape
     ["session_id", "plan_json", "phase", "last_error", "created_at", "updated_at"]),
   index "idx_session_purge_jobs_updated" "session_purge_jobs",
   abortTrigger "session_meta_provider_tokens_immutable" "session_meta"]

def currentBaseline : List Statement :=
  baselineObjects ++ notebookCaptureRunsSchema ++ realtimeTranscriptGapsSchema ++
    providerRemoteArtifactsSchema

theorem require_eq_ok {version : Int} {holds : Bool} : require version holds = .ok () ↔ holds = true := by
  cases holds with
  | true => exact ⟨fun _ => rfl, fun _ => rfl⟩
  | false =>
    constructor
    · intro h
      cases h
    · intro h
      cases h

end Zulangue.Migration
