import Mathlib.Data.String.Basic
import Zulangue.Lib.Like
import Zulangue.Lib.Listings

/-!
# The session catalogue

`session_records` and the search index as `session_query.rs`, `search.rs` and `get_session` and `search_sessions` of
`ZulangueCore` read them. How rows that tie are ordered is left to the database, at every read anew.
-/

namespace Zulangue.Catalogue

open Zulangue.Lib Zulangue.Lib.Like Zulangue.Lib.Listings

structure SessionRecord where
  id : String
  title : String
  sessionType : String
  status : String
  durationMs : Nat
  createdAt : String
  deletedAt : Option String
  deriving DecidableEq, Repr

inductive TrashFilter where
  | activeOnly
  | trashedOnly
  | all
  deriving DecidableEq, Repr

inductive SortField where
  | createdAt
  | title
  | duration
  deriving DecidableEq, Repr

inductive SortOrder where
  | desc
  | asc
  deriving DecidableEq, Repr

structure SessionQuery where
  sessionType : Option String := none
  status : Option String := none
  searchText : Option String := none
  limit : Option Nat := none
  offset : Option Nat := none
  sortField : SortField := .createdAt
  sortOrder : SortOrder := .desc
  trashFilter : TrashFilter := .activeOnly
  deriving DecidableEq, Repr

structure QueryResult where
  sessions : List SessionRecord
  totalCount : Nat
  deriving DecidableEq, Repr

inductive CoreError where
  | notFound (message : String)
  deriving DecidableEq, Repr

/-- The rows of `session_records`, whose primary key is the id. -/
structure Sessions where
  records : List SessionRecord
  distinct : (records.map (·.id)).Nodup

/-! ## Queries -/

def TrashFilter.whereClause : TrashFilter → List (SessionRecord → Bool)
  | .activeOnly => [fun record => record.deletedAt.isNone]
  | .trashedOnly => [fun record => record.deletedAt.isSome]
  | .all => []

def SessionQuery.whereClauses (query : SessionQuery) : List (SessionRecord → Bool) :=
  (query.sessionType.toList.map fun sessionType record => decide (record.sessionType = sessionType)) ++
    (query.status.toList.map fun status record => decide (record.status = status)) ++
    (query.searchText.toList.map fun text record => isLike ("%" ++ text ++ "%") record.title) ++
    query.trashFilter.whereClause

def Sessions.matching (sessions : Sessions) (query : SessionQuery) : List SessionRecord :=
  sessions.records.filter fun record => query.whereClauses.all fun clause => clause record

def SortField.le : SortField → SessionRecord → SessionRecord → Bool
  | .createdAt, a, b => decide (a.createdAt ≤ b.createdAt)
  | .title, a, b => decide (a.title ≤ b.title)
  | .duration, a, b => decide (a.durationMs ≤ b.durationMs)

theorem SortField.total (field : SortField) (a b : SessionRecord) : field.le a b = true ∨ field.le b a = true := by
  cases field <;> simp only [SortField.le, decide_eq_true_eq] <;> exact le_total _ _

theorem SortField.trans (field : SortField) {a b c : SessionRecord} (hab : field.le a b = true)
    (hbc : field.le b c = true) : field.le a c = true := by
  cases field <;> simp only [SortField.le, decide_eq_true_eq] at hab hbc ⊢ <;> exact le_trans hab hbc

/-- `ORDER BY`. -/
def SessionQuery.order (query : SessionQuery) : Preference SessionRecord where
  le a b :=
    match query.sortOrder with
    | .asc => query.sortField.le a b
    | .desc => query.sortField.le b a
  total a b := by
    cases query.sortOrder
    · exact query.sortField.total b a
    · exact query.sortField.total a b
  trans a b c hab hbc := by
    revert hab hbc
    cases query.sortOrder
    · exact fun hab hbc => query.sortField.trans hbc hab
    · exact fun hab hbc => query.sortField.trans hab hbc

def Sessions.querySessions (sessions : Sessions) (query : SessionQuery) (listing : List SessionRecord) : QueryResult :=
  { sessions := (listing.drop (query.offset.getD 0)).take (query.limit.getD 50)
    totalCount := (sessions.matching query).length }

/-- An answer of `query_sessions`. -/
def Sessions.Answers (sessions : Sessions) (query : SessionQuery) (result : QueryResult) : Prop :=
  ∃ listing, Listing query.order (sessions.matching query) listing ∧ result = sessions.querySessions query listing

/-- The query of `get_session`. -/
def getSessionQuery : SessionQuery := { limit := some 500, trashFilter := .all }

/-- `get_session`, once its query is answered. -/
def getSession (result : QueryResult) (id : String) : Except CoreError SessionRecord :=
  match result.sessions.find? fun record => decide (record.id = id) with
  | some record => .ok record
  | none => .error (.notFound s!"session not found: {id}")

def SessionQuery.page (query : SessionQuery) (pageSize i : Nat) : SessionQuery :=
  { query with limit := some pageSize, offset := some (i * pageSize) }

/-- How many pages a reader asks for. -/
def pageCount (totalCount pageSize : Nat) : Nat := (totalCount + pageSize - 1) / pageSize

/-! ## Search -/

/-- A row of the full-text table. -/
structure SearchRow where
  rowid : Nat
  sessionId : String
  content : String
  deriving DecidableEq, Repr

structure SearchIndex where
  rows : List SearchRow
  distinct : (rows.map (·.rowid)).Nodup

structure SearchResultInfo where
  sessionId : String
  snippet : String
  deriving DecidableEq, Repr

/-- What FTS5 does with a query: `MATCH`, `rank` and `snippet`. -/
structure FullText (Rank : Type) where
  hit : String → SearchRow → Bool
  rank : String → SearchRow → Rank
  snippet : String → SearchRow → String

def isCjk (char : Char) : Bool :=
  ('\u4E00' ≤ char && char ≤ '\u9FFF') || ('\u3040' ≤ char && char ≤ '\u309F') ||
    ('\u30A0' ≤ char && char ≤ '\u30FF') || ('\uAC00' ≤ char && char ≤ '\uD7AF')

def hasCjk (query : String) : Bool := query.toList.any isCjk

section
variable {Rank : Type} [LinearOrder Rank] (fullText : FullText Rank)

def SearchIndex.hits (index : SearchIndex) (query : String) : List SearchRow :=
  if hasCjk query then index.rows.filter fun row => isLike ("%" ++ query ++ "%") row.content
  else index.rows.filter (fullText.hit query)

/-- `ORDER BY rank`, which the search for CJK text lacks. -/
def searchOrder (query : String) : Preference SearchRow where
  le a b := hasCjk query || decide (fullText.rank query a ≤ fullText.rank query b)
  total a b := by
    cases hasCjk query
    · simpa using le_total (fullText.rank query a) (fullText.rank query b)
    · exact .inl rfl
  trans a b c := by
    cases hasCjk query
    · simpa using le_trans
    · exact fun _ _ => rfl

def toSearchResult (query : String) (row : SearchRow) : SearchResultInfo :=
  ⟨row.sessionId, if hasCjk query then row.content else fullText.snippet query row⟩

/-- An id without a record counts as not trashed. -/
def Sessions.trashedAmong (sessions : Sessions) (ids : List String) : List String :=
  ids.filter fun id => sessions.records.any fun record => decide (record.id = id) && record.deletedAt.isSome

/-- `search_sessions`, with the rows in the order in which the database lists them. -/
def Sessions.searchSessions (sessions : Sessions) (query : String) (limit : Nat) (listing : List SearchRow) :
    List SearchResultInfo :=
  let results := (listing.take limit).map (toSearchResult fullText query)
  let trashed := sessions.trashedAmong (results.map (·.sessionId))
  results.filter fun result => decide (result.sessionId ∉ trashed)

end

def Sessions.active (sessions : Sessions) (id : String) : Bool :=
  !sessions.records.any fun record => decide (record.id = id) && record.deletedAt.isSome

end Zulangue.Catalogue
