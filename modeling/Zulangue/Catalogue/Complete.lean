import Zulangue.Catalogue.Sessions

/-!
# What the catalogue reads find

A read that is cut off by a limit finds everything, whatever order the database gives to ties, only while the ties
and the rows that are filtered out afterwards lie within the limit.
-/

namespace Zulangue.Catalogue

open Zulangue.Lib.Like Zulangue.Lib.Listings

section
variable {sessions : Sessions} {query : SessionQuery} {record : SessionRecord} {result : QueryResult} {pageSize : Nat}

theorem Sessions.nodup (sessions : Sessions) : sessions.records.Nodup := List.Nodup.of_map _ sessions.distinct

theorem Sessions.nodup_matching (sessions : Sessions) (query : SessionQuery) : (sessions.matching query).Nodup :=
  sessions.nodup.filter _

theorem Sessions.eq_of_id (sessions : Sessions) {other : SessionRecord} (hrecord : record ∈ sessions.records)
    (hother : other ∈ sessions.records) (hid : record.id = other.id) : record = other :=
  List.inj_on_of_nodup_map sessions.distinct hrecord hother hid

theorem mem_of_mem_answer (h : sessions.Answers query result) (hrecord : record ∈ result.sessions) :
    record ∈ sessions.records := by
  obtain ⟨listing, hlisting, rfl⟩ := h
  have hmem := List.mem_of_mem_drop (List.mem_of_mem_take hrecord)
  exact List.mem_of_mem_filter (hlisting.perm.mem_iff.mp hmem)

/-! ## One session -/

theorem getSession_eq_ok (h : sessions.Answers query result) (hrecord : record ∈ sessions.records) :
    getSession result record.id = .ok record ↔ record ∈ result.sessions := by
  unfold getSession
  constructor
  · intro hok
    split at hok
    next found hfind =>
      obtain rfl := Except.ok.inj hok
      exact List.mem_of_find?_eq_some hfind
    · cases hok
  · intro hmem
    cases hfind : result.sessions.find? fun other => decide (other.id = record.id) with
    | none =>
      have := List.find?_eq_none.mp hfind record hmem
      simp at this
    | some found =>
      have hid : found.id = record.id := by simpa using List.find?_some hfind
      have hfound := mem_of_mem_answer h (List.mem_of_find?_eq_some hfind)
      rw [sessions.eq_of_id hfound hrecord hid]

theorem matching_getSessionQuery (sessions : Sessions) : sessions.matching getSessionQuery = sessions.records := by
  simp [Sessions.matching, getSessionQuery, SessionQuery.whereClauses, TrashFilter.whereClause]

/-- `get_session` finds a record for certain while 500 records at most are as new. -/
theorem getSession_forall_iff (hrecord : record ∈ sessions.records) :
    (∀ result, sessions.Answers getSessionQuery result → getSession result record.id = .ok record) ↔
      (sessions.records.countP fun other => decide (record.createdAt ≤ other.createdAt)) ≤ 500 := by
  have htake := mem_take_forall_iff (n := 500) getSessionQuery.order sessions.nodup hrecord
  refine Iff.trans ?_ htake
  constructor
  · intro h listing hlisting
    rw [← matching_getSessionQuery] at hlisting
    have hanswer : sessions.Answers getSessionQuery (sessions.querySessions getSessionQuery listing) := ⟨listing, hlisting, rfl⟩
    exact (getSession_eq_ok hanswer hrecord).mp (h _ hanswer)
  · intro h result hanswer
    apply (getSession_eq_ok hanswer hrecord).mpr
    obtain ⟨listing, hlisting, rfl⟩ := hanswer
    rw [matching_getSessionQuery] at hlisting
    exact h listing hlisting

/-! ## Pages -/

theorem le_pageCount_mul (total : Nat) (h : 0 < pageSize) : total ≤ pageCount total pageSize * pageSize := by
  have hsplit := Nat.div_add_mod (total + pageSize - 1) pageSize
  have hmod := Nat.mod_lt (total + pageSize - 1) h
  unfold pageCount
  rw [Nat.mul_comm]
  omega

/-- Page after page is every matching record once, while all that tie with it are on one page. -/
theorem pages_perm_iff (sessions : Sessions) (query : SessionQuery) (h : 0 < pageSize) :
    (∀ answers : Nat → QueryResult, (∀ i, sessions.Answers (query.page pageSize i) (answers i)) →
      ((List.range (pageCount (sessions.matching query).length pageSize)).flatMap fun i => (answers i).sessions).Perm
        (sessions.matching query)) ↔
      ∀ record ∈ sessions.matching query, ahead query.order (sessions.matching query) record / pageSize =
        (reach query.order (sessions.matching query) record - 1) / pageSize := by
  refine Iff.trans ?_ (pages_forall_iff query.order (sessions.nodup_matching query) h (le_pageCount_mul _ h))
  constructor
  · intro hanswers listings hlistings
    exact hanswers (fun i => sessions.querySessions (query.page pageSize i) (listings i)) fun i =>
      ⟨listings i, hlistings i, rfl⟩
  · intro hlistings answers hanswers
    choose listings hlisting hanswer using hanswers
    have hpages := hlistings listings hlisting
    simp only [hanswer]
    exact hpages

/-! ## Filters -/

/-- A text that only stands for itself in a pattern. -/
def Searchable (text : String) : Prop :=
  (∀ char ∈ text.toList, Plain char) ∧ text.utf8ByteSize + 2 ≤ maxPatternBytes

theorem isLike_pattern (text title : String) :
    isLike ("%" ++ text ++ "%") title = true ↔
      text.utf8ByteSize + 2 ≤ maxPatternBytes ∧ like ('%' :: (text.toList ++ ['%'])) title.toList = true := by
  have hbytes : ("%" ++ text ++ "%").utf8ByteSize = text.utf8ByteSize + 2 := by
    rw [String.utf8ByteSize_append, String.utf8ByteSize_append]
    show 1 + text.utf8ByteSize + 1 = text.utf8ByteSize + 2
    omega
  have hlist : ("%" ++ text ++ "%").toList = '%' :: (text.toList ++ ['%']) := by
    simp [String.toList_append]
  unfold isLike
  rw [Bool.and_eq_true, decide_eq_true_iff, hbytes, hlist]

theorem isLike_infix_forall_iff (text : String) :
    (∀ title : String, isLike ("%" ++ text ++ "%") title = true ↔ text.toList <:+: title.toList) ↔ Searchable text := by
  constructor
  · intro h
    have hbytes := ((isLike_pattern text text).mp ((h text).mpr List.infix_rfl)).1
    refine ⟨like_infix_forall_iff.mp fun title => ?_, hbytes⟩
    have htitle := h (String.ofList title)
    rw [isLike_pattern, String.toList_ofList] at htitle
    exact ⟨fun hlike => htitle.mp ⟨hbytes, hlike⟩, fun hstands => (htitle.mpr hstands).2⟩
  · rintro ⟨hplain, hbytes⟩ title
    rw [isLike_pattern, like_infix_iff hplain]
    exact ⟨And.right, fun hstands => ⟨hbytes, hstands⟩⟩

/-- One session with this title. -/
def titled (title : String) : Sessions where
  records := [⟨"session", title, "recording", "completed", 0, "2026-01-01 00:00:00", none⟩]
  distinct := List.nodup_singleton _

theorem matching_searchText (sessions : Sessions) (query : SessionQuery) (text : String) :
    sessions.matching { query with searchText := some text } =
      (sessions.matching { query with searchText := none }).filter fun record => isLike ("%" ++ text ++ "%") record.title := by
  unfold Sessions.matching SessionQuery.whereClauses
  rw [List.filter_filter]
  apply List.filter_congr
  intro record _
  simp only [List.all_append, Option.toList_some, Option.toList_none, List.map_cons, List.map_nil, List.all_cons,
    List.all_nil, Bool.and_true]
  cases isLike ("%" ++ text ++ "%") record.title <;> simp

/-- A search text keeps exactly the titles it stands in while it has no `%`, no `_` and no ASCII letter. -/
theorem searchText_forall_iff (text : String) :
    (∀ (sessions : Sessions) (query : SessionQuery), sessions.matching { query with searchText := some text } =
      (sessions.matching { query with searchText := none }).filter fun record =>
        decide (text.toList <:+: record.title.toList)) ↔ Searchable text := by
  rw [← isLike_infix_forall_iff]
  constructor
  · intro h title
    have hkept := h (titled title) {}
    rw [matching_searchText] at hkept
    have hall : (titled title).matching { searchText := none } = (titled title).records := rfl
    rw [hall] at hkept
    simp only [titled, List.filter_cons, List.filter_nil] at hkept
    by_cases hstands : text.toList <:+: title.toList
    · simpa [hstands] using hkept
    · simpa [hstands] using hkept
  · intro h sessions query
    rw [matching_searchText]
    apply List.filter_congr
    intro record _
    rw [Bool.eq_iff_iff, decide_eq_true_iff]
    exact h record.title

/-! ## Search -/

section
variable {Rank : Type} {fullText : FullText Rank} {index : SearchIndex} {listing : List SearchRow} {text : String}
  {limit : Nat}

theorem SearchIndex.nodup_hits (index : SearchIndex) (fullText : FullText Rank) (text : String) :
    (index.hits fullText text).Nodup := by
  have hrows : index.rows.Nodup := List.Nodup.of_map _ index.distinct
  unfold SearchIndex.hits
  split <;> exact hrows.filter _

theorem searchSessions_eq (sessions : Sessions) (fullText : FullText Rank) (text : String) (limit : Nat)
    (listing : List SearchRow) :
    sessions.searchSessions fullText text limit listing =
      ((listing.take limit).filter fun row => sessions.active row.sessionId).map (toSearchResult fullText text) := by
  unfold Sessions.searchSessions
  dsimp only
  rw [List.filter_map]
  congr 1
  apply List.filter_congr
  intro row hrow
  have hmem : row.sessionId ∈ ((listing.take limit).map (toSearchResult fullText text)).map (·.sessionId) :=
    List.mem_map_of_mem (List.mem_map_of_mem hrow)
  show decide (row.sessionId ∉ sessions.trashedAmong _) = sessions.active row.sessionId
  rw [Bool.eq_iff_iff, decide_eq_true_iff]
  unfold Sessions.trashedAmong Sessions.active
  rw [List.mem_filter, not_and, Bool.not_eq_true', ← Bool.not_eq_true]
  exact ⟨fun h => h hmem, fun h _ => h⟩

/-- A search returns as many active sessions as there are within the limit, whatever the ties do, while no trashed hit
can stand within the limit with an active one behind it. -/
theorem searchSessions_length_iff [LinearOrder Rank] (sessions : Sessions) (index : SearchIndex) (fullText : FullText Rank)
    (text : String) (limit : Nat) :
    (∀ listing, Listing (searchOrder fullText text) (index.hits fullText text) listing →
      (sessions.searchSessions fullText text limit listing).length =
        min limit ((index.hits fullText text).countP fun row => sessions.active row.sessionId)) ↔
      ∀ trashed ∈ index.hits fullText text, ∀ hit ∈ index.hits fullText text,
        sessions.active trashed.sessionId = false → sessions.active hit.sessionId = true →
          limit ≤ ahead (searchOrder fullText text) (index.hits fullText text) trashed ∨
            reach (searchOrder fullText text) (index.hits fullText text) hit ≤ limit := by
  rw [← filter_take_forall_iff (searchOrder fullText text) (index.nodup_hits fullText text)
    fun row => sessions.active row.sessionId]
  simp only [searchSessions_eq, List.length_map]

theorem active_of_mem_searchSessions {info : SearchResultInfo}
    (h : info ∈ sessions.searchSessions fullText text limit listing) : sessions.active info.sessionId = true := by
  rw [searchSessions_eq] at h
  obtain ⟨row, hrow, rfl⟩ := List.mem_map.mp h
  exact (List.mem_filter.mp hrow).2

end
end

/-- When the reads of the catalogue are complete, for every content and whatever the database does with ties. -/
theorem catalogue_complete_iff {Rank : Type} [LinearOrder Rank] (sessions : Sessions) (index : SearchIndex)
    (fullText : FullText Rank) :
    (∀ record ∈ sessions.records,
      (∀ result, sessions.Answers getSessionQuery result → getSession result record.id = .ok record) ↔
        (sessions.records.countP fun other => decide (record.createdAt ≤ other.createdAt)) ≤ 500) ∧
    (∀ query pageSize, 0 < pageSize →
      ((∀ answers : Nat → QueryResult, (∀ i, sessions.Answers (query.page pageSize i) (answers i)) →
        ((List.range (pageCount (sessions.matching query).length pageSize)).flatMap fun i => (answers i).sessions).Perm
          (sessions.matching query)) ↔
        ∀ record ∈ sessions.matching query, ahead query.order (sessions.matching query) record / pageSize =
          (reach query.order (sessions.matching query) record - 1) / pageSize)) ∧
    (∀ query result, sessions.Answers query result → result.totalCount = (sessions.matching query).length) ∧
    (∀ text, (∀ (sessions : Sessions) (query : SessionQuery), sessions.matching { query with searchText := some text } =
      (sessions.matching { query with searchText := none }).filter fun record =>
        decide (text.toList <:+: record.title.toList)) ↔ Searchable text) ∧
    ∀ text limit,
      (∀ listing, Listing (searchOrder fullText text) (index.hits fullText text) listing →
        (∀ info ∈ sessions.searchSessions fullText text limit listing, sessions.active info.sessionId = true) ∧
        (sessions.searchSessions fullText text limit listing).length =
          min limit ((index.hits fullText text).countP fun row => sessions.active row.sessionId)) ↔
        ∀ trashed ∈ index.hits fullText text, ∀ hit ∈ index.hits fullText text,
          sessions.active trashed.sessionId = false → sessions.active hit.sessionId = true →
            limit ≤ ahead (searchOrder fullText text) (index.hits fullText text) trashed ∨
              reach (searchOrder fullText text) (index.hits fullText text) hit ≤ limit := by
  refine ⟨fun record hrecord => getSession_forall_iff hrecord, fun query pageSize h => pages_perm_iff sessions query h,
    fun query result h => ?_, searchText_forall_iff, fun text limit => ?_⟩
  · obtain ⟨listing, -, rfl⟩ := h
    rfl
  · rw [← searchSessions_length_iff]
    exact ⟨fun h listing hlisting => (h listing hlisting).2,
      fun h listing hlisting => ⟨fun info hinfo => active_of_mem_searchSessions hinfo, h listing hlisting⟩⟩

/-! ## Incomplete reads -/

def namedBy (i : Nat) : SessionRecord :=
  ⟨String.ofList (List.replicate i 's'), "Meeting", "recording", "completed", 0, "2026-01-01 10:00:00", none⟩

/-- Sessions of one second. -/
def sameSecond (n : Nat) : Sessions where
  records := (List.range n).map namedBy
  distinct := by
    rw [List.map_map]
    apply List.Nodup.map _ List.nodup_range
    intro i j h
    have hlength := congrArg String.length h
    simpa [namedBy] using hlength

theorem mem_sameSecond {n : Nat} (h : 0 < n) : namedBy 0 ∈ (sameSecond n).records :=
  List.mem_map_of_mem (List.mem_range.mpr h)

theorem countP_sameSecond (n : Nat) :
    ((sameSecond n).records.countP fun other => decide ((namedBy 0).createdAt ≤ other.createdAt)) = n := by
  have hall : ∀ i ∈ List.range n, ((fun other => decide ((namedBy 0).createdAt ≤ other.createdAt)) ∘ namedBy) i = true :=
    fun i _ => decide_eq_true (le_refl (namedBy 0).createdAt)
  rw [sameSecond, List.countP_map, List.countP_eq_length.mpr hall, List.length_range]

/-- Of 501 sessions of one second `get_session` may miss any; of two, a read page by page may lose one. -/
theorem catalogue_incomplete :
    (∃ record ∈ (sameSecond 501).records, ¬ ∀ result, (sameSecond 501).Answers getSessionQuery result →
      getSession result record.id = .ok record) ∧
    ¬ ∀ answers : Nat → QueryResult, (∀ i, (sameSecond 2).Answers (({} : SessionQuery).page 1 i) (answers i)) →
      ((List.range 2).flatMap fun i => (answers i).sessions).Perm (sameSecond 2).records := by
  constructor
  · have hmem := mem_sameSecond (Nat.zero_lt_succ 500)
    refine ⟨namedBy 0, hmem, fun h => ?_⟩
    have hle := (getSession_forall_iff hmem).mp h
    rw [countP_sameSecond] at hle
    omega
  · intro h
    have hmem := mem_sameSecond Nat.two_pos
    have hpage := (pages_perm_iff (sameSecond 2) {} Nat.one_pos).mp h (namedBy 0) hmem
    have hreach : reach ({} : SessionQuery).order (sameSecond 2).records (namedBy 0) = 2 := countP_sameSecond 2
    have hahead : ahead ({} : SessionQuery).order (sameSecond 2).records (namedBy 0) = 0 := by
      apply List.countP_eq_zero.mpr
      intro other hother
      obtain ⟨i, -, rfl⟩ := List.mem_map.mp hother
      simp [SessionQuery.order, SortField.le, namedBy]
    have hall : (sameSecond 2).matching {} = (sameSecond 2).records := rfl
    rw [hall, hreach, hahead] at hpage
    cases hpage

end Zulangue.Catalogue
