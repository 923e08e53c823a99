import Zulangue.Community.Conserved
import Zulangue.Community.Requests

/-!
# Admission

The limits of an invite hold in every run in which no two starts pass the count of open sessions
together, no first key fails, and no session ends while a request for its keys is under way.
-/

namespace Zulangue.Community

open Zulangue.Lib

/-! ## What requests have in their hands -/

/-- The session is reserved, and its first key not claimed yet. -/
def Request.pending (sessionId : String) (r : Request) : Int :=
  match r.stage with
  | .reserved session => if session.sessionId = sessionId then 1 else 0
  | _ => 0

/-- The request is on its way to a response with keys. -/
def Request.busy (sessionId : String) (r : Request) : Int :=
  match r.stage with
  | .reserved session | .issued session | .started session => if session.sessionId = sessionId then 1 else 0
  | .claimed claimed _ _ => if claimed = sessionId then 1 else 0
  | _ => 0

/-- The rows of `session_keys` it claimed. -/
def Request.holds (sessionId : String) (r : Request) : Int :=
  match r.stage with
  | .issued session | .startFailed session | .started session => if session.sessionId = sessionId then 1 else 0
  | .claimed claimed count _ | .mintFailed claimed count => if claimed = sessionId then count else 0
  | _ => 0

/-- Its response, with keys, is next. -/
def Request.Responds (sessionId : String) (r : Request) : Prop :=
  (∃ session, r.stage = .started session ∧ session.sessionId = sessionId) ∨
    ∃ count, r.stage = .claimed sessionId count count

def HasOpen (sessions : List Session) (inviteId : Nat) (sessionId : String) : Prop :=
  ∃ session ∈ sessions, session.id = sessionId ∧ session.inviteId = inviteId ∧ session.settledSeconds = none

/-- A start reserves while there is still room. The first key does not fail. A session is not
settled and does not expire while a response with its keys is under way. Keys are asked for a
session once its id is known. A handler dies with empty hands. -/
def Careful (w : World) : Action → Prop
  | .reserve inviteId _ _ => w.store.countOpenSessions inviteId < maxOpenSessionsPerInvite
  | .firstFails => False
  | .settle _ sessionId _ => ∀ r ∈ w.requests, r.busy sessionId = 0
  | .expire cutoff => ∀ session ∈ w.store.stale cutoff, ∀ r ∈ w.requests, r.busy session.id = 0
  | .claim sessionId => ∀ r ∈ w.requests, r.pending sessionId = 0
  | .die r => ∀ sessionId, r.holds sessionId = 0
  | _ => True

def CarefulStep (w : World) (action : Action) (w' : World) : Prop := Step w action w' ∧ Careful w action

/-! ## The invariant -/

structure Admitted (w : World) : Prop where
  limit : ∀ inviteId, w.store.countOpenSessions inviteId ≤ maxOpenSessionsPerInvite
  openSession : ∀ r ∈ w.requests, ∀ sessionId, 0 < r.busy sessionId → HasOpen w.store.sessions r.inviteId sessionId
  alone : ∀ sessionId, Table.total (Request.pending sessionId) w.requests = 0 ∨
    Table.total (Request.busy sessionId) w.requests ≤ 1
  known : ∀ sessionId ∈ w.store.sessionKeys, sessionId ∈ w.store.sessions.map Session.id
  budget : ∀ sessionId, (w.store.sessionKeys.count sessionId : Int) +
    Table.total (Request.pending sessionId) w.requests ≤ sessionKeyBudget
  rows : ∀ sessionId, (w.store.sessionKeys.count sessionId : Int) =
    w.returned.count sessionId + Table.total (Request.holds sessionId) w.requests
  succeeds : ∀ r ∈ w.requests, ∀ session, r.stage ≠ .startFailed session

theorem pending_nonneg (sessionId : String) (r : Request) : 0 ≤ r.pending sessionId := by
  rw [Request.pending]
  split
  · split <;> decide
  · exact Int.le_refl 0

theorem busy_nonneg (sessionId : String) (r : Request) : 0 ≤ r.busy sessionId := by
  rw [Request.busy]
  split
  · split <;> decide
  · split <;> decide
  · split <;> decide
  · split <;> decide
  · exact Int.le_refl 0

theorem holds_nonneg (sessionId : String) (r : Request) : 0 ≤ r.holds sessionId := by
  rw [Request.holds]
  split
  · split <;> decide
  · split <;> decide
  · split <;> decide
  · split <;> omega
  · split <;> omega
  · exact Int.le_refl 0

theorem start_admitted : Admitted .start := by
  constructor
  · intro inviteId
    exact Nat.zero_le _
  · intro r hr
    cases hr
  · intro sessionId
    exact .inl rfl
  · intro sessionId hmem
    cases hmem
  · intro sessionId
    change (0 : Int) + 0 ≤ sessionKeyBudget
    decide
  · intro sessionId
    rfl
  · intro r hr
    cases hr

section
variable {w : World} {r : Request} {requests : List Request} {next : Option Request}

/-- What the request brings along, or nothing where it ends. -/
def weight (f : Request → Int) (next : Option Request) : Int := (next.map f).getD 0

theorem Admitted.alone_turn (h : Admitted w) (hturn : Turns w.requests r next requests) (sessionId : String)
    (hpending : weight (Request.pending sessionId) next ≤ r.pending sessionId)
    (hbusy : weight (Request.busy sessionId) next ≤ r.busy sessionId) :
    Table.total (Request.pending sessionId) requests = 0 ∨ Table.total (Request.busy sessionId) requests ≤ 1 := by
  have hp := hturn.total (Request.pending sessionId)
  have hb := hturn.total (Request.busy sessionId)
  have hnonneg : 0 ≤ Table.total (Request.pending sessionId) requests :=
    Table.total_nonneg fun r _ => pending_nonneg sessionId r
  change _ = _ + weight _ next at hp hb
  obtain hnone | hone := h.alone sessionId
  · left
    omega
  · right
    omega

/-- A request goes on, or ends, without a transaction that writes. -/
theorem Admitted.turn (h : Admitted w) (hturn : Turns w.requests r next requests) {returned : List String}
    (hinvite : ∀ r', next = some r' → r'.inviteId = r.inviteId ∧ ∀ session, r'.stage ≠ .startFailed session)
    (hpending : ∀ sessionId, weight (Request.pending sessionId) next ≤ r.pending sessionId)
    (hbusy : ∀ sessionId, weight (Request.busy sessionId) next ≤ r.busy sessionId)
    (hholds : ∀ sessionId, (returned.count sessionId : Int) + weight (Request.holds sessionId) next =
      w.returned.count sessionId + r.holds sessionId) : Admitted { w with requests, returned } := by
  constructor
  · exact h.limit
  · intro r' hr' sessionId hpositive
    obtain hold | hnew := hturn.mem_of_mem hr'
    · exact h.openSession r' hold sessionId hpositive
    · have hle := hbusy sessionId
      rw [hnew] at hle
      change r'.busy sessionId ≤ _ at hle
      rw [(hinvite r' hnew).1]
      exact h.openSession r hturn.mem sessionId (by omega)
  · intro sessionId
    exact h.alone_turn hturn sessionId (hpending sessionId) (hbusy sessionId)
  · exact h.known
  · intro sessionId
    have htotal := hturn.total (Request.pending sessionId)
    have hle := hpending sessionId
    have hbudget := h.budget sessionId
    change _ = _ + weight _ next at htotal
    change (w.store.sessionKeys.count sessionId : Int) + Table.total (Request.pending sessionId) requests ≤ _
    omega
  · intro sessionId
    have htotal := hturn.total (Request.holds sessionId)
    have heq := hholds sessionId
    have hrows := h.rows sessionId
    change _ = _ + weight _ next at htotal
    change (w.store.sessionKeys.count sessionId : Int) = returned.count sessionId + Table.total (Request.holds sessionId) requests
    omega
  · intro r' hr'
    obtain hold | hnew := hturn.mem_of_mem hr'
    · exact h.succeeds r' hold
    · exact (hinvite r' hnew).2

/-- A new request, with empty hands. -/
theorem Admitted.arrive (h : Admitted w) {new : Request} (hpending : ∀ sessionId, new.pending sessionId = 0)
    (hbusy : ∀ sessionId, new.busy sessionId = 0) (hholds : ∀ sessionId, new.holds sessionId = 0)
    (hstage : ∀ session, new.stage ≠ .startFailed session) : Admitted { w with requests := w.requests ++ [new] } := by
  have htotal : ∀ {f : Request → Int}, f new = 0 → Table.total f (w.requests ++ [new]) = Table.total f w.requests := by
    intro f hf
    rw [Table.total_append, Table.total_cons, hf]
    exact Int.add_zero _
  constructor
  · exact h.limit
  · intro r hr sessionId hpositive
    obtain hold | hnew := List.mem_append.mp hr
    · exact h.openSession r hold sessionId hpositive
    · rw [List.mem_singleton.mp hnew, hbusy] at hpositive
      exact absurd hpositive (Int.lt_irrefl 0)
  · intro sessionId
    change Table.total _ (w.requests ++ [new]) = 0 ∨ Table.total _ (w.requests ++ [new]) ≤ 1
    rw [htotal (hpending sessionId), htotal (hbusy sessionId)]
    exact h.alone sessionId
  · exact h.known
  · intro sessionId
    change _ + Table.total _ (w.requests ++ [new]) ≤ _
    rw [htotal (hpending sessionId)]
    exact h.budget sessionId
  · intro sessionId
    change _ = _ + Table.total _ (w.requests ++ [new])
    rw [htotal (hholds sessionId)]
    exact h.rows sessionId
  · intro r hr
    obtain hold | hnew := List.mem_append.mp hr
    · exact h.succeeds r hold
    · rw [List.mem_singleton.mp hnew]
      exact hstage

/-- The store alone changes. -/
theorem Admitted.store (h : Admitted w) {store : Store} (hkeys : store.sessionKeys = w.store.sessionKeys)
    (hids : ∀ sessionId ∈ w.store.sessions.map Session.id, sessionId ∈ store.sessions.map Session.id)
    (hlimit : ∀ inviteId, store.countOpenSessions inviteId ≤ w.store.countOpenSessions inviteId)
    (hopen : ∀ r ∈ w.requests, ∀ sessionId, 0 < r.busy sessionId → HasOpen w.store.sessions r.inviteId sessionId →
      HasOpen store.sessions r.inviteId sessionId) : Admitted { w with store } := by
  constructor
  · exact fun inviteId => Nat.le_trans (hlimit inviteId) (h.limit inviteId)
  · exact fun r hr sessionId hpositive => hopen r hr sessionId hpositive (h.openSession r hr sessionId hpositive)
  · exact h.alone
  · intro sessionId hmem
    change sessionId ∈ store.sessionKeys at hmem
    rw [hkeys] at hmem
    exact hids sessionId (h.known sessionId hmem)
  · intro sessionId
    change (store.sessionKeys.count sessionId : Int) + _ ≤ _
    rw [hkeys]
    exact h.budget sessionId
  · intro sessionId
    change (store.sessionKeys.count sessionId : Int) = _
    rw [hkeys]
    exact h.rows sessionId
  · exact h.succeeds

/-- A request goes on, or ends, and the rows of `session_keys` change with what it holds. -/
theorem Admitted.turnKeys (h : Admitted w) (hturn : Turns w.requests r next requests) {sessionKeys : List String}
    (hstage : ∀ r', next = some r' → ∀ session, r'.stage ≠ .startFailed session)
    (hopen : ∀ r', next = some r' → ∀ sessionId, 0 < r'.busy sessionId →
      HasOpen w.store.sessions r'.inviteId sessionId)
    (halone : ∀ sessionId, Table.total (Request.pending sessionId) requests = 0 ∨
      Table.total (Request.busy sessionId) requests ≤ 1)
    (hknown : ∀ sessionId ∈ sessionKeys, sessionId ∈ w.store.sessions.map Session.id)
    (hbudget : ∀ sessionId, (sessionKeys.count sessionId : Int) + Table.total (Request.pending sessionId) requests ≤
      sessionKeyBudget)
    (hholds : ∀ sessionId, (sessionKeys.count sessionId : Int) + r.holds sessionId =
      w.store.sessionKeys.count sessionId + weight (Request.holds sessionId) next) :
    Admitted { w with store := { w.store with sessionKeys }, requests } := by
  constructor
  · exact h.limit
  · intro r' hr' sessionId hpositive
    obtain hold | hnew := hturn.mem_of_mem hr'
    · exact h.openSession r' hold sessionId hpositive
    · exact hopen r' hnew sessionId hpositive
  · exact halone
  · exact hknown
  · exact hbudget
  · intro sessionId
    have htotal := hturn.total (Request.holds sessionId)
    have heq := hholds sessionId
    have hrows := h.rows sessionId
    change _ = _ + weight _ next at htotal
    change (sessionKeys.count sessionId : Int) = w.returned.count sessionId + Table.total (Request.holds sessionId) requests
    omega
  · intro r' hr'
    obtain hold | hnew := hturn.mem_of_mem hr'
    · exact h.succeeds r' hold
    · exact hstage r' hnew

end

/-! ## Transactions -/

/-- Some sessions are settled, and nothing else changes for requests. -/
structure Closes (s s' : Store) (gone : String → Prop) : Prop where
  keys : s'.sessionKeys = s.sessionKeys
  ids : s'.sessions.map Session.id = s.sessions.map Session.id
  limit : ∀ inviteId, s'.countOpenSessions inviteId ≤ s.countOpenSessions inviteId
  stays : ∀ inviteId sessionId, ¬ gone sessionId → HasOpen s.sessions inviteId sessionId →
    HasOpen s'.sessions inviteId sessionId

section
variable {s s' s'' : Store} {gone : String → Prop}

theorem Closes.refl (s : Store) (gone : String → Prop) : Closes s s gone :=
  ⟨rfl, rfl, fun _ => Nat.le_refl _, fun _ _ _ h => h⟩

theorem Closes.trans (h : Closes s s' gone) (h' : Closes s' s'' gone) : Closes s s'' gone :=
  ⟨h'.keys.trans h.keys, h'.ids.trans h.ids, fun inviteId => Nat.le_trans (h'.limit inviteId) (h.limit inviteId),
    fun inviteId sessionId hstays hopen => h'.stays inviteId sessionId hstays (h.stays inviteId sessionId hstays hopen)⟩

theorem Closes.of_update {sessionId : String} {seconds : Int} (hgone : gone sessionId) (hkeys : s'.sessionKeys = s.sessionKeys)
    (hsessions : s'.sessions = Table.update Session.id sessionId (Session.settledFor seconds) s.sessions) :
    Closes s s' gone := by
  have hids : ∀ row : Session, (row.settledFor seconds).id = row.id := fun _ => rfl
  constructor
  · exact hkeys
  · rw [hsessions, Table.keys_update hids]
  · intro inviteId
    rw [Store.countOpenSessions, Store.countOpenSessions, hsessions]
    refine Table.countP_update_le (fun row hrow => ?_) _
    rw [decide_eq_true_eq] at hrow
    cases hrow.2
  · rintro inviteId other hstays ⟨session, hmem, rfl, hinvite, hopen⟩
    refine ⟨session, ?_, rfl, hinvite, hopen⟩
    rw [hsessions]
    refine List.mem_map.mpr ⟨session, hmem, if_neg ?_⟩
    rintro rfl
    exact hstays hgone

theorem settle_closes (s : Store) (inviteId : Nat) (sessionId : String) (usedSeconds : Int) :
    Closes s (s.commit (.settleSession inviteId sessionId usedSeconds)) (· = sessionId) := by
  rw [Store.commit, Store.settleSession]
  split
  · exact .refl s _
  · exact .of_update rfl rfl rfl

theorem expire_closes (s : Store) (cutoff : String) :
    Closes s (s.commit (.expireStaleReservations cutoff)) fun sessionId =>
      ∃ session ∈ s.stale cutoff, session.id = sessionId := by
  have hall : ∀ (stale : List Session) (s : Store) (gone : String → Prop), (∀ session ∈ stale, gone session.id) →
      Closes s (stale.foldl Store.expire s) gone := by
    intro stale
    induction stale with
    | nil => exact fun s gone _ => .refl s gone
    | cons session rest ih =>
      intro s gone hgone
      rw [List.forall_mem_cons] at hgone
      have hfirst : Closes s (s.expire session) gone := by
        rw [expire_eq_close]
        exact .of_update hgone.1 rfl rfl
      exact hfirst.trans (ih (s.expire session) gone hgone.2)
  exact hall _ s _ fun session hsession => ⟨session, hsession, rfl⟩

/-- Transactions on invites alone. -/
theorem invites_closes (s : Store) {t : Transaction} (hsessions : (s.commit t).sessions = s.sessions)
    (hkeys : (s.commit t).sessionKeys = s.sessionKeys) : Closes s (s.commit t) fun _ => False := by
  refine ⟨hkeys, congrArg _ hsessions, fun inviteId => ?_, fun inviteId sessionId _ hopen => hsessions.symm ▸ hopen⟩
  rw [Store.countOpenSessions, Store.countOpenSessions, hsessions]

theorem createInvite_closes (s : Store) (codeHash : String) (quotaSeconds : Int) :
    Closes s (s.commit (.createInvite codeHash quotaSeconds)) fun _ => False := by
  refine invites_closes s ?_ ?_
  · rw [Store.commit, Store.createInvite]
    split <;> rfl
  · rw [Store.commit, Store.createInvite]
    split <;> rfl

theorem adjustInviteQuota_closes (s : Store) (inviteId : Nat) (deltaSeconds : Int) :
    Closes s (s.commit (.adjustInviteQuota inviteId deltaSeconds)) fun _ => False := by
  have hsame : (s.commit (.adjustInviteQuota inviteId deltaSeconds)).sessions = s.sessions ∧
      (s.commit (.adjustInviteQuota inviteId deltaSeconds)).sessionKeys = s.sessionKeys := by
    rw [Store.commit, Store.adjustInviteQuota]
    split
    · exact ⟨rfl, rfl⟩
    · dsimp only
      split
      · exact ⟨rfl, rfl⟩
      · exact ⟨rfl, rfl⟩
  exact invites_closes s hsame.1 hsame.2

theorem count_dropKeys (sessionId other : String) (count : Nat) (keys : List String) :
    (Store.dropKeys sessionId count keys).count other =
      if other = sessionId then keys.count other - count else keys.count other := by
  induction keys generalizing count with
  | nil =>
    cases count <;> simp [Store.dropKeys]
  | cons key keys ih =>
    cases count with
    | zero => simp [Store.dropKeys]
    | succ count =>
      rw [Store.dropKeys]
      by_cases hkey : key = sessionId
      · rw [if_pos hkey, ih, List.count_cons]
        by_cases hother : other = sessionId
        · rw [if_pos hother, if_pos hother, hkey, hother, if_pos (beq_self_eq_true _)]
          omega
        · rw [if_neg hother, if_neg hother, hkey, if_neg (by simpa using Ne.symm hother), Nat.add_zero]
      · rw [if_neg hkey, List.count_cons, List.count_cons, ih]
        by_cases hother : other = sessionId
        · rw [if_pos hother, if_pos hother, hother, if_neg (by simpa using hkey)]
          rfl
        · rw [if_neg hother, if_neg hother]

theorem mem_dropKeys {sessionId other : String} {count : Nat} {keys : List String}
    (h : other ∈ Store.dropKeys sessionId count keys) : other ∈ keys := by
  rw [← List.count_pos_iff] at h ⊢
  rw [count_dropKeys] at h
  split at h
  · omega
  · exact h

end

/-! ## One step -/

section
variable {w : World} {r : Request} {requests : List Request}

theorem Admitted.closes (h : Admitted w) {store : Store} {gone : String → Prop} (hcloses : Closes w.store store gone)
    (hidle : ∀ r ∈ w.requests, ∀ sessionId, gone sessionId → r.busy sessionId ≤ 0) : Admitted { w with store } := by
  refine h.store hcloses.keys (fun sessionId hmem => hcloses.ids ▸ hmem) hcloses.limit ?_
  intro r hr sessionId hpositive hopen
  refine hcloses.stays r.inviteId sessionId (fun hgone => ?_) hopen
  have hle := hidle r hr sessionId hgone
  omega

theorem Admitted.unconfigured (h : Admitted w) {session : Reservation} (hturn : Turns w.requests r none requests)
    (hstage : r.stage = .reserved session) :
    Admitted { w with store := w.store.commit (.settleSession r.inviteId session.sessionId 0), requests } := by
  have hends : Admitted { w with requests, returned := w.returned } := by
    refine h.turn hturn (fun _ hnext => by cases hnext) ?_ ?_ ?_
    · exact fun sessionId => pending_nonneg sessionId r
    · exact fun sessionId => busy_nonneg sessionId r
    · intro sessionId
      rw [Request.holds, hstage]
      rfl
  -- No other request is busy with a session that is being started.
  have hpending : r.pending session.sessionId = 1 := by
    rw [Request.pending, hstage]
    exact if_pos rfl
  have hbusy : r.busy session.sessionId = 1 := by
    rw [Request.busy, hstage]
    exact if_pos rfl
  have hone : Table.total (Request.busy session.sessionId) w.requests ≤ 1 := by
    refine (h.alone session.sessionId).resolve_left fun hzero => ?_
    have hle := Table.le_total (fun r _ => pending_nonneg session.sessionId r) hturn.mem
    omega
  have hrest := hturn.total (Request.busy session.sessionId)
  change _ = _ + (0 : Int) at hrest
  refine hends.closes (settle_closes w.store r.inviteId session.sessionId 0) ?_
  rintro other hother _ rfl
  have hle := Table.le_total (fun r _ => busy_nonneg session.sessionId r) hother
  change other.busy session.sessionId ≤ Table.total _ requests at hle
  omega

theorem Admitted.reserve (h : Admitted w) {requestedSeconds laneCount : Int} {sessionId createdAt : String} {store : Store}
    {session : Reservation} (hturn : Turns w.requests r (some { r with stage := .reserved session }) requests)
    (hstage : r.stage = .counted requestedSeconds laneCount)
    (hreserve : w.store.reserveSession r.inviteId requestedSeconds laneCount sessionId createdAt = some (store, session))
    (hroom : w.store.countOpenSessions r.inviteId < maxOpenSessionsPerInvite) : Admitted { w with store, requests } := by
  rw [Store.reserveSession] at hreserve
  dsimp only at hreserve
  split at hreserve
  · cases hreserve
  split at hreserve
  · cases hreserve
  split at hreserve
  · cases hreserve
  split at hreserve
  · cases hreserve
  next hfresh =>
    obtain ⟨rfl, rfl⟩ := Prod.mk.inj (Option.some.inj hreserve)
    generalize min (max 1 (min requestedSeconds maxSessionSeconds)) _ = reserved at hturn ⊢
    generalize max 1 (min laneCount maxLanesPerSession) = lanes at hturn ⊢
    have hnokeys : w.store.sessionKeys.count sessionId = 0 :=
      List.count_eq_zero.mpr fun hmem => hfresh (h.known sessionId hmem)
    have hnobusy : Table.total (Request.busy sessionId) w.requests = 0 := by
      refine Table.total_eq_zero fun other hother => ?_
      by_contra hne
      have hpositive : 0 < other.busy sessionId := by
        have hnonneg := busy_nonneg sessionId other
        omega
      obtain ⟨row, hrow, hid, -⟩ := h.openSession other hother sessionId hpositive
      exact hfresh (List.mem_map.mpr ⟨row, hrow, hid⟩)
    have hnopending : Table.total (Request.pending sessionId) w.requests = 0 := by
      refine Table.total_eq_zero fun other hother => ?_
      have hle : other.pending sessionId ≤ other.busy sessionId := by
        rw [Request.pending, Request.busy]
        cases other.stage with
        | reserved session => exact Int.le_refl _
        | issued | started | claimed => dsimp only; split <;> decide
        | _ => exact Int.le_refl _
      have hbusy := Table.le_total (fun r _ => busy_nonneg sessionId r) hother
      have hnonneg := pending_nonneg sessionId other
      omega
    have hpending : ∀ other, Table.total (Request.pending other) requests =
        Table.total (Request.pending other) w.requests + if sessionId = other then 1 else 0 := by
      intro other
      have htotal := hturn.total (Request.pending other)
      rw [show r.pending other = 0 by rw [Request.pending, hstage], Int.sub_zero] at htotal
      exact htotal
    have hbusy : ∀ other, Table.total (Request.busy other) requests =
        Table.total (Request.busy other) w.requests + if sessionId = other then 1 else 0 := by
      intro other
      have htotal := hturn.total (Request.busy other)
      rw [show r.busy other = 0 by rw [Request.busy, hstage], Int.sub_zero] at htotal
      exact htotal
    constructor
    · intro inviteId
      change (w.store.sessions ++ [_]).countP _ ≤ _
      rw [List.countP_append, List.countP_singleton]
      by_cases hinvite : r.inviteId = inviteId
      · subst hinvite
        change w.store.countOpenSessions r.inviteId + _ ≤ _
        split <;> omega
      · rw [if_neg (by simpa using fun heq => absurd heq hinvite)]
        exact h.limit inviteId
    · intro other hother key hpositive
      obtain hold | hnew := hturn.mem_of_mem hother
      · obtain ⟨row, hrow, hrest⟩ := h.openSession other hold key hpositive
        exact ⟨row, List.mem_append_left _ hrow, hrest⟩
      · obtain rfl := Option.some.inj hnew
        rw [Request.busy] at hpositive
        dsimp only at hpositive
        split at hpositive
        next heq => exact ⟨_, List.mem_append_right _ (List.mem_singleton_self _), heq, rfl, rfl⟩
        · exact absurd hpositive (Int.lt_irrefl 0)
    · intro other
      change Table.total _ requests = 0 ∨ Table.total _ requests ≤ 1
      rw [hpending, hbusy]
      split
      next heq =>
        subst heq
        right
        omega
      · rw [Int.add_zero, Int.add_zero]
        exact h.alone other
    · intro other hmem
      change other ∈ (w.store.sessions ++ [_]).map Session.id
      rw [List.map_append]
      exact List.mem_append_left _ (h.known other hmem)
    · intro other
      have hbudget := h.budget other
      change (w.store.sessionKeys.count other : Int) + Table.total _ requests ≤ _
      rw [hpending]
      split
      next heq =>
        subst heq
        rw [hnokeys, hnopending]
        decide
      · rw [Int.add_zero]
        exact hbudget
    · intro other
      have htotal := hturn.total (Request.holds other)
      have hrows := h.rows other
      rw [show r.holds other = 0 by rw [Request.holds, hstage], Int.sub_zero] at htotal
      change _ = _ + (0 : Int) at htotal
      change (w.store.sessionKeys.count other : Int) = w.returned.count other + Table.total _ requests
      omega
    · intro other hother
      obtain hold | hnew := hturn.mem_of_mem hother
      · exact h.succeeds other hold
      · obtain rfl := Option.some.inj hnew
        exact fun session hcontra => by cases hcontra

theorem openSession_of_hasOpen {s : Store} {inviteId : Nat} {sessionId : String} (h : HasOpen s.sessions inviteId sessionId) :
    ∃ session, s.openSession inviteId sessionId = some session := by
  obtain ⟨session, hmem, hid, hinvite, hopen⟩ := h
  rw [← Option.isSome_iff_exists, Store.openSession, List.find?_isSome]
  exact ⟨session, hmem, by simp [hid, hinvite, hopen]⟩

/-- The first key fits: nobody could ask for keys of the session before. -/
theorem Admitted.issue (h : Admitted w) {session : Reservation}
    (hturn : Turns w.requests r (some { r with stage := .issued session }) requests) (hstage : r.stage = .reserved session) :
    Admitted { w with store := w.store.commit (.reserveSessionKeys r.inviteId session.sessionId 1), requests } := by
  have hbusy : 0 < r.busy session.sessionId := by
    rw [Request.busy, hstage]
    dsimp only
    rw [if_pos rfl]
    decide
  have hopen := h.openSession r hturn.mem session.sessionId hbusy
  obtain ⟨found, hfound⟩ := openSession_of_hasOpen hopen
  have hpending : ∀ sessionId, r.pending sessionId = if session.sessionId = sessionId then 1 else 0 := by
    intro sessionId
    rw [Request.pending, hstage]
  have hle := Table.le_total (fun r _ => pending_nonneg session.sessionId r) hturn.mem
  have hbudget := h.budget session.sessionId
  rw [hpending, if_pos rfl] at hle
  have hfits : ¬ sessionKeyBudget < w.store.sessionKeys.count session.sessionId + 1 := by omega
  have hcommit : w.store.commit (.reserveSessionKeys r.inviteId session.sessionId 1) =
      { w.store with sessionKeys := session.sessionId :: w.store.sessionKeys } := by
    rw [Store.commit, Store.reserveSessionKeys, if_neg (by decide), hfound]
    dsimp only
    rw [if_neg hfits]
    rfl
  have hnopending : ∀ sessionId, Table.total (Request.pending sessionId) requests =
      Table.total (Request.pending sessionId) w.requests - if session.sessionId = sessionId then 1 else 0 := by
    intro sessionId
    have htotal := hturn.total (Request.pending sessionId)
    rw [hpending] at htotal
    exact htotal.trans (Int.add_zero _)
  have hcount : ∀ sessionId, ((session.sessionId :: w.store.sessionKeys).count sessionId : Int) =
      w.store.sessionKeys.count sessionId + if session.sessionId = sessionId then 1 else 0 := by
    intro sessionId
    rw [List.count_cons]
    by_cases heq : session.sessionId = sessionId
    · rw [if_pos (by simpa using heq), if_pos heq]
      rfl
    · rw [if_neg (by simpa using heq), if_neg heq]
      rfl
  rw [hcommit]
  refine h.turnKeys hturn ?_ ?_ ?_ ?_ ?_ ?_
  · rintro r' hnext other hcontra
    obtain rfl := Option.some.inj hnext
    cases hcontra
  · intro r' hnext sessionId hpositive
    obtain rfl := Option.some.inj hnext
    refine h.openSession r hturn.mem sessionId ?_
    rw [Request.busy, hstage]
    exact hpositive
  · intro sessionId
    refine h.alone_turn hturn sessionId (pending_nonneg sessionId r) (Int.le_of_eq ?_)
    rw [Request.busy, hstage]
    rfl
  · intro sessionId hmem
    obtain rfl | hold := List.mem_cons.mp hmem
    · obtain ⟨row, hrow, hid, -⟩ := hopen
      exact List.mem_map.mpr ⟨row, hrow, hid⟩
    · exact h.known sessionId hold
  · intro sessionId
    have hbudget := h.budget sessionId
    rw [hcount, hnopending]
    omega
  · intro sessionId
    rw [hcount, show r.holds sessionId = 0 by rw [Request.holds, hstage]]
    change _ = (w.store.sessionKeys.count sessionId : Int) + if session.sessionId = sessionId then 1 else 0
    exact Int.add_zero _

theorem Admitted.claim (h : Admitted w) {sessionId : String} {count issued : Nat} {store : Store}
    (hturn : Turns w.requests r (some { r with stage := .claimed sessionId count 0 }) requests)
    (hstage : r.stage = .found sessionId count)
    (hclaim : w.store.reserveSessionKeys r.inviteId sessionId count = some (store, issued))
    (hknown : ∀ r ∈ w.requests, r.pending sessionId = 0) : Admitted { w with store, requests } := by
  obtain ⟨⟨session, hfound⟩, hfits, rfl⟩ := reserveSessionKeys_spec hclaim
  obtain ⟨hmem, hid, hinvite, hopen⟩ := openSession_spec hfound
  have hpending : ∀ other, Table.total (Request.pending other) requests = Table.total (Request.pending other) w.requests := by
    intro other
    have htotal := hturn.total (Request.pending other)
    rw [show r.pending other = 0 by rw [Request.pending, hstage], Int.sub_zero] at htotal
    exact htotal.trans (Int.add_zero _)
  have hbusy : ∀ other, Table.total (Request.busy other) requests =
      Table.total (Request.busy other) w.requests + if sessionId = other then 1 else 0 := by
    intro other
    have htotal := hturn.total (Request.busy other)
    rw [show r.busy other = 0 by rw [Request.busy, hstage], Int.sub_zero] at htotal
    exact htotal
  have hnone := Table.total_eq_zero hknown
  have hcount : ∀ other, ((List.replicate count sessionId ++ w.store.sessionKeys).count other : Int) =
      w.store.sessionKeys.count other + if sessionId = other then (count : Int) else 0 := by
    intro other
    rw [List.count_append, List.count_replicate]
    by_cases heq : sessionId = other
    · rw [if_pos (by simpa using heq), if_pos heq]
      omega
    · rw [if_neg (by simpa using heq), if_neg heq]
      omega
  refine h.turnKeys hturn ?_ ?_ ?_ ?_ ?_ ?_
  · rintro r' hnext other hcontra
    obtain rfl := Option.some.inj hnext
    cases hcontra
  · intro r' hnext other hpositive
    obtain rfl := Option.some.inj hnext
    rw [Request.busy] at hpositive
    dsimp only at hpositive
    split at hpositive
    next heq => exact ⟨session, hmem, hid.trans heq, hinvite, hopen⟩
    · exact absurd hpositive (Int.lt_irrefl 0)
  · intro other
    rw [hpending, hbusy]
    by_cases heq : sessionId = other
    · subst heq
      exact .inl hnone
    · rw [if_neg heq, Int.add_zero]
      exact h.alone other
  · intro other hin
    obtain hnew | hold := List.mem_append.mp hin
    · rw [List.eq_of_mem_replicate hnew]
      exact List.mem_map.mpr ⟨session, hmem, hid⟩
    · exact h.known other hold
  · intro other
    have hbudget := h.budget other
    rw [hcount, hpending]
    by_cases heq : sessionId = other
    · subst heq
      rw [if_pos rfl, hnone]
      omega
    · rw [if_neg heq]
      omega
  · intro other
    rw [hcount, show r.holds other = 0 by rw [Request.holds, hstage]]
    change _ = (w.store.sessionKeys.count other : Int) + if sessionId = other then (count : Int) else 0
    exact Int.add_zero _

/-- What a failed batch gives back it has claimed, whichever rows these are. -/
theorem Admitted.release (h : Admitted w) {sessionId : String} {count : Nat} (hturn : Turns w.requests r none requests)
    (hstage : r.stage = .mintFailed sessionId count) :
    Admitted { w with store := w.store.commit (.releaseSessionKeys sessionId count), requests } := by
  have hholds : ∀ other, r.holds other = if sessionId = other then (count : Int) else 0 := by
    intro other
    rw [Request.holds, hstage]
  have hpending : ∀ other, Table.total (Request.pending other) requests = Table.total (Request.pending other) w.requests := by
    intro other
    have htotal := hturn.total (Request.pending other)
    rw [show r.pending other = 0 by rw [Request.pending, hstage], Int.sub_zero] at htotal
    exact htotal.trans (Int.add_zero _)
  have hclaimed : count ≤ w.store.sessionKeys.count sessionId := by
    have hle := Table.le_total (fun r _ => holds_nonneg sessionId r) hturn.mem
    have hrows := h.rows sessionId
    rw [hholds, if_pos rfl] at hle
    omega
  refine h.turnKeys hturn (fun _ hnext => by cases hnext) (fun _ hnext => by cases hnext) ?_ ?_ ?_ ?_
  · intro other
    exact h.alone_turn hturn other (pending_nonneg other r) (busy_nonneg other r)
  · intro other hin
    exact h.known other (mem_dropKeys hin)
  · intro other
    have hbudget := h.budget other
    rw [count_dropKeys, hpending]
    split <;> omega
  · intro other
    rw [count_dropKeys, hholds]
    change _ = (w.store.sessionKeys.count other : Int) + 0
    by_cases heq : other = sessionId
    · subst heq
      rw [if_pos rfl, if_pos rfl]
      omega
    · rw [if_neg heq, if_neg (Ne.symm heq)]

/-- A stage without sessions: the request ends with an error. -/
theorem Admitted.leave (h : Admitted w) (hturn : Turns w.requests r none requests) (hholds : ∀ sessionId, r.holds sessionId = 0) :
    Admitted { w with requests } := by
  refine h.turn hturn (fun _ hnext => by cases hnext) (pending_nonneg · r) (busy_nonneg · r) fun sessionId => ?_
  rw [hholds]
  rfl

/-- The request goes on with the same keys in its hands. -/
theorem Admitted.goOn (h : Admitted w) {stage : Stage} (hturn : Turns w.requests r (some { r with stage }) requests)
    (hsucceeds : ∀ session, stage ≠ .startFailed session)
    (hpending : ∀ sessionId, Request.pending sessionId { r with stage } ≤ r.pending sessionId)
    (hbusy : ∀ sessionId, Request.busy sessionId { r with stage } ≤ r.busy sessionId)
    (hholds : ∀ sessionId, Request.holds sessionId { r with stage } = r.holds sessionId) : Admitted { w with requests } := by
  refine h.turn hturn ?_ hpending hbusy fun sessionId => ?_
  · intro r' hnext
    obtain rfl := Option.some.inj hnext
    exact ⟨rfl, hsucceeds⟩
  · rw [← hholds]
    rfl

theorem Admitted.step {w' : World} {action : Action} (h : Admitted w) (hstep : CarefulStep w action w') : Admitted w' := by
  obtain ⟨hstep, hcareful⟩ := hstep
  cases hstep with
  | createInvite => exact h.closes (createInvite_closes _ _ _) fun _ _ _ hgone => hgone.elim
  | adjustInviteQuota => exact h.closes (adjustInviteQuota_closes _ _ _) fun _ _ _ hgone => hgone.elim
  | setInviteEnabled => exact h.closes (invites_closes _ rfl rfl) fun _ _ _ hgone => hgone.elim
  | expire =>
    refine h.closes (expire_closes _ _) ?_
    rintro r hr _ ⟨session, hsession, rfl⟩
    exact Int.le_of_eq (hcareful session hsession r hr)
  | startRequested _ | keysRequested _ =>
    exact h.arrive (fun _ => rfl) (fun _ => rfl) (fun _ => rfl) fun _ hstage => by cases hstage
  | settle _ =>
    refine h.closes (settle_closes _ _ _ _) ?_
    rintro r hr _ rfl
    exact Int.le_of_eq (hcareful r hr)
  | count hturn hstage _ | find hturn hstage _ | mintFails hturn hstage _ =>
    refine h.goOn hturn (fun _ hcontra => by cases hcontra) ?_ ?_ ?_
    · exact fun sessionId => pending_nonneg sessionId _
    · exact fun sessionId => busy_nonneg sessionId _
    · intro sessionId
      rw [Request.holds, Request.holds, hstage]
  | reserve hturn hstage hreserve => exact h.reserve hturn hstage hreserve hcareful
  | unconfigured hturn hstage => exact h.unconfigured hturn hstage
  | issue hturn hstage => exact h.issue hturn hstage
  | firstMinted hturn hstage | minted hturn hstage _ =>
    refine h.goOn hturn (fun _ hcontra => by cases hcontra) ?_ ?_ ?_
    · exact fun sessionId => pending_nonneg sessionId _
    · intro sessionId
      rw [Request.busy, Request.busy, hstage]
    · intro sessionId
      rw [Request.holds, Request.holds, hstage]
  | firstFails => exact hcareful.elim
  | settleFailed hturn hstage => exact absurd hstage (h.succeeds _ hturn.mem _)
  | respondStarted hturn hstage =>
    rename_i r requests session
    refine h.turn hturn (fun _ hnext => by cases hnext) (pending_nonneg · _) (busy_nonneg · _) fun sessionId => ?_
    rw [Request.holds, hstage, List.count_cons]
    dsimp only
    change _ + (0 : Int) = _
    by_cases heq : session.sessionId = sessionId
    · rw [if_pos (by simpa using heq), if_pos heq]
      rfl
    · rw [if_neg (by simpa using heq), if_neg heq]
      rfl
  | claim hturn hstage hclaim => exact h.claim hturn hstage hclaim hcareful
  | release hturn hstage => exact h.release hturn hstage
  | respondKeys hturn hstage =>
    rename_i r requests claimed count
    refine h.turn hturn (fun _ hnext => by cases hnext) (pending_nonneg · _) (busy_nonneg · _) fun sessionId => ?_
    rw [Request.holds, hstage, List.count_append, List.count_replicate]
    dsimp only
    change _ + (0 : Int) = _
    by_cases heq : claimed = sessionId
    · rw [if_pos (by simpa using heq), if_pos heq]
      omega
    · rw [if_neg (by simpa using heq), if_neg heq]
      omega
  | refuse hturn hstage =>
    refine h.leave hturn fun sessionId => ?_
    obtain ⟨_, _, hstage | hstage⟩ | ⟨_, _, hstage | hstage⟩ := hstage
    · rw [Request.holds, hstage]
    · rw [Request.holds, hstage]
    · rw [Request.holds, hstage]
    · rw [Request.holds, hstage]
  | die hturn => exact h.leave hturn hcareful

end

/-! ## Every run -/

/-- The limits of an invite, and that keys are returned for open sessions only. -/
structure Limits (w : World) : Prop where
  open_sessions : ∀ inviteId, w.store.countOpenSessions inviteId ≤ maxOpenSessionsPerInvite
  returned_keys : ∀ sessionId, w.returned.count sessionId ≤ sessionKeyBudget
  rows : ∀ sessionId, (w.store.sessionKeys.count sessionId : Int) =
    w.returned.count sessionId + Table.total (Request.holds sessionId) w.requests
  responds : ∀ r ∈ w.requests, ∀ sessionId, r.Responds sessionId → HasOpen w.store.sessions r.inviteId sessionId

theorem Admitted.limits {w : World} (h : Admitted w) : Limits w := by
  refine ⟨h.limit, fun sessionId => ?_, h.rows, fun r hr sessionId hresponds => ?_⟩
  · have hrows := h.rows sessionId
    have hbudget := h.budget sessionId
    have hholds := Table.total_nonneg fun r (_ : r ∈ w.requests) => holds_nonneg sessionId r
    have hpending := Table.total_nonneg fun r (_ : r ∈ w.requests) => pending_nonneg sessionId r
    omega
  · refine h.openSession r hr sessionId ?_
    rw [Request.busy]
    obtain ⟨session, hstage, rfl⟩ | ⟨count, hstage⟩ := hresponds
    · rw [hstage]
      dsimp only
      rw [if_pos rfl]
      decide
    · rw [hstage]
      dsimp only
      rw [if_pos rfl]
      decide

end Zulangue.Community
