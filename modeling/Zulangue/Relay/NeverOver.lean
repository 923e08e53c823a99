import Zulangue.Relay.Report

/-!
# Totals and growth

What a total and the next reports add is at most what the counter grew by, as long as every committed report
is followed by the note of its reading and that note is not lost.
-/

namespace Zulangue.Relay

open Zulangue.Lib

/-! ## One report -/

theorem readNumber_eq {n : Nat} (h : n < 9007199254740992) : readNumber n = n := by
  rw [readNumber, Binary64.ofNat_eq h, Nat.floor_natCast]

theorem metric_mem_wanted (counter : Counter) : counter.metric ∈ wanted := by
  cases counter <;> decide

theorem readLine_of_ne {found : Readings} {line : Sample} {metric : String} (h : line.name ≠ metric) :
    readLine found line metric = found metric := by
  unfold readLine
  cases line.value with
  | none => rfl
  | some value =>
    dsimp only
    split
    · exact if_neg (Ne.symm h)
    · rfl

theorem readLine_of_eq {found : Readings} {line : Sample} {counter : Counter} {value : Nat}
    (hname : line.name = counter.metric) (hvalue : line.value = some value) :
    readLine found line counter.metric = some (readNumber value) := by
  unfold readLine
  rw [hvalue]
  dsimp only
  rw [if_pos (hname ▸ metric_mem_wanted counter), if_pos hname.symm]

theorem foldl_readLine {relay : Counter → Nat} {page : List Sample} (h : PageOf relay page) (counter : Counter)
    (found : Readings) :
    page.foldl readLine found counter.metric = found counter.metric ∧ Lacks page counter ∨
      page.foldl readLine found counter.metric = some (readNumber (relay counter)) := by
  induction page generalizing found with
  | nil =>
    left
    refine ⟨rfl, ?_⟩
    intro line hline
    cases hline
  | cons line page ih =>
    rw [List.foldl_cons]
    rcases ih (fun other hother => h other (List.mem_cons_of_mem line hother)) (readLine found line) with
      ⟨hsame, hlacks⟩ | hfound
    · by_cases hname : line.name = counter.metric
      · right
        rw [hsame, readLine_of_eq hname (h line List.mem_cons_self counter hname)]
      · left
        rw [hsame, readLine_of_ne hname]
        refine ⟨rfl, ?_⟩
        intro other hother
        rcases List.mem_cons.mp hother with rfl | hother
        · exact hname
        · exact hlacks other hother
    · exact .inr hfound

/-- A page tells a counter, or it lacks it. -/
theorem scrape_page {relay : Counter → Nat} {page : List Sample} (h : PageOf relay page) (counter : Counter) :
    scrape page counter.metric = none ∧ Lacks page counter ∨
      scrape page counter.metric = some (readNumber (relay counter)) :=
  foldl_readLine h counter fun _ => none

/-- A report adds its deltas. -/
theorem total_record {table table' : RelayTable} {payload : Payload} (h : recordRelayStats table payload = some table')
    (counter : Counter) : total table' counter = total table counter + payload.deltas counter := by
  unfold recordRelayStats at h
  split at h
  · cases h
  · obtain rfl := Option.some.inj h
    unfold total
    rw [Tally.total_insert, Tally.total_split _ payload.day table]
    unfold Tally.part
    cases table.lookup payload.day with
    | none => simp [Nat.add_comm]
    | some row => simp [Nat.add_right_comm]

@[simp]
theorem delta_self (n : Nat) : delta n n = 0 := by simp [delta]

@[simp]
theorem delta_zero_left (n : Nat) : delta 0 n = n := by simp [delta]

@[simp]
theorem delta_zero_right (n : Nat) : delta n 0 = 0 := by
  unfold delta
  split <;> omega

theorem delta_add_le (before now n : Nat) : delta before (now + n) ≤ delta before now + n := by
  unfold delta
  split <;> split <;> omega

/-! ## Runs that do not count twice -/

/-- No run ends between the commit of its report and the note of its reading; a run loads a missing or corrupt
file only while nothing is recorded; a page lacks only counters that were not read before; and the counters on
a page are doubles. -/
def Sound (w : World) : Event → Prop
  | .scrape page => ∀ counter, w.relay counter < 9007199254740992 ∧ (Lacks page counter → w.reading counter = 0)
  | .load _ => w.stateFile.Unreadable → ∀ counter, total w.table counter = 0
  | .stop => ∀ current, w.reporter ≠ .recorded current
  | _ => True

def SoundStep (w : World) (e : Event) (w' : World) : Prop := Step w e w' ∧ Sound w e

/-- The next report adds no more than the counter grew by since the last one. -/
def Owes (w : World) (counter : Counter) : Prop :=
  ∀ readings, w.stateFile = .saved readings →
    total w.table counter + delta (readings.get counter.metric) (w.relay counter) ≤ w.grown counter

/-- What holds of a run of the reporter. -/
def InRun (w : World) (counter : Counter) : Reporter → Prop
  | .idle => Owes w counter
  | .scraped current =>
    Owes w counter ∧ (current counter.metric = none → w.reading counter = 0) ∧
      ∀ value, current counter.metric = some value →
        value + delta value (w.relay counter) ≤ w.grown counter ∧
        ∀ readings, w.stateFile = .saved readings →
          total w.table counter + delta (readings.get counter.metric) value + delta value (w.relay counter) ≤
            w.grown counter
  | .posting current payload =>
    Owes w counter ∧
      total w.table counter + payload.deltas counter + delta (current.get counter.metric) (w.relay counter) ≤
        w.grown counter
  | .recorded current =>
    total w.table counter + delta (current.get counter.metric) (w.relay counter) ≤ w.grown counter

structure Covered (w : World) (counter : Counter) : Prop where
  lives : w.relay counter ≤ w.grown counter
  covered : total w.table counter ≤ w.grown counter
  run : InRun w counter w.reporter

theorem covered_start (counter : Counter) : Covered .start counter := by
  refine ⟨Nat.le_refl _, Nat.le_refl _, ?_⟩
  intro readings hsaved
  cases hsaved

variable {w w' : World} {e : Event} {counter : Counter}

/-- Where the counter is owed no more than its growth, the run stays covered. -/
theorem Covered.relive (h : Covered w counter) {relay grown : Counter → Nat} (hlives : relay counter ≤ grown counter)
    (hgrown : w.grown counter ≤ grown counter)
    (howed : ∀ before, delta before (relay counter) + w.grown counter ≤ delta before (w.relay counter) + grown counter) :
    Covered { w with relay, grown } counter := by
  obtain ⟨-, hcovered, hrun⟩ := h
  refine ⟨hlives, Nat.le_trans hcovered hgrown, ?_⟩
  cases hreporter : w.reporter with
  | idle =>
    rw [hreporter] at hrun
    simp only [InRun, Owes] at hrun ⊢
    intro readings hsaved
    have := hrun readings hsaved
    have := howed (readings.get counter.metric)
    omega
  | scraped current =>
    rw [hreporter] at hrun
    simp only [InRun, Owes, World.reading] at hrun ⊢
    obtain ⟨howes, hlacks, hread⟩ := hrun
    refine ⟨fun readings hsaved => ?_, hlacks, fun value hvalue => ?_⟩
    · have := howes readings hsaved
      have := howed (readings.get counter.metric)
      omega
    · obtain ⟨hfirst, hnext⟩ := hread value hvalue
      have howedValue := howed value
      refine ⟨by omega, fun readings hsaved => ?_⟩
      have := hnext readings hsaved
      omega
  | posting current payload =>
    rw [hreporter] at hrun
    simp only [InRun, Owes] at hrun ⊢
    obtain ⟨howes, hpost⟩ := hrun
    refine ⟨fun readings hsaved => ?_, ?_⟩
    · have := howes readings hsaved
      have := howed (readings.get counter.metric)
      omega
    · have := howed (current.get counter.metric)
      omega
  | recorded current =>
    rw [hreporter] at hrun
    simp only [InRun] at hrun ⊢
    have := howed (current.get counter.metric)
    omega

theorem Covered.grow (h : Covered w counter) (grown : Counter) (n : Nat) :
    Covered
      { w with
        relay := fun c => if c = grown then w.relay c + n else w.relay c
        grown := fun c => if c = grown then w.grown c + n else w.grown c } counter := by
  have hlives := h.lives
  apply h.relive
  · split <;> omega
  · split <;> omega
  · intro before
    have := delta_add_le before (w.relay counter) n
    split <;> omega

theorem Covered.restart (h : Covered w counter) : Covered { w with relay := fun _ => 0 } counter := by
  apply h.relive
  · exact Nat.zero_le _
  · exact Nat.le_refl _
  · intro before
    rw [delta_zero_right]
    omega

/-- Reading the page owes nothing new. -/
theorem Covered.scrape (h : Covered w counter) {page : List Sample} (hidle : w.reporter = .idle)
    (hpage : PageOf w.relay page) (hdouble : w.relay counter < 9007199254740992)
    (hlacks : Lacks page counter → w.reading counter = 0) :
    Covered { w with reporter := .scraped (Relay.scrape page) } counter := by
  obtain ⟨hlives, hcovered, hrun⟩ := h
  rw [hidle] at hrun
  refine ⟨hlives, hcovered, hrun, fun hnone => ?_, fun value hvalue => ?_⟩
  · rcases scrape_page hpage counter with ⟨-, hlacking⟩ | hread
    · exact hlacks hlacking
    · rw [hread] at hnone
      cases hnone
  · rcases scrape_page hpage counter with ⟨hnone, -⟩ | hread
    · rw [hnone] at hvalue
      cases hvalue
    · obtain rfl := Option.some.inj (hread.symm.trans hvalue)
      rw [readNumber_eq hdouble, delta_self]
      refine ⟨hlives, fun readings hsaved => hrun readings hsaved⟩

theorem Covered.load (h : Covered w counter) {current : Readings} (hscraped : w.reporter = .scraped current)
    (day : String) (hfirst : w.stateFile.Unreadable → total w.table counter = 0) :
    Covered { w with reporter := .posting current (payloadOf day w.stateFile.previous current) } counter := by
  obtain ⟨hlives, hcovered, hrun⟩ := h
  rw [hscraped] at hrun
  obtain ⟨howes, hlacks, hread⟩ := hrun
  refine ⟨hlives, hcovered, howes, ?_⟩
  show total w.table counter + delta (w.reading counter) (current.get counter.metric) +
    delta (current.get counter.metric) (w.relay counter) ≤ w.grown counter
  cases hcurrent : current counter.metric with
  | none =>
    have hget : current.get counter.metric = 0 := by simp [Readings.get, hcurrent]
    have hreading := hlacks hcurrent
    rw [hget, hreading, delta_self, delta_zero_left]
    cases hfile : w.stateFile with
    | saved readings =>
      have hlast := howes readings hfile
      have hzero : readings.get counter.metric = 0 := by
        rw [World.reading, hfile] at hreading
        exact hreading
      rw [hzero, delta_zero_left] at hlast
      omega
    | missing | corrupt =>
      have := hfirst (by simp [StateFile.Unreadable, hfile])
      omega
  | some value =>
    have hget : current.get counter.metric = value := by simp [Readings.get, hcurrent]
    obtain ⟨hplain, hnext⟩ := hread value hcurrent
    rw [hget]
    cases hfile : w.stateFile with
    | saved readings =>
      have hsaved := hnext readings hfile
      rw [World.reading, hfile]
      exact hsaved
    | missing | corrupt =>
      have := hfirst (by simp [StateFile.Unreadable, hfile])
      have hzero : w.reading counter = 0 := by simp [World.reading, hfile, StateFile.previous, Readings.get]
      rw [hzero, delta_zero_left]
      omega

theorem Covered.commit (h : Covered w counter) {current : Readings} {payload : Payload} {table : RelayTable}
    (hposting : w.reporter = .posting current payload) (hrecord : recordRelayStats w.table payload = some table) :
    Covered { w with table, reporter := .recorded current } counter := by
  obtain ⟨hlives, hcovered, hrun⟩ := h
  rw [hposting] at hrun
  obtain ⟨-, hpost⟩ := hrun
  have htotal := total_record hrecord counter
  refine ⟨hlives, ?_, ?_⟩
  · show total table counter ≤ w.grown counter
    omega
  · show total table counter + delta (current.get counter.metric) (w.relay counter) ≤ w.grown counter
    omega

/-- A run that ends before its commit leaves what was owed. -/
theorem Covered.stop (h : Covered w counter) (hbefore : ∀ current, w.reporter ≠ .recorded current) :
    Covered { w with reporter := .idle } counter := by
  obtain ⟨hlives, hcovered, hrun⟩ := h
  refine ⟨hlives, hcovered, ?_⟩
  cases hreporter : w.reporter with
  | idle =>
    rw [hreporter] at hrun
    exact hrun
  | scraped current =>
    rw [hreporter] at hrun
    exact hrun.1
  | posting current payload =>
    rw [hreporter] at hrun
    exact hrun.1
  | recorded current => exact absurd hreporter (hbefore current)

theorem Covered.write (h : Covered w counter) {current : Readings} (hrecorded : w.reporter = .recorded current) :
    Covered { w with stateFile := .saved current, reporter := .idle } counter := by
  obtain ⟨hlives, hcovered, hrun⟩ := h
  rw [hrecorded] at hrun
  refine ⟨hlives, hcovered, ?_⟩
  intro readings hsaved
  obtain rfl := StateFile.saved.inj hsaved
  exact hrun

/-- A file that cannot be read says nothing of what was read. -/
theorem Covered.unreadable (h : Covered w counter) {file : StateFile} (hfile : file.Unreadable) :
    Covered { w with stateFile := file } counter := by
  obtain ⟨hlives, hcovered, hrun⟩ := h
  have howes : ∀ readings, file = .saved readings →
      total w.table counter + delta (readings.get counter.metric) (w.relay counter) ≤ w.grown counter :=
    fun readings hsaved => absurd hsaved (hfile readings)
  refine ⟨hlives, hcovered, ?_⟩
  cases hreporter : w.reporter with
  | idle =>
    exact howes
  | scraped current =>
    rw [hreporter] at hrun
    obtain ⟨-, hlacks, hread⟩ := hrun
    refine ⟨howes, fun _ => ?_, fun value hvalue => ⟨(hread value hvalue).1, fun readings hsaved => ?_⟩⟩
    · cases file with
      | saved readings => exact absurd rfl (hfile readings)
      | missing => rfl
      | corrupt => rfl
    · exact absurd hsaved (hfile readings)
  | posting current payload =>
    rw [hreporter] at hrun
    exact ⟨howes, hrun.2⟩
  | recorded current =>
    rw [hreporter] at hrun
    exact hrun

theorem Covered.torn (h : Covered w counter) : Covered { w with stateFile := .corrupt, reporter := .idle } counter := by
  refine ⟨h.lives, h.covered, ?_⟩
  intro readings hsaved
  cases hsaved

theorem Covered.step (h : Covered w counter) (hstep : SoundStep w e w') : Covered w' counter := by
  obtain ⟨hstep, hsound⟩ := hstep
  cases hstep with
  | grow grown n => exact h.grow grown n
  | restart => exact h.restart
  | scrape page hidle hpage =>
    obtain ⟨hdouble, hlacks⟩ := hsound counter
    exact h.scrape hidle hpage hdouble hlacks
  | load day current hscraped => exact h.load hscraped day fun hfile => hsound hfile counter
  | commit current payload table hposting hrecord => exact h.commit hposting hrecord
  | stop => exact h.stop hsound
  | write current hrecorded => exact h.write hrecorded
  | torn current hrecorded => exact h.torn
  | damage file hfile => exact h.unreadable hfile

/-! ## Runs in which nothing fails -/

/-- No restart, no failure, and every counter on every page. -/
def Quiet (w : World) : Event → Prop
  | .grow _ _ => True
  | .scrape page => ∀ counter, w.relay counter < 9007199254740992 ∧ ¬ Lacks page counter
  | .load _ => True
  | .commit => True
  | .write => True
  | _ => False

def QuietStep (w : World) (e : Event) (w' : World) : Prop := Step w e w' ∧ Quiet w e

/-- The page that the run of the reporter has read. -/
def Reporter.current? : Reporter → Option Readings
  | .idle => none
  | .scraped current => some current
  | .posting current _ => some current
  | .recorded current => some current

/-- What is recorded is what was read. -/
def LevelRun (w : World) (counter : Counter) : Reporter → Prop
  | .idle => total w.table counter = w.reading counter
  | .scraped current => total w.table counter = w.reading counter ∧ w.reading counter ≤ current.get counter.metric
  | .posting current payload => total w.table counter + payload.deltas counter = current.get counter.metric
  | .recorded current => total w.table counter = current.get counter.metric

structure Level (w : World) (counter : Counter) : Prop where
  lives : w.relay counter = w.grown counter
  behind : w.reading counter ≤ w.relay counter
  reached : ∀ current, w.reporter.current? = some current → current.get counter.metric ≤ w.relay counter
  run : LevelRun w counter w.reporter

theorem level_start (counter : Counter) : Level .start counter := by
  refine ⟨rfl, Nat.le_refl _, ?_, rfl⟩
  intro current hcurrent
  cases hcurrent

theorem delta_of_le {before now : Nat} (h : before ≤ now) : delta before now = now - before := by
  rw [delta, if_neg (by omega)]

/-- What was read at the page. -/
theorem get_scrape {page : List Sample} (hpage : PageOf w.relay page) (hdouble : w.relay counter < 9007199254740992)
    (htold : ¬ Lacks page counter) : (scrape page).get counter.metric = w.relay counter := by
  rcases scrape_page hpage counter with ⟨-, hlacks⟩ | hread
  · exact absurd hlacks htold
  · rw [Readings.get, hread, Option.getD_some, readNumber_eq hdouble]

theorem Level.grow (h : Level w counter) (grown : Counter) (n : Nat) :
    Level
      { w with
        relay := fun c => if c = grown then w.relay c + n else w.relay c
        grown := fun c => if c = grown then w.grown c + n else w.grown c } counter := by
  obtain ⟨hlives, hbehind, hreached, hrun⟩ := h
  have hup : w.relay counter ≤ if counter = grown then w.relay counter + n else w.relay counter := by
    split <;> omega
  refine ⟨?_, Nat.le_trans hbehind hup, fun current hcurrent => Nat.le_trans (hreached current hcurrent) hup, ?_⟩
  · dsimp only
    rw [hlives]
  · cases hreporter : w.reporter <;> rw [hreporter] at hrun <;> exact hrun

theorem Level.step (h : Level w counter) (hstep : QuietStep w e w') : Level w' counter := by
  obtain ⟨hstep, hquiet⟩ := hstep
  cases hstep with
  | grow grown n => exact h.grow grown n
  | scrape page hidle hpage =>
    obtain ⟨hlives, hbehind, -, hrun⟩ := h
    rw [hidle] at hrun
    have hget := get_scrape hpage (hquiet counter).1 (hquiet counter).2
    refine ⟨hlives, hbehind, fun current hcurrent => ?_, hrun, ?_⟩
    · obtain rfl := Option.some.inj hcurrent
      exact Nat.le_of_eq hget
    · rw [hget]
      exact hbehind
  | load day current hscraped =>
    obtain ⟨hlives, hbehind, hreached, hrun⟩ := h
    rw [hscraped] at hreached hrun
    obtain ⟨hlevel, hle⟩ := hrun
    refine ⟨hlives, hbehind, hreached, ?_⟩
    show total w.table counter + delta (w.reading counter) (current.get counter.metric) = current.get counter.metric
    rw [delta_of_le hle]
    omega
  | commit current payload table hposting hrecord =>
    obtain ⟨hlives, hbehind, hreached, hrun⟩ := h
    rw [hposting] at hreached hrun
    refine ⟨hlives, hbehind, hreached, ?_⟩
    show total table counter = current.get counter.metric
    rw [total_record hrecord]
    exact hrun
  | write current hrecorded =>
    obtain ⟨hlives, -, hreached, hrun⟩ := h
    rw [hrecorded] at hreached hrun
    refine ⟨hlives, hreached current rfl, fun other hother => ?_, hrun⟩
    cases hother
  | restart => cases hquiet
  | stop => cases hquiet
  | torn current hrecorded => cases hquiet
  | damage file hfile => cases hquiet

/-- The run read the value `value`, and when it has ended that is the total. -/
structure Read (counter : Counter) (value : Nat) (w : World) : Prop where
  level : Level w counter
  current : ∀ current, w.reporter.current? = some current → current.get counter.metric = value
  ended : w.reporter = .idle → total w.table counter = value

theorem Read.step {value : Nat} (h : Read counter value w) (hstep : QuietStep w e w')
    (hscrape : ∀ page, e ≠ .scrape page) : Read counter value w' := by
  have hlevel := h.level.step hstep
  obtain ⟨hstep, hquiet⟩ := hstep
  obtain ⟨hbefore, hcurrent, hended⟩ := h
  cases hstep with
  | grow grown n => exact ⟨hlevel, hcurrent, hended⟩
  | scrape page => exact absurd rfl (hscrape page)
  | load day current hscraped =>
    rw [hscraped] at hcurrent
    refine ⟨hlevel, hcurrent, fun hidle => ?_⟩
    cases hidle
  | commit current payload table hposting hrecord =>
    rw [hposting] at hcurrent
    refine ⟨hlevel, hcurrent, fun hidle => ?_⟩
    cases hidle
  | write current hrecorded =>
    refine ⟨hlevel, fun other hother => ?_, fun _ => ?_⟩
    · cases hother
    · have hrun := hbefore.run
      rw [hrecorded] at hrun hcurrent
      exact hrun.trans (hcurrent current rfl)
  | restart => cases hquiet
  | stop => cases hquiet
  | torn current hrecorded => cases hquiet
  | damage file hfile => cases hquiet

theorem read_run {value : Nat} {es : List Event} (hrun : Run QuietStep w es w') (h : Read counter value w)
    (hscrape : ∀ page, .scrape page ∉ es) : Read counter value w' := by
  induction hrun with
  | nil w => exact h
  | cons hstep _ ih =>
    apply ih
    · apply h.step hstep
      rintro page rfl
      exact hscrape page List.mem_cons_self
    · intro page hmem
      exact hscrape page (List.mem_cons_of_mem _ hmem)

/-! ## Full pages -/

theorem metric_injective {a b : Counter} (h : a.metric = b.metric) : a = b := by
  cases a <;> cases b <;> first | rfl | exact absurd h (by decide)

/-- A page with all counters. -/
def fullPage (relay : Counter → Nat) : List Sample := counters.map fun counter => ⟨counter.metric, some (relay counter)⟩

theorem fullPage_pageOf (relay : Counter → Nat) : PageOf relay (fullPage relay) := by
  intro line hline counter hname
  obtain ⟨other, -, rfl⟩ := List.mem_map.mp hline
  rw [metric_injective hname]

theorem fullPage_lacks (relay : Counter → Nat) (counter : Counter) : ¬ Lacks (fullPage relay) counter := by
  intro hlacks
  apply hlacks ⟨counter.metric, some (relay counter)⟩ _ rfl
  exact List.mem_map.mpr ⟨counter, by cases counter <;> decide, rfl⟩

theorem exists_record (table : RelayTable) (payload : Payload) (h : payload.day.length = 10) :
    ∃ table', recordRelayStats table payload = some table' := by
  unfold recordRelayStats
  rw [if_neg (not_not.mpr h)]
  exact ⟨_, rfl⟩

/-! ## A report of ten bytes -/

def tenBytes : Counter → Nat := fun counter => if counter = .bytesSent then 10 else 0

def tenPage : List Sample := fullPage tenBytes

def tenPayload : Payload := payloadOf "2026-01-01" (fun _ => none) (scrape tenPage)

def tenAt (table : RelayTable) (reporter : Reporter) : World := ⟨tenBytes, tenBytes, .missing, table, reporter⟩

section
variable {table table' : RelayTable}

theorem ten_grow : Step .start (.grow .bytesSent 10) (tenAt ∅ .idle) := by
  have hstep := Step.grow .start .bytesSent 10
  exact hstep

theorem ten_scrape : Step (tenAt table .idle) (.scrape tenPage) (tenAt table (.scraped (scrape tenPage))) :=
  .scrape _ tenPage rfl (fullPage_pageOf tenBytes)

theorem ten_load : Step (tenAt table (.scraped (scrape tenPage))) (.load "2026-01-01")
    (tenAt table (.posting (scrape tenPage) tenPayload)) := .load _ "2026-01-01" _ rfl

theorem ten_commit (h : recordRelayStats table tenPayload = some table') :
    Step (tenAt table (.posting (scrape tenPage) tenPayload)) .commit (tenAt table' (.recorded (scrape tenPage))) :=
  .commit _ _ _ table' rfl h

theorem ten_stop : Step (tenAt table (.recorded (scrape tenPage))) .stop (tenAt table .idle) := .stop _

theorem ten_write : Step (tenAt table (.recorded (scrape tenPage))) .write
    { tenAt table .idle with stateFile := .saved (scrape tenPage) } := .write _ _ rfl

theorem tenBytes_lt (counter : Counter) : tenBytes counter < 9007199254740992 := by
  cases counter <;> decide

theorem ten_deltas : tenPayload.deltas .bytesSent = 10 := by
  have hdouble : (tenAt ∅ .idle).relay .bytesSent < 9007199254740992 := tenBytes_lt .bytesSent
  have hget := get_scrape (fullPage_pageOf tenBytes) hdouble (fullPage_lacks tenBytes .bytesSent)
  show delta 0 ((scrape tenPage).get Counter.bytesSent.metric) = 10
  rw [delta_zero_left]
  exact hget

end

/-! ## The totals -/

/-- Every state of a sound run has totals within the growth; and when nothing has failed, the totals after a run
of the reporter are the growth up to the page it read. -/
theorem totals_never_overcount {events : List Event} {v : World} (hrun : Run SoundStep .start events v) :
    (∀ counter, total v.table counter ≤ v.grown counter) ∧
    ∀ before page during w w' w'', Run QuietStep .start before w → QuietStep w (.scrape page) w' →
      Run QuietStep w' during w'' → (∀ page', .scrape page' ∉ during) → w''.reporter = .idle →
        ∀ counter, total w''.table counter = w.grown counter := by
  refine ⟨fun counter => ?_, fun before page during w w' w'' hbefore hscrape hduring hone hidle counter => ?_⟩
  · have hcovered : Covered v counter := by
      apply hrun.invariant (I := fun w => Covered w counter) _ (covered_start counter)
      intro w e w' h hstep
      exact h.step hstep
    exact hcovered.covered
  · have hlevel : Level w counter := by
      apply hbefore.invariant (I := fun w => Level w counter) _ (level_start counter)
      intro w e w' h hstep
      exact h.step hstep
    have hread : Read counter (w.grown counter) w' := by
      refine ⟨hlevel.step hscrape, ?_, ?_⟩
      all_goals
        obtain ⟨hstep, hquiet⟩ := hscrape
        cases hstep with
        | scrape _ hidle hpage => _
      · intro current hcurrent
        obtain rfl := Option.some.inj hcurrent
        rw [get_scrape hpage (hquiet counter).1 (hquiet counter).2, hlevel.lives]
      · intro hended
        cases hended
    exact (read_run hduring hread hone).ended hidle

/-- Ten bytes are reported and noted. -/
theorem totals_never_overcount_ten :
    ∃ events w, Run SoundStep .start events w ∧ (∀ counter, total w.table counter ≤ w.grown counter) ∧
      total w.table .bytesSent = 10 := by
  obtain ⟨table, htable⟩ := exists_record ∅ tenPayload (by decide)
  have hrun : Run SoundStep .start [.grow .bytesSent 10, .scrape tenPage, .load "2026-01-01", .commit, .write]
      { tenAt table .idle with stateFile := .saved (scrape tenPage) } :=
    .cons ⟨ten_grow, trivial⟩ (.cons ⟨ten_scrape, fun counter => ⟨tenBytes_lt counter, fun _ => rfl⟩⟩
      (.cons ⟨ten_load, fun _ _ => rfl⟩ (.cons ⟨ten_commit htable, trivial⟩ (.single ⟨ten_write, trivial⟩))))
  refine ⟨_, _, hrun, (totals_never_overcount hrun).1, ?_⟩
  exact (totals_never_overcount hrun).2 _ _ _ _ _ _ (.single ⟨ten_grow, trivial⟩)
    ⟨ten_scrape, fun counter => ⟨tenBytes_lt counter, fullPage_lacks tenBytes counter⟩⟩
    (.cons ⟨ten_load, trivial⟩ (.cons ⟨ten_commit htable, trivial⟩ (.single ⟨ten_write, trivial⟩))) (by simp) rfl .bytesSent

/-- The answer to a committed report is lost: the next run reports the ten bytes again. -/
theorem lost_answer_counts_twice :
    ∃ events w, Run Step .start events w ∧ w.grown .bytesSent = 10 ∧ total w.table .bytesSent = 20 := by
  obtain ⟨table, htable⟩ := exists_record ∅ tenPayload (by decide)
  obtain ⟨table', htable'⟩ := exists_record table tenPayload (by decide)
  have hrun : Run Step .start [.grow .bytesSent 10, .scrape tenPage, .load "2026-01-01", .commit, .stop,
      .scrape tenPage, .load "2026-01-01", .commit] (tenAt table' (.recorded (scrape tenPage))) :=
    .cons ten_grow (.cons ten_scrape (.cons ten_load (.cons (ten_commit htable) (.cons ten_stop (.cons ten_scrape
      (.cons ten_load (.single (ten_commit htable'))))))))
  refine ⟨_, _, hrun, rfl, ?_⟩
  show total table' .bytesSent = 20
  rw [total_record htable', total_record htable, ten_deltas]
  rfl

end Zulangue.Relay
