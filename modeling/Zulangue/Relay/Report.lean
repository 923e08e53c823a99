import Zulangue.Lib.Binary64
import Zulangue.Lib.Runs
import Zulangue.Lib.Tally

/-!
# The relay's daily totals

`report-stats.py` reads the relay's counters, posts what they grew by since the last reading and then
notes the reading; `record_relay_stats` of the invite service adds the report up in the row of its day.
-/

namespace Zulangue.Relay

open Zulangue.Lib

/-- `COUNTERS`, and `RELAY_STAT_FIELDS` of the service. -/
inductive Counter where
  | bytesSent
  | bytesRecv
  | connections
  | disconnects
  | packetsDropped
  | ratelimited
  deriving DecidableEq, Repr

def Counter.metric : Counter → String
  | .bytesSent => "relayserver_bytes_sent_total"
  | .bytesRecv => "relayserver_bytes_recv_total"
  | .connections => "relayserver_http_connections_total"
  | .disconnects => "relayserver_disconnects_total"
  | .packetsDropped => "relayserver_send_packets_dropped_total"
  | .ratelimited => "relayserver_conns_rx_ratelimited_total"

def counters : List Counter := [.bytesSent, .bytesRecv, .connections, .disconnects, .packetsDropped, .ratelimited]

def uniqueClientsMetric : String := "relayserver_unique_client_keys_total"

/-- The metrics by name. -/
abbrev Readings := String → Option Nat

/-- A line of the metrics page; the value is none where it is no number. -/
structure Sample where
  name : String
  value : Option Nat
  deriving DecidableEq, Repr

/-- `int(float(value))`. -/
def readNumber (value : Nat) : Nat := ⌊Binary64.ofNat value⌋₊

def wanted : List String := uniqueClientsMetric :: counters.map Counter.metric

/-- A line that is no number is passed over; of two lines of a metric the later one counts. -/
def readLine (found : Readings) (line : Sample) : Readings :=
  match line.value with
  | some value =>
    if line.name ∈ wanted then fun name => if name = line.name then some (readNumber value) else found name else found
  | none => found

def scrape (page : List Sample) : Readings := page.foldl readLine fun _ => none

def Readings.get (readings : Readings) (metric : String) : Nat := (readings metric).getD 0

/-- A smaller reading is a restarted relay. -/
def delta (before now : Nat) : Nat := if now < before then now else now - before

def deltasSince (previous current : Readings) (counter : Counter) : Nat :=
  delta (previous.get counter.metric) (current.get counter.metric)

/-! ## The service -/

/-- A row of `relay_daily`. -/
structure RelayDaily where
  totals : Counter → Nat
  uniqueClientsPeak : Nat

abbrev RelayTable := Tally.Map String RelayDaily

structure Payload where
  day : String
  deltas : Counter → Nat
  uniqueClients : Nat

/-- Adds to the row of the day. Counts are not negative here. -/
def recordRelayStats (table : RelayTable) (payload : Payload) : Option RelayTable :=
  if payload.day.length ≠ 10 then none
  else
    some (table.insert payload.day
      (match table.lookup payload.day with
      | some row =>
        { totals := fun counter => row.totals counter + payload.deltas counter
          uniqueClientsPeak := max row.uniqueClientsPeak payload.uniqueClients }
      | none => { totals := payload.deltas, uniqueClientsPeak := payload.uniqueClients }))

/-- The sum over all days. -/
def total (table : RelayTable) (counter : Counter) : Nat := Tally.total (fun _ row => row.totals counter) table

/-! ## Runs -/

/-- The file of the last reading. -/
inductive StateFile where
  | missing
  | corrupt
  | saved (readings : Readings)

/-- What a run takes for the last reading. -/
def StateFile.previous : StateFile → Readings
  | .saved readings => readings
  | _ => fun _ => none

def StateFile.Unreadable (file : StateFile) : Prop := ∀ readings, file ≠ .saved readings

/-- Where the run of the reporter is. -/
inductive Reporter where
  | idle
  | scraped (current : Readings)
  | posting (current : Readings) (payload : Payload)
  | recorded (current : Readings)

/-- `relay` counts since the relay started, `grown` over all its lives. -/
structure World where
  relay : Counter → Nat
  grown : Counter → Nat
  stateFile : StateFile
  table : RelayTable
  reporter : Reporter

def World.start : World := ⟨fun _ => 0, fun _ => 0, .missing, ∅, .idle⟩

/-- What a run that starts now takes for the last reading of a counter. -/
def World.reading (w : World) (counter : Counter) : Nat := w.stateFile.previous.get counter.metric

inductive Event where
  | grow (counter : Counter) (n : Nat)
  | restart
  | scrape (page : List Sample)
  | load (day : String)
  | commit
  | stop
  | write
  | torn
  | damage (file : StateFile)

/-- The page tells of a counter what it counts, if anything. -/
def PageOf (relay : Counter → Nat) (page : List Sample) : Prop :=
  ∀ line ∈ page, ∀ counter : Counter, line.name = counter.metric → line.value = some (relay counter)

def Lacks (page : List Sample) (counter : Counter) : Prop := ∀ line ∈ page, line.name ≠ counter.metric

def payloadOf (day : String) (previous current : Readings) : Payload :=
  { day, deltas := deltasSince previous current, uniqueClients := current.get uniqueClientsMetric }

/-- A run of the reporter can `stop` at any point: it crashes, the post fails, or the answer is lost. The write
can fail halfway, and the file can be found damaged. -/
inductive Step : World → Event → World → Prop
  | grow (w : World) (counter : Counter) (n : Nat) :
      Step w (.grow counter n)
        { w with
          relay := fun c => if c = counter then w.relay c + n else w.relay c
          grown := fun c => if c = counter then w.grown c + n else w.grown c }
  | restart (w : World) : Step w .restart { w with relay := fun _ => 0 }
  | scrape (w : World) (page : List Sample) : w.reporter = .idle → PageOf w.relay page →
      Step w (.scrape page) { w with reporter := .scraped (scrape page) }
  | load (w : World) (day : String) (current : Readings) : w.reporter = .scraped current →
      Step w (.load day) { w with reporter := .posting current (payloadOf day w.stateFile.previous current) }
  | commit (w : World) (current : Readings) (payload : Payload) (table : RelayTable) :
      w.reporter = .posting current payload → recordRelayStats w.table payload = some table →
        Step w .commit { w with table, reporter := .recorded current }
  | stop (w : World) : Step w .stop { w with reporter := .idle }
  | write (w : World) (current : Readings) : w.reporter = .recorded current →
      Step w .write { w with stateFile := .saved current, reporter := .idle }
  | torn (w : World) (current : Readings) : w.reporter = .recorded current →
      Step w .torn { w with stateFile := .corrupt, reporter := .idle }
  | damage (w : World) (file : StateFile) : file.Unreadable → Step w (.damage file) { w with stateFile := file }

end Zulangue.Relay
