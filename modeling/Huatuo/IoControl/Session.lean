import Huatuo.IoControl.Wait
import Huatuo.Lib.Journal
import Huatuo.Lib.Runs

/-!
# IO collection sessions

`Update` of `blk_throtl_collector.go` and `iocost_collector.go` with `captureIOControlRetired`,
`captureIOControlWaitSnapshot` and `reclaimIOControlRetired` of `iocontrol.go`, next to the programs
of `blk_throtl_tracing.c` and `iocost_tracing.c` that write the maps. The two collectors differ in
what a failure does to the session and in the first check of the status.

The programs create the row of a key, add to one word of a row, and publish a marker when an
identity is freed, each in one step. A program that finds no row adds nothing. `Update` holds the
lock of the collector, so there is one at a time, and its steps are those that touch a map: the
return of one marker, the read of one word, one deletion. A dump returns rows in any order, and so
does a range over a map. What is between the last read of a snapshot and the first deletion is local
to the session and one step. Any map operation may fail, and the session may be cancelled at any
time.

For a failed read of the status in `collectionFailure` the cause may be any. The texts of unhealthy
sessions and the errors of `reclaimIOControlRetired`, which are only logged, are left out. The reads
of a snapshot that is retried are dropped.

`log` has the settlements in their order, and a read is remembered by its place in the log:
`lastRead` is that of the last read of a word by an `Update` that succeeded, `base` that of the
baseline. A row that the baseline has not returned was not there when its dump began. `reports` are
the intervals since the baseline, and `published` the markers so far.
-/

namespace Huatuo.IoControl

open Function (update)
open Words (Bytes)

inductive Collector where
  | blkThrotl
  | iocost
  deriving DecidableEq, Repr

def Collector.aggregateMap : Collector → String
  | .blkThrotl => "blk_throtl_wait_agg_map"
  | .iocost => "iocost_wait_agg_map"

def Collector.retiredMap : Collector → String
  | .blkThrotl => "blk_throtl_retired_map"
  | .iocost => "iocost_retired_map"

/-- The error of an `Update`. -/
inductive Cause where
  /-- `errIOControlDevicesChanged` -/
  | devicesChanged
  /-- `ErrTracingStopped` -/
  | tracingStopped (text : String)
  | other (text : String)
  deriving DecidableEq, Repr

def Cause.isTerminal : Cause → Bool
  | .devicesChanged => true
  | .tracingStopped _ => true
  | .other _ => false

/-! ## State -/

structure Settlement (cpus : Nat) where
  key : WaitKey
  cpu : Fin cpus
  waitNS : UInt64
  deriving DecidableEq, Repr

/-- A snapshot of the counters in progress. -/
structure Reading (cpus : Nat) where
  retired : List RetiredKey
  attempt : Nat
  /-- the rows at the beginning of the dump -/
  present : List WaitKey
  /-- the place in the log at the beginning of the dump -/
  started : Nat
  words : WaitKey → Fin cpus → Option UInt64 := fun _ _ => none
  readAt : WaitKey → Fin cpus → Nat := fun _ _ => 0

inductive Phase (cpus : Nat) where
  | idle
  | retiring (retired : List RetiredKey)
  | reading (reading : Reading cpus)
  | reclaiming (identity : RetiredKey) (rest : List RetiredKey) (operation : Nat)
      (hasRemaining : Bool)

structure Status where
  failure : UInt64 := 0
  devicesChanged : UInt64 := 0
  deriving DecidableEq, Repr

structure State (cpus : Nat) where
  rows : AList fun _ : WaitKey => Fin cpus → UInt64 := ∅
  markers : AList fun _ : RetiredKey => UInt8 := ∅
  status : Status := {}
  previous : Option WaitSnapshot := some ∅
  cancelled : Bool := false
  phase : Phase cpus := .idle
  log : List (Settlement cpus) := []
  published : List RetiredKey := []
  base : WaitKey → Fin cpus → Nat := fun _ _ => 0
  lastRead : WaitKey → Fin cpus → Nat := fun _ _ => 0
  reports : List Report := []

variable {cpus : Nat}

/-- The waits that were added to a word between two places in the log. -/
def landed (log : List (Settlement cpus)) (start stop : Nat) (key : WaitKey) (cpu : Fin cpus) :
    List UInt64 :=
  ((Journal.between log start stop).filter fun settlement =>
    settlement.key = key ∧ settlement.cpu = cpu).map Settlement.waitNS

/-! ## Map operations -/

inductive Errno where
  | enoent
  | other
  deriving DecidableEq, Repr

def deleteMapItem {κ β : Type*} [DecidableEq κ] (items : AList fun _ : κ => β) (key : κ)
    (fault : Bool) : (AList fun _ : κ => β) × Option Errno :=
  if fault then (items, some .other)
  else if key ∈ items then (items.erase key, none)
  else (items, some .enoent)

/-- The items of a dump that returns the rows of these keys. -/
def Reading.items (reading : Reading cpus) (order : List WaitKey) : List (WaitKey × Bytes) :=
  order.map fun key => (key, rowBytes fun cpu => (reading.words key cpu).getD 0)

/-! ## Update -/

variable (collector : Collector)

def collectionFailure (s : State cpus) (cause : Cause) : State cpus :=
  match collector with
  | .blkThrotl =>
    if cause.isTerminal then { s with phase := .idle, cancelled := true }
    else { s with phase := .idle, previous := none }
  | .iocost =>
    { s with
      phase := .idle
      previous := none
      cancelled := s.cancelled || cause.isTerminal }

/-- A `checkBreaker` that fails before the commit. -/
def sessionEnded (s : State cpus) : State cpus :=
  match collector with
  | .blkThrotl => { s with phase := .idle }
  | .iocost => collectionFailure .iocost s (.other "iocost BPF session ended")

/-- `blkThrotlFailure` and `ioCostFailure` -/
def Status.isUnhealthy (status : Status) : Bool := status.failure >>> 32 ≠ 0

def beginUpdate (s : State cpus) : State cpus :=
  if s.cancelled then s
  else if s.status.devicesChanged ≠ 0 then collectionFailure collector s .devicesChanged
  else if collector = .iocost ∧ s.status.isUnhealthy then
    collectionFailure collector s (.tracingStopped "BPF session is unhealthy")
  else { s with phase := .retiring [] }

variable (s : State cpus)

def beginReading (retired : List RetiredKey) (attempt : Nat) : State cpus :=
  { s with
    phase := .reading { retired, attempt, present := s.rows.keys, started := s.log.length } }

/-- The end of `captureIOControlRetired`, and the beginning of the first snapshot. -/
def captureRetired (s : State cpus) (retired : List RetiredKey) : State cpus :=
  match retired.find? fun key => key.css = 0 ∨ key.cssSerial = 0 with
  | some key =>
    collectionFailure collector s
      (.tracingStopped s!"invalid {collector.retiredMap} identity: {key.text}")
  | none => beginReading s retired 1

def snapshotAttempts : Nat := 3

/-- What an `Update` gets from elsewhere after its snapshot. -/
structure Environment where
  containers : UInt64 → Option Container := fun _ => none
  disks : Except String (UInt32 × UInt32 → String)
  /-- `MapIDByName` finds both maps of `reclaimIOControlRetired`. -/
  mapsAvailable : Bool := true

/-- The metrics of an `Update`; a baseline has none. -/
def buildReport (current : WaitSnapshot) (retired : List RetiredKey) (environment : Environment) :
    Except String (Option Report) :=
  let changed := s.status.devicesChanged ≠ 0
  if s.previous.isNone ∧ ¬changed then .ok none
  else
    let previous := if changed then current else s.previous.getD ∅
    let containers :=
      if needsContainerLabels current retired then environment.containers else fun _ => none
    match environment.disks with
    | .error text => .error text
    | .ok disks => (buildWaitMetrics previous current containers disks retired).map some

def Phase.reclaim : List RetiredKey → Phase cpus
  | [] => .idle
  | identity :: rest => .reclaiming identity rest 0 false

/-- The new baseline. -/
def commit (reading : Reading cpus) (current : WaitSnapshot) (report : Option Report)
    (mapsAvailable : Bool) : State cpus :=
  let place (absent : WaitKey → Fin cpus → Nat) (key : WaitKey) (cpu : Fin cpus) :=
    if key ∈ current then reading.readAt key cpu else absent key cpu
  let s := { s with
    previous := some current
    phase := if mapsAvailable then .reclaim reading.retired else .idle }
  match report with
  | none =>
    { s with
      base := place fun _ _ => reading.started
      lastRead := place fun _ _ => reading.started
      reports := [] }
  | some report => { s with lastRead := place s.lastRead, reports := s.reports ++ [report] }

/-- `Update` after its snapshot. -/
def collect (s : State cpus) (reading : Reading cpus) (current : WaitSnapshot)
    (environment : Environment) : State cpus :=
  let changed := s.status.devicesChanged ≠ 0
  if ¬changed ∧ s.status.isUnhealthy then
    collectionFailure collector s (.tracingStopped "BPF session is unhealthy")
  else
    match buildReport s current reading.retired environment with
    | .error text => collectionFailure collector s (.other text)
    | .ok report =>
      if changed then
        collectionFailure collector { s with reports := s.reports ++ report.toList } .devicesChanged
      else if s.cancelled then sessionEnded collector s
      else commit s reading current report environment.mapsAvailable

/-- The end of a dump of the counters. -/
def captureWaitSnapshot (s : State cpus) (reading : Reading cpus) (order : List WaitKey)
    (environment : Environment) : State cpus :=
  match readWaitSnapshot collector.aggregateMap cpus (reading.items order) with
  | .error (.stopped text) => collectionFailure collector s (.tracingStopped text)
  | .error (.unstable text) =>
    if reading.attempt < snapshotAttempts then beginReading s reading.retired (reading.attempt + 1)
    else
      collectionFailure collector s
        (.other (s!"capture {collector.aggregateMap} snapshot " ++
          s!"after {snapshotAttempts} attempts: {text}"))
  | .ok current => collect collector s reading current environment

/-! ## Reclaim -/

def RetiredKey.waitKey (identity : RetiredKey) (operation : Nat) : WaitKey where
  css := identity.css
  cssSerial := identity.cssSerial
  major := identity.major
  minor := identity.minor
  operation := UInt32.ofNat operation

/-- One round of the inner loop of `reclaimIOControlRetired`. `previous` is the map `current`. -/
def reclaimRow (identity : RetiredKey) (rest : List RetiredKey) (operation : Nat)
    (hasRemaining fault : Bool) : State cpus :=
  let key := identity.waitKey operation
  let current := s.previous.getD ∅
  if key ∉ current then { s with phase := .reclaiming identity rest (operation + 1) hasRemaining }
  else
    let (rows, err) := deleteMapItem s.rows key fault
    if err ≠ none ∧ err ≠ some .enoent then
      { s with rows, phase := .reclaiming identity rest (operation + 1) true }
    else
      { s with
        rows
        previous := some (current.erase key)
        phase := .reclaiming identity rest (operation + 1) hasRemaining }

/-- The end of a round of the outer loop. -/
def reclaimMarker (identity : RetiredKey) (rest : List RetiredKey) (hasRemaining fault : Bool) :
    State cpus :=
  { s with
    markers := if hasRemaining then s.markers else (deleteMapItem s.markers identity fault).1
    phase := .reclaim rest }

/-! ## Steps -/

inductive Action (cpus : Nat) where
  /-- a program creates the row of a key -/
  | ensure (key : WaitKey)
  /-- a program adds a wait to a word -/
  | settle (key : WaitKey) (cpu : Fin cpus) (waitNS : UInt64)
  /-- a program publishes a retirement marker -/
  | retire (identity : RetiredKey)
  /-- a program publishes a failure -/
  | bpfFail (failure : UInt64)
  /-- a program has seen a change of the devices -/
  | noteDeviceChange
  | cancel
  | beginUpdate
  /-- the dump of the markers returns one -/
  | dumpMarker (identity : RetiredKey)
  | endRetired
  /-- the dump of the counters reads a word -/
  | readWord (key : WaitKey) (cpu : Fin cpus)
  /-- the dump of the counters returns the rows of these keys -/
  | endSnapshot (order : List WaitKey) (environment : Environment)
  /-- an operation of an `Update` fails -/
  | fail (cause : Cause)
  /-- the next round of `reclaimIOControlRetired` -/
  | reclaim (fault : Bool)

def step (collector : Collector) (s : State cpus) : Action cpus → Option (State cpus)
  | .ensure key =>
    some { s with rows := if key ∈ s.rows then s.rows else s.rows.insert key fun _ => 0 }
  | .settle key cpu waitNS =>
    (s.rows.lookup key).map fun words =>
      { s with
        rows := s.rows.insert key (update words cpu (waitAdd (words cpu) waitNS))
        log := s.log ++ [⟨key, cpu, waitNS⟩] }
  | .retire identity =>
    some
      { s with
        markers := if identity ∈ s.markers then s.markers else s.markers.insert identity 1
        published := identity :: s.published }
  | .bpfFail failure => some { s with status.failure := failure }
  | .noteDeviceChange => some { s with status.devicesChanged := 1 }
  | .cancel => some { s with cancelled := true }
  | .beginUpdate =>
    match s.phase with
    | .idle => some (beginUpdate collector s)
    | _ => none
  | .dumpMarker identity =>
    match s.phase with
    | .retiring retired =>
      if identity ∈ s.markers then some { s with phase := .retiring (retired.insert identity) }
      else none
    | _ => none
  | .endRetired =>
    match s.phase with
    | .retiring retired => some (captureRetired collector s retired)
    | _ => none
  | .readWord key cpu =>
    match s.phase, s.rows.lookup key with
    | .reading reading, some words =>
      some
        { s with
          phase := .reading
            { reading with
              words := update reading.words key
                (update (reading.words key) cpu (some (words cpu)))
              readAt := update reading.readAt key
                (update (reading.readAt key) cpu s.log.length) } }
    | _, _ => none
  | .endSnapshot order environment =>
    match s.phase with
    | .reading reading =>
      if ∀ key ∈ order, ∀ cpu, (reading.words key cpu).isSome then
        some (captureWaitSnapshot collector s reading order environment)
      else none
    | _ => none
  | .fail cause =>
    match s.phase with
    | .retiring _ => some (collectionFailure collector s cause)
    | .reading _ => some (collectionFailure collector s cause)
    | _ => none
  | .reclaim fault =>
    match s.phase with
    | .reclaiming identity rest operation hasRemaining =>
      some (if operation < 2 then reclaimRow s identity rest operation hasRemaining fault
        else reclaimMarker s identity rest hasRemaining fault)
    | _ => none

end Huatuo.IoControl
