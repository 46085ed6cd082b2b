import Huatuo.Lib.Series
import Huatuo.Lib.Words

/-!
# IO wait counters

`io_control_wait_add` of `bpf/include/bpf_iocontrol.h`, and the part of `core/metrics/iocontrol.go`
that decodes the wait words, subtracts two snapshots of them and sorts the differences into public
series.

A word is the pair of a count modulo 2^26 and a wait in units of 10us modulo 2^38. There is one for
each key and CPU. The row of a key is read as the bytes of its words; keys are decoded already, and
a CPU count is not negative. `containers` is the result of `BuildCssContainers`. The metrics that
`append` makes of the series are left out, and so is the text of a failed attribution, which is only
logged.

A report is the series of an interval. `deltas` has the difference of each key that is in them.
-/

namespace Huatuo.IoControl

open Words (Bytes toLE readLE)

/-! ## The wait word -/

def waitCountBits : UInt64 := 26
def wait10USBits : UInt64 := 38
def waitUnitNS : UInt64 := 10000
def waitCounterSize : Nat := 8
def waitCountMask : UInt64 := (1 <<< waitCountBits) - 1
def wait10USMask : UInt64 := (1 <<< wait10USBits) - 1

def waitAdd (packed waitNS : UInt64) : UInt64 :=
  let count := ((packed >>> wait10USBits) + 1) &&& waitCountMask
  let wait := ((packed &&& wait10USMask) + waitNS / waitUnitNS) &&& wait10USMask
  (count <<< wait10USBits) ||| wait

structure WaitCounters where
  ioCount : UInt64 := 0
  wait10US : UInt64 := 0
  deriving DecidableEq, Repr

def WaitCounters.delta (value previous : WaitCounters) : WaitCounters where
  ioCount := (value.ioCount - previous.ioCount) &&& waitCountMask
  wait10US := (value.wait10US - previous.wait10US) &&& wait10USMask

def addWaitCounters (left right : WaitCounters) : WaitCounters where
  ioCount := left.ioCount + right.ioCount
  wait10US := left.wait10US + right.wait10US

instance : Add WaitCounters := ⟨addWaitCounters⟩

instance : Zero WaitCounters := ⟨{}⟩

instance : AddCommMonoid WaitCounters where
  nsmul := nsmulRec
  add_assoc _ _ _ := congrArg₂ WaitCounters.mk (UInt64.add_assoc ..) (UInt64.add_assoc ..)
  zero_add _ := congrArg₂ WaitCounters.mk (UInt64.zero_add _) (UInt64.zero_add _)
  add_zero _ := congrArg₂ WaitCounters.mk (UInt64.add_zero _) (UInt64.add_zero _)
  add_comm _ _ := congrArg₂ WaitCounters.mk (UInt64.add_comm ..) (UInt64.add_comm ..)

/-- The counters in a word. -/
def unpack (packed : UInt64) : WaitCounters where
  ioCount := packed >>> wait10USBits
  wait10US := packed &&& wait10USMask

/-- The value of a row as a map item. -/
def rowBytes {cpus : Nat} (words : Fin cpus → UInt64) : Bytes :=
  (List.ofFn words).flatMap fun word => toLE waitCounterSize word.toNat

def maxInt : Nat := 2 ^ 63 - 1

def decodeWaitCounters (data : Bytes) (possibleCPUs : Nat) : Except String (List WaitCounters) :=
  let expectedSize := possibleCPUs * waitCounterSize
  if possibleCPUs = 0 then .error s!"invalid possible CPU count: {possibleCPUs}"
  else if possibleCPUs > maxInt / waitCounterSize then
    .error s!"possible CPU count is too large: {possibleCPUs}"
  else if data.length ≠ expectedSize then
    .error s!"data size {data.length}, want {expectedSize} for {possibleCPUs} possible CPUs"
  else
    .ok ((List.range possibleCPUs).map fun cpu =>
      unpack (UInt64.ofNat (readLE waitCounterSize data (cpu * waitCounterSize))))

/-! ## Differences -/

/-- What a word is compared with, in rows of equal lengths. -/
def oldLane (previous : Option (List WaitCounters)) (cpu : Nat) : WaitCounters :=
  match previous with
  | none => {}
  | some previous => previous.getD cpu {}

/-- The body of the loop of `deltaIOControlWaitCounters`. -/
def laneDelta (previous : Option (List WaitCounters)) (cpu : Nat) (value : WaitCounters) :
    Except String WaitCounters :=
  let delta := value.delta (oldLane previous cpu)
  if delta.ioCount = 0 ∧ delta.wait10US ≠ 0 then
    .error s!"CPU {cpu} delta: wait_10us is {delta.wait10US} with no delayed IO"
  else .ok delta

def deltaWaitCounters (previous : Option (List WaitCounters)) (current : List WaitCounters) :
    Except String WaitCounters :=
  if current = [] then .error "empty per-CPU counters"
  else
    match previous.filter fun previous => previous.length ≠ current.length with
    | some previous =>
      .error s!"per-CPU counter count changed from {previous.length} to {current.length}"
    | none =>
      current.zipIdx.foldlM
        (fun total lane => (laneDelta previous lane.2 lane.1).map (addWaitCounters total)) {}

/-! ## Keys and snapshots -/

structure WaitKey where
  css : UInt64
  cssSerial : UInt64
  major : UInt32
  minor : UInt32
  operation : UInt32
  reserved : UInt32 := 0
  deriving DecidableEq, Repr

def WaitKey.text (key : WaitKey) : String :=
  "\x7bCSS:" ++ toString key.css ++ " CSSSerial:" ++ toString key.cssSerial ++
    " Major:" ++ toString key.major ++ " Minor:" ++ toString key.minor ++
    " Operation:" ++ toString key.operation ++ " Reserved:" ++ toString key.reserved ++ "\x7d"

structure RetiredKey where
  css : UInt64
  cssSerial : UInt64
  major : UInt32
  minor : UInt32
  deriving DecidableEq, Repr

def RetiredKey.text (key : RetiredKey) : String :=
  "\x7bCSS:" ++ toString key.css ++ " CSSSerial:" ++ toString key.cssSerial ++
    " Major:" ++ toString key.major ++ " Minor:" ++ toString key.minor ++ "\x7d"

def retiredIdentity (key : WaitKey) : RetiredKey where
  css := key.css
  cssSerial := key.cssSerial
  major := key.major
  minor := key.minor

def ioOperationName : UInt32 → Option String
  | 0 => some "read"
  | 1 => some "write"
  | _ => none

abbrev WaitSnapshot := AList fun _ : WaitKey => List WaitCounters

inductive ReadError where
  /-- `errIOControlSnapshotUnstable` -/
  | unstable (text : String)
  /-- `ErrTracingStopped` -/
  | stopped (text : String)
  deriving DecidableEq, Repr

/-- The body of the loop of `readIOControlWaitSnapshot`. -/
def readItem (mapName : String) (possibleCPUs : Nat) (snapshot : WaitSnapshot)
    (item : WaitKey × Bytes) : Except ReadError WaitSnapshot :=
  let key := item.1
  if key ∈ snapshot then .error (.unstable s!"duplicate {mapName} key: {key.text}")
  else if key.css = 0 ∨ key.cssSerial = 0 ∨ key.reserved ≠ 0 then
    .error (.stopped s!"invalid {mapName} identity: {key.text}")
  else if ioOperationName key.operation = none then
    .error (.stopped s!"invalid IO operation: {key.operation}")
  else
    match decodeWaitCounters item.2 possibleCPUs with
    | .error text => .error (.stopped s!"decode {mapName} value: {text}")
    | .ok counters => .ok (snapshot.insert key counters)

def readWaitSnapshot (mapName : String) (possibleCPUs : Nat) (items : List (WaitKey × Bytes)) :
    Except ReadError WaitSnapshot :=
  items.foldlM (readItem mapName possibleCPUs) ∅

/-! ## Public series -/

structure DeviceOperation where
  device : String
  operation : String
  deriving DecidableEq, Repr

structure ContainerLabels where
  hostname : String
  name : String
  type : String
  qos : String
  hostNamespace : String
  deriving DecidableEq, Repr

structure Container where
  hostname : String
  name : String
  type : String
  qos : String
  /-- the label `HostNamespace`, if it is a string -/
  hostNamespace : Option String
  deriving DecidableEq, Repr

def publicContainerLabels (container : Container) : Option ContainerLabels :=
  container.hostNamespace.map fun hostNamespace =>
    { hostname := container.hostname
      name := container.name
      type := container.type
      qos := container.qos
      hostNamespace }

def containerAttribution (containers : UInt64 → Option Container) (css : UInt64) :
    Option (Container × ContainerLabels) :=
  if css = 0 then none
  else (containers css).bind fun container =>
    (publicContainerLabels container).map fun labels => (container, labels)

structure ContainerSeriesKey where
  labels : ContainerLabels
  device : String
  operation : String
  deriving DecidableEq, Repr

def ContainerSeriesKey.deviceOperation (key : ContainerSeriesKey) : DeviceOperation where
  device := key.device
  operation := key.operation

structure ContainerWait where
  container : Container
  counters : WaitCounters
  deriving DecidableEq, Repr

structure WaitIntervals where
  host : AList fun _ : DeviceOperation => WaitCounters := ∅
  other : AList fun _ : DeviceOperation => WaitCounters := ∅
  containers : AList fun _ : ContainerSeriesKey => ContainerWait := ∅

def WaitIntervals.add (intervals : WaitIntervals) (containers : UInt64 → Option Container)
    (css : UInt64) (device operation : String) (counters : WaitCounters) : WaitIntervals :=
  let hostKey : DeviceOperation := { device, operation }
  let host := intervals.host.insert hostKey
    (addWaitCounters (Series.get id intervals.host hostKey) counters)
  match containerAttribution containers css with
  | none =>
    { intervals with
      host
      other := intervals.other.insert hostKey
        (addWaitCounters (Series.get id intervals.other hostKey) counters) }
  | some (container, labels) =>
    let key : ContainerSeriesKey := { labels, device, operation }
    { intervals with
      host
      containers := intervals.containers.insert key
        { container
          counters := addWaitCounters
            (Series.get ContainerWait.counters intervals.containers key) counters } }

structure Delta where
  key : WaitKey
  series : DeviceOperation
  counters : WaitCounters
  deriving DecidableEq, Repr

structure Report where
  deltas : List Delta := []
  intervals : WaitIntervals := {}

/-- The body of the loop of `buildIOControlWaitMetrics`. -/
def buildRow (previous : WaitSnapshot) (containers : UInt64 → Option Container)
    (disks : UInt32 × UInt32 → String) (retired : List RetiredKey) (report : Report)
    (row : Sigma fun _ : WaitKey => List WaitCounters) : Except String Report :=
  let key := row.1
  let disk := disks (key.major, key.minor)
  if disk = "" then .ok report
  else
    match deltaWaitCounters (previous.lookup key) row.2 with
    | .error text => .error s!"delta IO series {key.text}: {text}"
    | .ok delta =>
      let operation := (ioOperationName key.operation).getD ""
      let css := if retiredIdentity key ∈ retired then 0 else key.css
      .ok
        { deltas := report.deltas ++ [⟨key, ⟨disk, operation⟩, delta⟩]
          intervals := report.intervals.add containers css disk operation delta }

def buildWaitMetrics (previous current : WaitSnapshot) (containers : UInt64 → Option Container)
    (disks : UInt32 × UInt32 → String) (retired : List RetiredKey) : Except String Report :=
  current.entries.foldlM (buildRow previous containers disks retired) {}

def needsContainerLabels (current : WaitSnapshot) (retired : List RetiredKey) : Bool :=
  current.keys.any fun key => retiredIdentity key ∉ retired

end Huatuo.IoControl
