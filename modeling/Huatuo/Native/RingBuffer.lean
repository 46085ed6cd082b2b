import Mathlib.Data.UInt
import Huatuo.Profiling.Pipeline

/-!
# The rings of the native profilers

`cmd/profiler/provider/native_bpf_context.go` with the emit path of `bpf/include/bpf_profiler.h`.
BPF programs write events into one of two perf rings, chosen by the parity of a transfer count, and
count them first. User space bumps the transfer count, drains the ring that is frozen now, adds up
how many events were counted and how many came out, and sets the count to zero. Once the programs
are detached, both rings are drained and the difference is reported as lost.

A program selects its ring, counts and outputs in three steps, and user space reads and writes the
shared words one at a time, so that programs on any CPU may run in between. An output that fails is
reported by the kernel later in a record of the ring, or never. `ReadBatch` takes any number of the
records that are there. Every call of user space may fail, which ends the profiler.

Symbols are parameters: names for the addresses of a stack. `attempts` counts the emits, and
`sampled` keeps each event with its sample; nothing reads them.
-/

namespace Huatuo.Native

open Profiling Function

/-! ## The kernel's side -/

inductive Ring where
  | a
  | b
  deriving DecidableEq, Repr

def Ring.other : Ring → Ring
  | .a => .b
  | .b => .a

/-- `SELECT_PROFILER_AB`, and the choice of `advanceSwapParity`. -/
def Ring.ofTransferCount (transferCount : UInt64) : Ring :=
  if transferCount % 2 = 0 then .a else .b

abbrev Trace := List UInt64

/-- `struct profiler_event_base`, with the CPU of on-CPU events. The last three fields are not part
of it: the allocation an event is about, its page, and the map that its stack IDs are from. -/
structure Event where
  pidTgid : UInt64
  comm : String
  userstack : Int32
  kernstack : Int32
  value : Int64
  cpu : Option UInt32 := none
  allocation : Nat := 0
  page : UInt64 := 0
  stackMap : Ring := .a
  deriving DecidableEq, Repr

inductive Record where
  | sample (event : Event)
  | lost (count : UInt64)
  deriving DecidableEq, Repr

/-- A program on a CPU, in the middle of an emit. -/
inductive Producer where
  | idle
  | selected (ring : Ring) (event : Event)
  | counted (ring : Ring) (event : Event)
  deriving DecidableEq, Repr

/-! ## User space -/

/-- One call of `drainRingBuffer`; `final` has the rings that a final drain is done with. Nothing
reads `events`, the events so far. -/
structure Drain where
  ring : Ring
  final : Option (List Ring)
  events : List Event := []
  accounted : UInt64 := 0
  kernelCache : List (Int32 × List ProfileFrame) := []
  userCache : List ((UInt32 × Int32) × List ProfileFrame) := []

inductive Phase where
  | idle
  /-- about to read the transfer count -/
  | starting (final : Option (List Ring))
  /-- about to write it -/
  | swapping (final : Option (List Ring)) (transferCount : UInt64)
  | reading (drain : Drain)
  | processing (drain : Drain) (events : List Event) (lost : UInt64) (empty : Bool)
      (builder : BatchBuilder)
  /-- about to read the sample count of the ring -/
  | counting (drain : Drain) (empty : Bool)
  /-- about to set the sample counts to zero -/
  | resetting (rings : List Ring) (final : Bool)
  | failed (err : String)
  | done

structure State where
  transferCount : UInt64 := 0
  sampleCount : Ring → UInt64 := fun _ => 0
  stackMap : Ring → Int32 → Option Trace := fun _ _ => none
  output : Ring → List Record := fun _ => []
  /-- failed outputs of a ring that no record reports -/
  unreported : Ring → Nat := fun _ => 0
  producers : Nat → Producer := fun _ => .idle
  detached : Bool := false
  phase : Phase := .idle
  sampleAttempts : UInt64 := 0
  accountedSamples : UInt64 := 0
  /-- the batches that went to `enqueue` -/
  enqueued : List SampleBatch := []
  attempts : Nat := 0
  sampled : List (Event × Sample) := []

structure Config where
  cpus : Nat
  needsFallback : Bool
  ksym : Trace → List String
  usym : UInt32 → Trace → List String
  convert : Int64 → Except String Int64

/-! ## Stacks -/

def isUnknownSymbol (name : String) : Bool :=
  name == "" || name == "unknown" || name.startsWith "unknown " || name.startsWith "[unknown]/"

/-- The names come root first, the addresses leaf first. -/
def symbolizedFrames (addresses : Trace) (names : List String) : List ProfileFrame :=
  names.mapIdx fun i name =>
    { name :=
        if isUnknownSymbol name then
          "0x" ++ String.ofList (Nat.toDigits 16 (addresses.getD (names.length - 1 - i) 0).toNat)
        else name }

/-- `none` is `ErrStackNotFound`; a negative ID stands for no stack. -/
def resolveStack (names : Trace → List String) (traces : Int32 → Option Trace) (stackID : Int32) :
    Option (List ProfileFrame) :=
  if stackID < 0 then some []
  else (traces stackID).map fun trace => symbolizedFrames trace (names trace)

variable (config : Config)

def resolveStackWithFallback (names : Trace → List String) (s : State) (ring : Ring)
    (stackID : Int32) : List ProfileFrame :=
  match resolveStack names (s.stackMap ring) stackID with
  | some frames => frames
  | none =>
    if config.needsFallback then
      (resolveStack names (s.stackMap ring.other) stackID).getD []
    else []

def Event.pid (event : Event) : UInt32 := (event.pidTgid >>> 32).toUInt32

/-- The frames of the user stack, from the cache if they are there. -/
def userFrames (s : State) (drain : Drain) (event : Event) : List ProfileFrame :=
  (drain.userCache.lookup (event.pid, event.userstack)).getD
    (resolveStackWithFallback config (config.usym event.pid) s drain.ring event.userstack)

def kernelFrames (s : State) (drain : Drain) (event : Event) : List ProfileFrame :=
  (drain.kernelCache.lookup event.kernstack).getD
    (resolveStackWithFallback config config.ksym s drain.ring event.kernstack)

/-- The caches after an event. -/
def Drain.remember (drain : Drain) (config : Config) (s : State) (event : Event) : Drain :=
  { drain with
    events := event :: drain.events
    userCache := ((event.pid, event.userstack), userFrames config s drain event) :: drain.userCache
    kernelCache := (event.kernstack, kernelFrames config s drain event) :: drain.kernelCache }

def nativeLabels (pid : UInt32) (comm : String) : List ProfileLabel :=
  [profileStringLabel "comm" comm, profilePIDLabel pid]

/-- The sample of an event. -/
def sampleOf (s : State) (drain : Drain) (event : Event) : Except String Sample :=
  match config.convert event.value with
  | .error err => .error err
  | .ok value =>
    match normalizeLabels
        (nativeLabels event.pid event.comm ++ (event.cpu.map profileCPULabel).toList) with
    | .error err => .error err
    | .ok labels =>
      .ok
        { userFrames := userFrames config s drain event
          kernelFrames := kernelFrames config s drain event
          labels
          value }

/-! ## Draining -/

def Record.event? : Record → Option Event
  | .sample event => some event
  | .lost _ => none

def Record.lostCount : Record → UInt64
  | .sample _ => 0
  | .lost count => count

def eventsOf (records : List Record) : List Event := records.filterMap Record.event?

def lostOf (records : List Record) : UInt64 := (records.map Record.lostCount).sum

variable (s : State)

def State.fail (err : String) : State := { s with phase := .failed err }

/-- The loop body up to the events: take records and account for them. -/
def readBatch (drain : Drain) (records : List Record) : State :=
  let events := eventsOf records
  let lost := lostOf records
  let count := UInt64.ofNat events.length
  if lost > 0xffffffffffffffff - count ∨ count + lost > 0xffffffffffffffff - drain.accounted then
    s.fail "BPF transfer event count overflows uint64"
  else
    { s with
      phase := .processing { drain with accounted := drain.accounted + (count + lost) } events lost
        (events.isEmpty && lost == 0) {} }

/-- The pipeline takes every batch. -/
def enqueue : Enqueue := fun _ => .ok ()

/-- Turn one event into a sample. -/
def process (s : State) (drain : Drain) (event : Event) (rest : List Event) (lost : UInt64)
    (empty : Bool) (builder : BatchBuilder) : State :=
  match sampleOf config s drain event with
  | .error err => s.fail err
  | .ok sample =>
    match builder.append sample enqueue with
    | { result := .error err, .. } => s.fail err
    | { result := .ok (), builder, handed } =>
      { s with
        enqueued := s.enqueued ++ handed
        sampled := s.sampled ++ [(event, sample)]
        phase := .processing (drain.remember config s event) rest lost empty builder }

def droppedBatch (lost : UInt64) : SampleBatch where
  droppedSamples := [(dropReasonCollection, lost)]

/-- What follows the events of a batch. -/
def finishBatch (drain : Drain) (lost : UInt64) (empty : Bool) (builder : BatchBuilder) : State :=
  { s with
    enqueued := s.enqueued ++ (builder.flush enqueue).handed ++
      if lost ≠ 0 then [droppedBatch lost] else []
    phase := .counting drain empty }

/-- After `drainRingBuffer` and `accountSamples`: set the count to zero, or go on with the final
drain. -/
def drained (drain : Drain) : State :=
  match drain.final with
  | none => { s with phase := .resetting [drain.ring] false }
  | some [] => { s with phase := .starting (some [drain.ring]) }
  | some rings =>
    { s with
      enqueued := s.enqueued ++
        if s.sampleAttempts > s.accountedSamples then
          [droppedBatch (s.sampleAttempts - s.accountedSamples)]
        else []
      phase := .resetting (rings ++ [drain.ring]) true }

/-- The end of the loop: read the sample count, then leave the loop or read on. -/
def readCount (drain : Drain) (empty : Bool) : State :=
  let expected := s.sampleCount drain.ring
  if empty ∨ drain.accounted ≥ expected then
    if expected > 0xffffffffffffffff - s.sampleAttempts ∨
        drain.accounted > 0xffffffffffffffff - s.accountedSamples then
      s.fail "native sample accounting overflows uint64"
    else
      drained
        { s with
          sampleAttempts := s.sampleAttempts + expected
          accountedSamples := s.accountedSamples + drain.accounted }
        drain
  else { s with phase := .reading drain }

def resetCount (ring : Ring) (rest : List Ring) (final : Bool) : State :=
  let reset := { s with sampleCount := update s.sampleCount ring 0 }
  match rest with
  | [] =>
    if final then { reset with sampleAttempts := 0, accountedSamples := 0, phase := .done }
    else { reset with phase := .idle }
  | rest => { reset with phase := .resetting rest final }

/-! ## Steps -/

inductive Action where
  /-- `bpf_get_stackid` puts a stack into a map -/
  | recordStack (ring : Ring) (stackID : Int32) (trace : Trace)
  /-- a program prepares an event for the ring of the current parity -/
  | select (cpu : Nat) (event : Event)
  /-- the atomic increment -/
  | count (cpu : Nat)
  | output (cpu : Nat) (accepted : Bool)
  /-- the kernel reports failed outputs -/
  | reportLost (ring : Ring) (count : Nat)
  /-- `drainFrozenRingBuffer` -/
  | drain
  /-- `drainFinalRingBuffers`, once the programs are detached and none is running -/
  | drainFinal
  | readTransferCount
  | writeTransferCount
  | readBatch (records : Nat)
  | process
  | readCount
  | resetCount
  /-- a call of user space returns an error -/
  | fail (err : String)

def step (config : Config) (s : State) : Action → Option State
  | .recordStack ring stackID trace =>
    if 0 ≤ stackID ∧ s.stackMap ring stackID = none then
      some
        { s with
          stackMap := update s.stackMap ring
            (update (s.stackMap ring) stackID (some trace)) }
    else none
  | .select cpu event =>
    if cpu < config.cpus ∧ s.detached = false ∧ s.producers cpu = .idle then
      some
        { s with
          producers := update s.producers cpu
            (.selected (Ring.ofTransferCount s.transferCount) event) }
    else none
  | .count cpu =>
    match s.producers cpu with
    | .selected ring event =>
      some
        { s with
          producers := update s.producers cpu (.counted ring event)
          sampleCount := update s.sampleCount ring (s.sampleCount ring + 1)
          attempts := s.attempts + 1 }
    | _ => none
  | .output cpu accepted =>
    match s.producers cpu with
    | .counted ring event =>
      if accepted then
        some
          { s with
            producers := update s.producers cpu .idle
            output := update s.output ring (s.output ring ++ [.sample event]) }
      else
        some
          { s with
            producers := update s.producers cpu .idle
            unreported := update s.unreported ring (s.unreported ring + 1) }
    | _ => none
  | .reportLost ring count =>
    if 0 < count ∧ count ≤ s.unreported ring then
      some
        { s with
          output := update s.output ring (s.output ring ++ [.lost (UInt64.ofNat count)])
          unreported := update s.unreported ring (s.unreported ring - count) }
    else none
  | .drain =>
    match s.phase with
    | .idle => some { s with phase := .starting none }
    | _ => none
  | .drainFinal =>
    match s.phase with
    | .idle =>
      if ∀ cpu < config.cpus, s.producers cpu = .idle then
        some { s with detached := true, phase := .starting (some []) }
      else none
    | _ => none
  | .readTransferCount =>
    match s.phase with
    | .starting final => some { s with phase := .swapping final s.transferCount }
    | _ => none
  | .writeTransferCount =>
    match s.phase with
    | .swapping final transferCount =>
      some
        { s with
          transferCount := transferCount + 1
          phase := .reading { ring := Ring.ofTransferCount transferCount, final } }
    | _ => none
  | .readBatch records =>
    match s.phase with
    | .reading drain =>
      some
        (readBatch
          { s with
            output := update s.output drain.ring ((s.output drain.ring).drop records) }
          drain ((s.output drain.ring).take records))
    | _ => none
  | .process =>
    match s.phase with
    | .processing drain (event :: rest) lost empty builder =>
      some (process config s drain event rest lost empty builder)
    | .processing drain [] lost empty builder => some (finishBatch s drain lost empty builder)
    | _ => none
  | .readCount =>
    match s.phase with
    | .counting drain empty => some (readCount s drain empty)
    | _ => none
  | .resetCount =>
    match s.phase with
    | .resetting (ring :: rest) final => some (resetCount s ring rest final)
    | _ => none
  | .fail err =>
    match s.phase with
    | .idle | .failed _ | .done => none
    | _ => some (s.fail err)

end Huatuo.Native
