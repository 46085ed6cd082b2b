import Mathlib.Data.List.Basic

/-!
# Off-CPU intervals

The programs of `bpf/native_offcpu_profiler.c`. When a task is switched out, its stack, the time and
the kind of its wait go into `offcpu_states` under the address of the task. A wakeup ends the
blocked part and starts the wait in the run queue, the switch-in ends the last part, and an exit
ends the part that it finds. Every part that ends is emitted, with the stack of the switch-out.

An event of the kernel is one step. The lookups in arrays and the perf output succeed; what
`bpf_map_update_elem` returns is part of the event. The counters of `offcpu_stats` are left out.
`emitted` has the address of the task next to each event; it is not part of the event.
-/

namespace Huatuo.OffCpu

inductive Phase where
  | all
  | blocked
  | runqueue
  deriving DecidableEq, Repr

inductive Kind where
  | blocked
  | runqueue
  | runqueuePreempted
  | runqueueYielded
  | runqueueMissedWakeup
  deriving DecidableEq, Repr

structure Config where
  phase : Phase := .all
  minDurationNs : UInt64 := 1000000
  cpuSetEnabled : Bool := false
  cpuSet : UInt32 → UInt64 := fun _ => 0
  filterCss : UInt64 := 0
  filterPid : UInt32 := 0
  filterThreads : Bool := false

/-- `struct profiler_event_base`, without the value. -/
structure EventBase where
  pidTgid : UInt64
  comm : String
  kernstack : Int32
  userstack : Int32
  deriving DecidableEq, Repr

structure OffcpuState where
  base : EventBase
  phaseStartNs : UInt64
  kind : Kind
  deriving DecidableEq, Repr

structure OffcpuEvent where
  base : EventBase
  value : Int64
  kind : Kind
  deriving DecidableEq, Repr

/-- What the programs read about the task that is switched out. -/
structure Departure where
  pidTgid : UInt64
  css : UInt64
  cpu : UInt32
  preempted : Bool
  /-- `task_state` is `TASK_RUNNING` -/
  running : Bool
  comm : String
  kernstack : Int32
  userstack : Int32
  /-- the state goes into the map -/
  stored : Bool
  deriving DecidableEq, Repr

inductive Event where
  /-- `sched_wakeup` or `sched_wakeup_new` -/
  | wakeup (task : UInt64) (now : UInt64)
  | switch (prev next : UInt64) (now : UInt64) (departure : Departure)
  | exit (task : UInt64) (now : UInt64)
  | free (task : UInt64)
  deriving DecidableEq, Repr

structure State where
  offcpuStates : UInt64 → Option OffcpuState := fun _ => none
  emitted : List (UInt64 × OffcpuEvent) := []

/-! ## Filters -/

variable (config : Config)

def Config.kindEnabled (kind : Kind) : Bool :=
  match config.phase with
  | .all => true
  | .blocked => kind = .blocked
  | .runqueue => kind ≠ .blocked

def cpuSetWordBits : UInt32 := 64
def cpuSetWords : UInt32 := 128

def Config.cpuSelected (cpu : UInt32) : Bool :=
  if !config.cpuSetEnabled then true
  else
    let word := cpu / cpuSetWordBits
    if word ≥ cpuSetWords then false
    else config.cpuSet word &&& ((1 : UInt64) <<< (cpu % cpuSetWordBits).toUInt64) ≠ 0

def Config.shouldTrace (pidTgid css : UInt64) : Bool :=
  let tgid := (pidTgid >>> 32).toUInt32
  let pid := pidTgid.toUInt32
  if config.filterCss ≠ 0 ∧ css ≠ config.filterCss then false
  else if config.filterPid = 0 then true
  else if config.filterThreads then tgid = config.filterPid
  else pid = config.filterPid

/-! ## Programs -/

def State.delete (s : State) (task : UInt64) : State :=
  { s with offcpuStates := Function.update s.offcpuStates task none }

/-- The event of a part, if there is one. -/
def Config.event (state : OffcpuState) (endNs : UInt64) (kind : Kind) : Option OffcpuEvent :=
  if !config.kindEnabled kind || endNs ≤ state.phaseStartNs then none
  else
    let duration := endNs - state.phaseStartNs
    if duration < config.minDurationNs then none
    else some { base := state.base, value := duration.toInt64, kind }

def emitEvent (s : State) (task : UInt64) (state : OffcpuState) (endNs : UInt64) (kind : Kind) :
    State :=
  { s with emitted := s.emitted ++ ((config.event state endNs kind).map (task, ·)).toList }

def handleWakeup (s : State) (task now : UInt64) : State :=
  if task = 0 then s
  else
    match s.offcpuStates task with
    | none => s
    | some state =>
      if state.kind ≠ .blocked then s
      else
        let s := emitEvent config s task state now .blocked
        if config.phase = .blocked then s.delete task
        else
          { s with
            offcpuStates := Function.update s.offcpuStates task
              (some { state with kind := .runqueue, phaseStartNs := now }) }

def Departure.isRunnable (departure : Departure) : Bool := departure.preempted || departure.running

def Departure.kind (departure : Departure) : Kind :=
  if departure.isRunnable then
    if departure.preempted then .runqueuePreempted else .runqueueYielded
  else .blocked

def Departure.base (departure : Departure) : EventBase where
  pidTgid := departure.pidTgid
  comm := departure.comm
  kernstack := departure.kernstack
  userstack := departure.userstack

def recordSchedOut (s : State) (prev now : UInt64) (departure : Departure) : State :=
  if prev = 0 ∨ departure.pidTgid = 0 ∨ !config.shouldTrace departure.pidTgid departure.css then s
  else if !config.cpuSelected departure.cpu then s
  else if departure.isRunnable ∧ config.phase = .blocked then s
  else if departure.userstack < 0 ∧ departure.kernstack < 0 then s
  else if !departure.stored then s
  else
    { s with
      offcpuStates := Function.update s.offcpuStates prev
        (some { base := departure.base, phaseStartNs := now, kind := departure.kind }) }

def finishSchedIn (s : State) (next now : UInt64) : State :=
  if next = 0 then s
  else
    match s.offcpuStates next with
    | none => s
    | some state =>
      -- the end of the blocked part is not known
      let kind := if state.kind = .blocked then .runqueueMissedWakeup else state.kind
      (emitEvent config s next state now kind).delete next

def cleanupTaskState (s : State) (task : UInt64) (emitPending : Option UInt64) : State :=
  if task = 0 then s
  else
    match s.offcpuStates task with
    | none => s
    | some state =>
      let s := match emitPending with
        | some now => emitEvent config s task state now state.kind
        | none => s
      s.delete task

def handle (config : Config) (s : State) : Event → State
  | .wakeup task now => handleWakeup config s task now
  | .switch prev next now departure =>
    recordSchedOut config (finishSchedIn config s next now) prev now departure
  | .exit task now => cleanupTaskState config s task (some now)
  | .free task => cleanupTaskState config s task none

def run (events : List Event) : State := events.foldl (handle config) {}

/-! ## What is to be emitted -/

/-- What happens to one task. -/
inductive TaskEvent where
  | wakeup (now : UInt64)
  | switchIn (now : UInt64)
  | switchOut (now : UInt64) (departure : Departure)
  | exit (now : UInt64)
  | free
  deriving DecidableEq, Repr

/-- The events of a task, in an event of the kernel. -/
def Event.of (task : UInt64) : Event → List TaskEvent
  | .wakeup task' now => if task' = task then [.wakeup now] else []
  | .switch prev next now departure =>
    (if next = task then [.switchIn now] else []) ++
      if prev = task then [.switchOut now departure] else []
  | .exit task' now => if task' = task then [.exit now] else []
  | .free task' => if task' = task then [.free] else []

def TaskEvent.isWakeup : TaskEvent → Bool
  | wakeup _ => true
  | _ => false

def TaskEvent.isSwitchOut : TaskEvent → Bool
  | switchOut _ _ => true
  | _ => false

/-- A part of an off-CPU period. -/
structure Part where
  kind : Kind
  startNs : UInt64
  endNs : UInt64
  base : EventBase

/-- The last part of a period, which started as `kind`: up to the switch-in or the exit that ends
it. -/
def lastPart (kind : Kind) (startNs : UInt64) (base : EventBase) : Option TaskEvent → List Part
  | some (.switchIn now) =>
    [⟨if kind = .blocked then .runqueueMissedWakeup else kind, startNs, now, base⟩]
  | some (.exit now) => [⟨kind, startNs, now, base⟩]
  | _ => []

/-- The parts of a period that starts as `kind`, given what happens to the task afterwards: the
first wakeup, and the first event that is not a wakeup. -/
def periodParts (kind : Kind) (startNs : UInt64) (base : EventBase) (later : List TaskEvent) :
    List Part :=
  let ends := (later.dropWhile TaskEvent.isWakeup).head?
  match kind, (later.takeWhile TaskEvent.isWakeup).head? with
  | .blocked, some (.wakeup woken) =>
    ⟨.blocked, startNs, woken, base⟩ :: lastPart .runqueue woken base ends
  | kind, _ => lastPart kind startNs base ends

/-- How a task leaves the CPU: preempted, of its own accord but runnable, or to block. -/
def leavesAs (preempted running : Bool) : Kind :=
  match preempted, running with
  | true, _ => .runqueuePreempted
  | false, true => .runqueueYielded
  | false, false => .blocked

/-- The parts of all periods of a task, with the stacks of its switch-outs. -/
def parts : List TaskEvent → List Part
  | [] => []
  | .switchOut now departure :: later =>
    periodParts (leavesAs departure.preempted departure.running) now
        { pidTgid := departure.pidTgid, comm := departure.comm, kernstack := departure.kernstack,
          userstack := departure.userstack } later ++
      parts later
  | _ :: later => parts later

/-- A part is reported with its duration, unless it is empty or too short. -/
def Part.report (minDurationNs : UInt64) (part : Part) : Option OffcpuEvent :=
  let duration := part.endNs.toNat - part.startNs.toNat
  if duration = 0 ∨ duration < minDurationNs.toNat then none
  else some { base := part.base, value := Int64.ofNat duration, kind := part.kind }

/-- The switch-out is recorded. -/
def Departure.Recorded (departure : Departure) : Prop :=
  departure.pidTgid ≠ 0 ∧ config.shouldTrace departure.pidTgid departure.css ∧
    config.cpuSelected departure.cpu ∧ ¬ (departure.userstack < 0 ∧ departure.kernstack < 0) ∧
    departure.stored

instance (config : Config) (departure : Departure) : Decidable (departure.Recorded config) :=
  inferInstanceAs (Decidable (_ ∧ _))

end Huatuo.OffCpu
