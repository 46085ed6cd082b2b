import Huatuo.Lib.Flow
import Huatuo.Lib.PercpuHash
import Huatuo.Lib.Runs

/-!
# Softirq samples

The two probes of `bpf/irqtracing.c`. `softirq_raise` samples the stacks that raise softirqs, and
`softirq_entry` those of the tasks that are interrupted. A sample that passes the filters and the
rate limit of its CPU is counted under its key in a per-CPU hash; one that does not pass the limit,
or has no room in the hash, is counted in `dropped_samples`.

Any number of CPUs run the probes, interleaved at every operation on a hash. On one CPU they do not
nest, so that the limiter and the slots of a CPU, which only it uses, need no steps of their own. An
insertion may fail at any time because the map is full. Nothing is deleted during a collection.

A sample is lost or counted twice if an insertion that fails is taken for the wrong thing: it fails
because there is no room, or because another CPU was first. The second lookup tells them apart.
`events` has the number of samples that passed the filters; nothing reads it.
-/

namespace Huatuo.IrqTracing

open Function
open PercpuHash (Rows)

inductive Stream where
  | source
  | victim
  deriving DecidableEq, Repr

structure StackKey where
  ustackId : UInt32
  kstackId : UInt32
  pid : UInt32
  vec : UInt32
  comm : List Char
  deriving DecidableEq, Repr

/-- What a probe reads about the event and the current task. -/
structure Event where
  vec : UInt32
  pid : UInt32
  comm : List Char
  flags : UInt32
  /-- the results of `bpf_get_stackid` -/
  ustack : Int64
  kstack : Int64
  now : UInt64
  deriving DecidableEq, Repr

def stackIdNone : UInt32 := 0xffffffff

def stackId (stack : Int64) : UInt32 := if stack < 0 then stackIdNone else stack.toUInt64.toUInt32

def Event.key (event : Event) : StackKey where
  ustackId := stackId event.ustack
  kstackId := stackId event.kstack
  pid := event.pid
  vec := event.vec
  comm := event.comm

structure Config (ι : Type) where
  targetCpu : Int32
  sourceRateLimit : UInt32
  victimRateLimit : UInt32
  /-- `bpf_get_smp_processor_id` -/
  processorId : ι → UInt32

def Config.rateLimit {ι : Type} (config : Config ι) : Stream → UInt32
  | .source => config.sourceRateLimit
  | .victim => config.victimRateLimit

/-! ## Filters -/

def targetAllCpus : Int32 := -1

def Config.shouldTraceCpu {ι : Type} (config : Config ι) (c : ι) : Bool :=
  config.targetCpu = targetAllCpus ∨ config.processorId c = config.targetCpu.toUInt32

def pfKthread : UInt32 := 0x00200000

def Event.isKsoftirqd (event : Event) : Bool :=
  event.flags &&& pfKthread ≠ 0 ∧ ['k', 's', 'o', 'f', 't', 'i', 'r', 'q', 'd'] <+: event.comm

/-- The filters of a probe, before the limit. -/
def Config.passes {ι : Type} (config : Config ι) (c : ι) (event : Event) : Stream → Bool
  | .source => config.shouldTraceCpu c
  | .victim => config.shouldTraceCpu c ∧ ¬ event.isKsoftirqd ∧ event.pid ≠ 0

/-! ## The limiter of a CPU -/

structure RatelimitState where
  windowStartNs : UInt64 := 0
  eventsInWindow : UInt32 := 0

def nsecPerSec : UInt64 := 1000000000

def RatelimitState.limited (state : RatelimitState) (now intervalNs : UInt64) (burst : UInt32) :
    Bool × RatelimitState :=
  if intervalNs = 0 then (false, state)
  else
    let state :=
      if state.windowStartNs = 0 ∨ now - state.windowStartNs ≥ intervalNs then ⟨now, 0⟩ else state
    if state.eventsInWindow ≥ burst then (true, state)
    else (false, { state with eventsInWindow := state.eventsInWindow + 1 })

def irqRatelimited (state : RatelimitState) (now : UInt64) (burst : UInt32) :
    Bool × RatelimitState :=
  if burst = 0 then (false, state) else state.limited now nsecPerSec burst

/-! ## Steps -/

inductive Pc where
  | idle
  | lookup (stream : Stream) (key : StackKey)
  | insert (stream : Stream) (key : StackKey)
  | lookupAgain (stream : Stream) (key : StackKey)
  | increment (stream : Stream) (key : StackKey)
  | countDrop (stream : Stream)
  deriving DecidableEq, Repr

structure State (ι : Type) where
  rlimit : Stream → ι → RatelimitState := fun _ _ => {}
  counts : Stream → Rows StackKey ι := fun _ => []
  droppedSamples : Stream → ι → UInt64 := fun _ _ => 0
  pcs : ι → Pc := fun _ => .idle
  events : Stream → Nat := fun _ => 0

inductive Action (ι : Type) where
  | probe (cpu : ι) (stream : Stream) (event : Event)
  | run (cpu : ι) (full : Bool)

section

variable {ι : Type} [DecidableEq ι] (s : State ι)

def State.goto (c : ι) (pc : Pc) : State ι := { s with pcs := update s.pcs c pc }

def State.setCounts (stream : Stream) (rows : Rows StackKey ι) : State ι :=
  { s with counts := update s.counts stream rows }

def State.run (s : State ι) (c : ι) (full : Bool) : Pc → Option (State ι)
  | .idle => none
  | .lookup stream key =>
    if PercpuHash.contains (s.counts stream) key then some (s.goto c (.increment stream key))
    else some (s.goto c (.insert stream key))
  | .insert stream key =>
    -- COMPAT_BPF_NOEXIST
    if PercpuHash.contains (s.counts stream) key || full then
      some (s.goto c (.lookupAgain stream key))
    else some ((s.setCounts stream (PercpuHash.insert (s.counts stream) key c)).goto c .idle)
  | .lookupAgain stream key =>
    if PercpuHash.contains (s.counts stream) key then some (s.goto c (.increment stream key))
    else some (s.goto c (.countDrop stream))
  | .increment stream key =>
    some ((s.setCounts stream (PercpuHash.increment (s.counts stream) key c)).goto c .idle)
  | .countDrop stream =>
    some
      ({ s with
          droppedSamples := update s.droppedSamples stream
            (PercpuHash.bump c (s.droppedSamples stream)) }.goto c .idle)

def step (config : Config ι) (s : State ι) : Action ι → Option (State ι)
  | .probe c stream event =>
    match s.pcs c with
    | .idle =>
      if config.passes c event stream then
        let (limited, state) :=
          irqRatelimited (s.rlimit stream c) event.now (config.rateLimit stream)
        let s :=
          { s with
            rlimit := update s.rlimit stream (update (s.rlimit stream) c state)
            events := update s.events stream (s.events stream + 1) }
        some (s.goto c (if limited then .countDrop stream else .lookup stream event.key))
      else some s
    | _ => none
  | .run c full => s.run c full (s.pcs c)

/-- No probe is running. -/
def State.Quiet : Prop := ∀ c, s.pcs c = .idle

/-! ## Conservation -/

/-- What is counted for a stream, in its map and as dropped. -/
def State.sampled [Fintype ι] (stream : Stream) : Nat :=
  PercpuHash.total (s.counts stream) + PercpuHash.slots (s.droppedSamples stream)

end

end Huatuo.IrqTracing
