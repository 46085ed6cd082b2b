import Huatuo.Native.RingBuffer

/-!
# Physical usage

`bpf/native_physical_usage.c` on top of the rings. `trace_page_alloc` keeps a copy of its event
under the address of the page, and `trace_page_free` sends the copy again with a negative value. The
stack IDs of the copy are from the map that was selected at the allocation, while the ring is
selected at the free: `drainRingBuffer` looks an ID up in the map of the ring that it drains, and
only an ID that is missing there in the other map.

An allocation selects its ring in one step, and in a later one it gets its stack IDs, stores its
event and is about to count it. A free takes the stored event, and selects a ring in the next step.
Programs that filter their call out or sample it away take no step. The stacks get into the maps by
`recordStack`, and nothing is removed from them. An update of `page_to_stackid` fails if the page is
not in the map and the map is full.

Each event carries the number and the page of its allocation and the map of its stack IDs.
`allocated` has the event of every allocation.
-/

namespace Huatuo.Native.PhysicalUsage

open Function

structure Config where
  cpus : Nat
  /-- `profiler_folio_npages` -/
  folioNpages : Bool
  ksym : Trace → List String
  usym : UInt32 → Trace → List String
  convert : Int64 → Except String Int64

/-- Retained mode. -/
def Config.native (config : Config) : Native.Config where
  cpus := config.cpus
  needsFallback := true
  ksym := config.ksym
  usym := config.usym
  convert := config.convert

/-- A program on a CPU before its event is about to be emitted. -/
inductive Program where
  | idle
  | allocating (ring : Ring)
  | freeing (event : Event)
  deriving DecidableEq, Repr

structure State where
  native : Native.State := {}
  pageToStackID : UInt64 → Option Event := fun _ => none
  programs : Nat → Program := fun _ => .idle
  allocated : List Event := []

/-- What a call of `trace_page_alloc` finds: the current task, the results of `bpf_get_stackid`, the
pages of the folio, and whether `page_to_stackid` is full. -/
structure Allocation where
  page : UInt64
  pidTgid : UInt64
  comm : String
  userstack : Int32
  kernstack : Int32
  nrPages : Int64 := 1
  full : Bool := false

def Allocation.event (call : Allocation) (config : Config) (number : Nat) (ring : Ring) :
    Event where
  pidTgid := call.pidTgid
  comm := call.comm
  userstack := call.userstack
  kernstack := call.kernstack
  value := if config.folioNpages then call.nrPages else 1
  allocation := number
  page := call.page
  stackMap := ring

/-- `bpf_get_stackid` returns an error or the ID of a stack in the map. -/
def inMap (s : Native.State) (ring : Ring) (stackID : Int32) : Bool :=
  stackID < 0 || (s.stackMap ring stackID).isSome

/-- `trace_page_alloc` from the stack IDs to the emit. -/
def tracePageAlloc (config : Config) (s : State) (cpu : Nat) (ring : Ring) (call : Allocation) :
    State :=
  let event := call.event config s.allocated.length ring
  let programs := update s.programs cpu .idle
  if (event.userstack < 0 ∧ event.kernstack < 0) ∨ event.value ≤ 0 then { s with programs }
  else
    { native := { s.native with
        producers := update s.native.producers cpu (.selected ring event) }
      pageToStackID :=
        if call.full ∧ s.pageToStackID call.page = none then s.pageToStackID
        else update s.pageToStackID call.page (some event)
      programs
      allocated := s.allocated ++ [event] }

/-- `trace_page_free` before it selects a ring. -/
def tracePageFree (config : Config) (s : State) (cpu : Nat) (page : UInt64) (nrPages : Int32) :
    State :=
  match s.pageToStackID page with
  | none => s
  | some stackInfo =>
    if config.folioNpages then
      let remaining := stackInfo.value - nrPages.toInt64
      { s with
        pageToStackID := update s.pageToStackID page
          (if remaining = 0 then none else some { stackInfo with value := remaining })
        programs := update s.programs cpu
          (.freeing { stackInfo with value := -nrPages.toInt64 }) }
    else
      { s with
        pageToStackID := update s.pageToStackID page none
        programs := update s.programs cpu (.freeing { stackInfo with value := -1 }) }

inductive Action where
  /-- a step of the rings; the events are those of this program -/
  | native (action : Native.Action)
  | selectAlloc (cpu : Nat)
  | tracePageAlloc (cpu : Nat) (call : Allocation)
  | tracePageFree (cpu : Nat) (page : UInt64) (nrPages : Int32)
  | selectFree (cpu : Nat)

/-- A program may start on the CPU. -/
def State.canStart (s : State) (config : Config) (cpu : Nat) : Prop :=
  cpu < config.cpus ∧ s.native.detached = false ∧ s.native.producers cpu = .idle ∧
    s.programs cpu = .idle

instance (s : State) (config : Config) (cpu : Nat) : Decidable (s.canStart config cpu) :=
  inferInstanceAs (Decidable (_ ∧ _ ∧ _ ∧ _))

/-- Events come from the programs here, and a final drain waits for all of them. -/
def nativeStep (config : Config) (s : State) : Native.Action → Option Native.State
  | .select .. => none
  | .drainFinal =>
    if ∀ cpu < config.cpus, s.programs cpu = .idle then
      Native.step config.native s.native .drainFinal
    else none
  | action => Native.step config.native s.native action

def step (config : Config) (s : State) : Action → Option State
  | .native action => (nativeStep config s action).map fun native => { s with native }
  | .selectAlloc cpu =>
    if s.canStart config cpu then
      some
        { s with
          programs := update s.programs cpu
            (.allocating (Ring.ofTransferCount s.native.transferCount)) }
    else none
  | .tracePageAlloc cpu call =>
    match s.programs cpu with
    | .allocating ring =>
      if inMap s.native ring call.userstack ∧ inMap s.native ring call.kernstack then
        some (tracePageAlloc config s cpu ring call)
      else none
    | _ => none
  | .tracePageFree cpu page nrPages =>
    if s.canStart config cpu then some (tracePageFree config s cpu page nrPages) else none
  | .selectFree cpu =>
    match s.programs cpu with
    | .freeing event =>
      (Native.step config.native s.native (.select cpu event)).map fun native =>
        { s with native, programs := update s.programs cpu .idle }
    | _ => none

end Huatuo.Native.PhysicalUsage
