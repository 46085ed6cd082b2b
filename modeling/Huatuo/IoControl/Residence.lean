import Huatuo.IoControl.Wait
import Huatuo.Lib.Runs

/-!
# Residence times in the IOCOST wait queues

The three programs of `bpf/iocost_tracing.c` that account for the time a bio waits. An admission
puts the start time under the address of the bio into `iocost_pending_map`. A wake callback takes it
out again, into a frame of its CPU, before it runs: the callback may wake the issuer of the bio,
which reuses the address on another CPU before the return probe. The return probe settles the time
from the frame, or puts the entry back when the callback has woken nobody.

Any number of CPUs run the programs, interleaved at every access to the clock, to a shared map or to
the status. What only the own CPU can see, the frame and the locals, changes with the access before
it. The kernel reads succeed, and the maps have room.

The kernel is the state `bios` and the rules for `enter`, `wake`, `wakeIssuer` and `leave`: a bio is
admitted when its address is free; the enqueuer holds the lock of the wait queue until the program
is done, and the waker until its return probe is done; the address is free again as soon as the
issuer is woken. A callback that has woken the issuer returns 0 and any other -1.

`Admission` and `id`, in an entry of the pending map and at a program point, say which admission it
is about; the programs do not read them. `finished` has the wakes that returned 0, as the kernel
sees them.
-/

namespace Huatuo.IoControl.Residence

open Function
open IoControl (WaitKey waitAdd)

/-! ## Maps -/

inductive Failure where
  | identity
  | pendingCollision
  | pendingDelete
  | timeRollback
  | ownerInsert
  deriving DecidableEq, Repr

structure OwnerState where
  css : UInt64
  cssSerial : UInt64
  major : UInt32
  minor : UInt32
  deriving DecidableEq, Repr

structure Pending where
  startNs : UInt64 := 0
  operation : UInt32 := 0
  reserved : UInt32 := 0
  id : Nat := 0
  deriving DecidableEq, Repr

def OwnerState.key (owner : OwnerState) (operation : UInt32) : WaitKey where
  css := owner.css
  cssSerial := owner.cssSerial
  major := owner.major
  minor := owner.minor
  operation

/-- A frame is idle if it has no bio. -/
structure WakeFrame (β : Type) where
  bioPtr : Option β := none
  endNs : UInt64 := 0
  pending : Pending := {}
  key : WaitKey := { css := 0, cssSerial := 0, major := 0, minor := 0, operation := 0 }

def reqOpMask : UInt32 := 0xff
def reqOpRead : UInt32 := 0
def reqOpWrite : UInt32 := 1

/-! ## Program points -/

structure Admission where
  id : Nat
  operation : UInt32
  startNs : UInt64 := 0
  deriving DecidableEq, Repr

/-- `iocost_read_bio` returns 1. -/
def Admission.isReadWrite (admission : Admission) : Bool :=
  admission.operation = reqOpRead ∨ admission.operation = reqOpWrite

/-- A bio in a wait queue. -/
structure Waiter (β γ : Type) where
  iocg : γ
  bio : β
  admission : Admission

/-- A callback: its waiter, and the time of its entry. -/
structure Wake (β γ : Type) extends Waiter β γ where
  entryNs : UInt64 := 0

inductive Pc (β γ : Type) where
  | idle
  -- kprobe_iocg_kick_waitq
  | admitClock (w : Waiter β γ)
  | admitUpdate (w : Waiter β γ)
  -- kprobe_iocg_wake_fn
  | wakeClock (w : Wake β γ)
  | wakeLookup (w : Wake β γ)
  | ownerLookup (w : Wake β γ)
  | ownerInsert (w : Wake β γ)
  | ownerLookupAgain (w : Wake β γ)
  | aggregateLookup (w : Wake β γ)
  | aggregateInsert (w : Wake β γ)
  | pendingDelete (w : Wake β γ)
  -- iocg_wake_fn, before and after it wakes the issuer
  | callback (w : Wake β γ)
  | woken (w : Wake β γ)
  -- kretprobe_iocg_wake_fn
  | restore (w : Wake β γ)
  | counterLoad (w : Wake β γ)
  | counterStore (w : Wake β γ) (packed : UInt64)

inductive BioState (γ : Type) where
  | free
  | busy
  | waiting (iocg : γ) (admission : Admission)

structure Settled (ι : Type) where
  cpu : ι
  id : Nat
  key : WaitKey
  waitNs : UInt64

structure State (β γ ι : Type) where
  clock : UInt64
  failure : Option Failure := none
  pendingMap : β → Option Pending := fun _ => none
  ownerStateMap : γ → Option OwnerState := fun _ => none
  waitAggMap : WaitKey → Option (ι → UInt64) := fun _ => none
  frames : ι → WakeFrame β := fun _ => {}
  pcs : ι → Pc β γ := fun _ => .idle
  bios : β → BioState γ := fun _ => .free
  admissions : Nat := 0
  settlements : List (Settled ι) := []
  finished : List (Settled ι) := []

inductive Action (β γ ι : Type) where
  | tick (clock : UInt64)
  | enter (cpu : ι) (iocg : γ) (bio : β) (opf : UInt32)
  | wake (cpu : ι) (bio : β)
  | wakeIssuer (cpu : ι)
  | leave (cpu : ι)
  | run (cpu : ι)

section

variable {β γ ι : Type} [DecidableEq β] [DecidableEq γ] [DecidableEq ι] (s : State β γ ι)

def State.goto (c : ι) (pc : Pc β γ) : State β γ ι :=
  { s with pcs := update s.pcs c pc }

def State.setBio (bio : β) (state : BioState γ) : State β γ ι :=
  { s with bios := update s.bios bio state }

def State.setPending (bio : β) (pending : Option Pending) : State β γ ι :=
  { s with pendingMap := update s.pendingMap bio pending }

def State.setFrame (c : ι) (frame : WakeFrame β) : State β γ ι :=
  { s with frames := update s.frames c frame }

def State.clearFrame (c : ι) : State β γ ι :=
  s.setFrame c { s.frames c with bioPtr := none }

def State.fail (failure : Failure) : State β γ ι :=
  { s with failure := some failure }

/-! ## The kernel -/

/-- The program of an admission is done, and the lock is released. -/
def State.admitted (c : ι) (w : Waiter β γ) : State β γ ι :=
  (s.goto c .idle).setBio w.bio (.waiting w.iocg w.admission)

/-- A callback returned -1, and its return probe is done: the bio waits on. -/
def State.waitsOn (c : ι) (w : Wake β γ) : State β γ ι :=
  s.admitted c w.toWaiter

variable (identity : γ → OwnerState)

/-- The owner of a group, as it was first seen. -/
def State.owner (iocg : γ) : OwnerState :=
  (s.ownerStateMap iocg).getD (identity iocg)

/-- A callback returned 0, and its return probe is done. -/
def State.finish (c : ι) (w : Wake β γ) : State β γ ι :=
  { s.goto c .idle with
    finished :=
      if w.admission.isReadWrite then
        ⟨c, w.admission.id, (s.owner identity w.iocg).key w.admission.operation,
          w.entryNs - w.admission.startNs⟩ :: s.finished
      else s.finished }

/-! ## The programs -/

def State.run (s : State β γ ι) (c : ι) : Pc β γ → Option (State β γ ι)
  | .idle => none
  | .callback _ => none
  | .woken _ => none
  | .admitClock w =>
    let w := { w with admission := { w.admission with startNs := s.clock } }
    if s.failure.isSome || !w.admission.isReadWrite then some (s.admitted c w)
    else some (s.goto c (.admitUpdate w))
  | .admitUpdate w =>
    let pending : Pending :=
      { startNs := w.admission.startNs, operation := w.admission.operation, id := w.admission.id }
    some ((s.setPending w.bio (some pending)).admitted c w)
  | .wakeClock w =>
    let w := { w with entryNs := s.clock }
    some ((s.clearFrame c).goto c (if s.failure.isSome then .callback w else .wakeLookup w))
  | .wakeLookup w =>
    match s.pendingMap w.bio with
    | none => some (s.goto c (.callback w))
    | some pending =>
      if pending.startNs = 0 ∨ pending.reserved ≠ 0 then
        some ((s.fail .identity).goto c (.callback w))
      else
        some ((s.setFrame c { s.frames c with endNs := w.entryNs, pending }).goto c
          (.ownerLookup w))
  | .ownerLookup w =>
    match s.ownerStateMap w.iocg with
    | some owner =>
      some ((s.setFrame c
        { s.frames c with key := owner.key (s.frames c).pending.operation }).goto c
          (.aggregateLookup w))
    | none =>
      if (identity w.iocg).cssSerial = 0 then some ((s.fail .identity).goto c (.callback w))
      else some (s.goto c (.ownerInsert w))
  | .ownerInsert w =>
    -- BPF_NOEXIST, and -EEXIST is no error
    some
      ({ s with
          ownerStateMap := update s.ownerStateMap w.iocg
            (some (s.owner identity w.iocg)) }.goto c (.ownerLookupAgain w))
  | .ownerLookupAgain w =>
    match s.ownerStateMap w.iocg with
    | none => some ((s.fail .ownerInsert).goto c (.callback w))
    | some owner =>
      some ((s.setFrame c
        { s.frames c with key := owner.key (s.frames c).pending.operation }).goto c
          (.aggregateLookup w))
  | .aggregateLookup w =>
    if (s.waitAggMap (s.frames c).key).isSome then some (s.goto c (.pendingDelete w))
    else some (s.goto c (.aggregateInsert w))
  | .aggregateInsert w =>
    some
      ({ s with
          waitAggMap := update s.waitAggMap (s.frames c).key
            (some ((s.waitAggMap (s.frames c).key).getD fun _ => 0)) }.goto c (.pendingDelete w))
  | .pendingDelete w =>
    if (s.pendingMap w.bio).isSome then
      some (((s.setPending w.bio none).setFrame c { s.frames c with bioPtr := some w.bio }).goto c
        (.callback w))
    else some (((s.fail .pendingDelete).clearFrame c).goto c (.callback w))
  | .restore w =>
    match (s.frames c).bioPtr with
    | none => some (s.waitsOn c w)
    | some bio =>
      -- BPF_NOEXIST
      if (s.pendingMap bio).isSome then
        some (((s.fail .pendingCollision).clearFrame c).waitsOn c w)
      else some (((s.setPending bio (some (s.frames c).pending)).clearFrame c).waitsOn c w)
  | .counterLoad w =>
    if (s.frames c).bioPtr.isNone then some (s.finish identity c w)
    else
      match s.waitAggMap (s.frames c).key with
      | none => some ((s.clearFrame c).finish identity c w)
      | some counter =>
        if (s.frames c).endNs < (s.frames c).pending.startNs then
          some (((s.fail .timeRollback).clearFrame c).finish identity c w)
        else some (s.goto c (.counterStore w (counter c)))
  | .counterStore w packed =>
    let frame := s.frames c
    let waitNs := frame.endNs - frame.pending.startNs
    some
      ({ s with
          waitAggMap := update s.waitAggMap frame.key
            ((s.waitAggMap frame.key).map fun counter =>
              update counter c (waitAdd packed waitNs))
          settlements := ⟨c, frame.pending.id, frame.key, waitNs⟩ :: s.settlements }.clearFrame
            c |>.finish identity c w)

/-! ## Steps -/

def step (s : State β γ ι) : Action β γ ι → Option (State β γ ι)
  | .tick clock => if s.clock ≤ clock then some { s with clock } else none
  | .enter c iocg bio opf =>
    match s.pcs c, s.bios bio with
    | .idle, .free =>
      some
        { (s.setBio bio .busy).goto c
          (.admitClock ⟨iocg, bio, ⟨s.admissions, opf &&& reqOpMask, 0⟩⟩)
          with admissions := s.admissions + 1 }
    | _, _ => none
  | .wake c bio =>
    match s.pcs c, s.bios bio with
    | .idle, .waiting iocg admission =>
      some ((s.setBio bio .busy).goto c (.wakeClock ⟨⟨iocg, bio, admission⟩, 0⟩))
    | _, _ => none
  | .wakeIssuer c =>
    match s.pcs c with
    | .callback w => some ((s.setBio w.bio .free).goto c (.woken w))
    | _ => none
  | .leave c =>
    match s.pcs c with
    | .callback w => some (s.goto c (.restore w))
    | .woken w => some (s.goto c (.counterLoad w))
    | _ => none
  | .run c => s.run identity c (s.pcs c)

end

end Huatuo.IoControl.Residence
