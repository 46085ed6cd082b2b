import Huatuo.Lib.RingQueue
import Huatuo.Lib.Runs
import Mathlib.Data.Finset.Basic
import Mathlib.Data.List.AList

/-!
# Container events

`internal/pod/container_events.go`. One producer commits snapshots of the containers of a node to a
store, and the store publishes what changed to bounded queues, one for each subscription. A queue
that overflows, or an error of the producer, makes the next successful `DrainEvents` return the full
set instead of events.

Every operation holds the lock of the store, so one operation is one step. A map is an association
list, and since Go ranges over a map in any order, its list may be permuted at any time (`reorder`).
The wake channel holds one token at most. The pointer comparison in `commit` is one of values:
records are not changed once they are in a snapshot. `lifeResources` is left out.

`replica` and `received` belong to the consumer of a subscription: the set that it gets by applying
its updates, and whether it has received a token since its last `DrainEvents`. `published` are the
events of the store so far.
-/

namespace Huatuo.Pod

abbrev containerEventQueueSize : Nat := 256

scoped instance : NeZero containerEventQueueSize := ⟨by decide⟩

def containerEventBatchSize : Nat := 64

structure ContainerKey where
  id : String := ""
  generation : UInt64 := 0
  deriving DecidableEq, Repr, Inhabited

structure ContainerRef where
  key : ContainerKey := {}
  initPID : Int := 0
  memoryCgroupPath : String := ""
  deriving DecidableEq, Repr, Inhabited

inductive ContainerEventKind where
  | unknown
  | created
  | deleted
  deriving DecidableEq, Repr, Inhabited

structure ContainerEvent where
  kind : ContainerEventKind := .unknown
  container : ContainerRef
  deriving DecidableEq, Repr, Inhabited

inductive ContainerUpdateMode where
  | unknown
  | full
  | incremental
  deriving DecidableEq, Repr

structure ContainerUpdate where
  revision : UInt64 := 0
  mode : ContainerUpdateMode := .unknown
  events : List ContainerEvent := []
  deriving DecidableEq, Repr

/-- What `os.SameFile` compares. -/
structure FileInfo where
  device : UInt64
  inode : UInt64
  deriving DecidableEq, Repr

structure ContainerRecord where
  ref : ContainerRef
  startTime : UInt64 := 0
  directory : Option FileInfo := none
  deriving DecidableEq, Repr

def ContainerRecord.sameInstance (r other : ContainerRecord) : Bool :=
  r.ref.initPID == other.ref.initPID && r.startTime == other.startTime &&
    r.ref.memoryCgroupPath == other.ref.memoryCgroupPath && r.directory == other.directory

/-- A nil record stands for a container that is there and not resolved yet. -/
structure ContainerSnapshot where
  records : AList (fun _ : String => Option ContainerRecord) := ∅
  isComplete : Bool := false

/-! ## Subscriptions -/

/-- `containerEvent`, an element of the queue. -/
structure QueuedEvent where
  event : ContainerEvent
  revision : UInt64
  deriving Inhabited

structure ContainerSubscription where
  wake : Bool
  queue : RingQueue QueuedEvent containerEventQueueSize := .clear
  needsFull : Bool
  isClosed : Bool := false
  replica : Finset ContainerRef := ∅
  received : Bool := false

namespace ContainerSubscription

def signal (s : ContainerSubscription) : ContainerSubscription := { s with wake := true }

/-- The body of the loop in `publish`. -/
def publish (s : ContainerSubscription) (item : QueuedEvent) : ContainerSubscription :=
  if s.needsFull then s.signal
  else if h : s.queue.count = containerEventQueueSize then
    { s with queue := .clear, needsFull := true }.signal
  else { s with queue := s.queue.push item (Nat.lt_of_le_of_ne s.queue.count_le h) }.signal

def closeLocked (s : ContainerSubscription) : ContainerSubscription :=
  { s with isClosed := true, queue := .clear, wake := false }

end ContainerSubscription

/-- The loop of `DrainEvents`: the events of a batch, the last revision, and the rest of the
queue. -/
def takeBatch : Nat → RingQueue QueuedEvent containerEventQueueSize → List ContainerEvent → UInt64 →
    List ContainerEvent × UInt64 × RingQueue QueuedEvent containerEventQueueSize
  | 0, queue, batch, revision => (batch, revision, queue)
  | room + 1, queue, batch, revision =>
    match queue.pop? with
    | none => (batch, revision, queue)
    | some (item, queue) => takeBatch room queue (batch ++ [item.event]) item.revision

/-! ## The store -/

abbrev Records := AList (fun _ : String => ContainerRecord)

structure ContainerStore where
  records : Records := ∅
  /-- all subscriptions; those that are not closed are the store's `subscribers` -/
  subscriptions : Nat → Option ContainerSubscription := fun _ => none
  revision : UInt64 := 0
  err : Option String := some "container manager is disabled"
  isActive : Bool := false
  published : List ContainerEvent := []

def errContainersUnavailable : String := "container view is unavailable"

namespace ContainerStore

variable (v : ContainerStore)

/-- Do something with every subscriber. -/
def forSubscribers (f : ContainerSubscription → ContainerSubscription) : ContainerStore :=
  { v with
    subscriptions := fun i => (v.subscriptions i).map fun s => if s.isClosed then s else f s }

def subscribe (i : Nat) : ContainerStore :=
  { v with subscriptions :=
    Function.update v.subscriptions i (some { wake := true, needsFull := true }) }

def drainEvents (s : ContainerSubscription) :
    ContainerSubscription × Except String ContainerUpdate :=
  if s.isClosed then (s, .error "container subscription is closed")
  else
    let s := { s with wake := false }
    match v.err with
    | some err => (s, .error err)
    | none =>
      if s.needsFull then
        ({ s with queue := .clear, needsFull := false },
          .ok
            { revision := v.revision
              mode := .full
              events := v.records.entries.map fun entry => { container := entry.2.ref } })
      else
        let (batch, revision, queue) := takeBatch containerEventBatchSize s.queue [] 0
        let s := { s with queue }
        (if queue.count > 0 then s.signal else s,
          .ok { revision, mode := .incremental, events := batch })

def publish (kind : ContainerEventKind) (ref : ContainerRef) : ContainerStore :=
  let event : ContainerEvent := { kind, container := ref }
  let v := { v with revision := v.revision + 1, published := v.published ++ [event] }
  v.forSubscribers (·.publish { event, revision := v.revision })

/-- The loop over the records in `commit`. -/
def deleteMissing (snapshot : ContainerSnapshot) (v : ContainerStore)
    (entry : (_ : String) × ContainerRecord) : ContainerStore :=
  if entry.1 ∈ snapshot.records then v
  else publish { v with records := v.records.erase entry.1 } .deleted entry.2.ref

/-- The end of the loop over the snapshot: a new instance. -/
def create (id : String) (record : ContainerRecord) : ContainerStore :=
  let record := { record with ref.key := { id, generation := v.revision + 1 } }
  publish { v with records := v.records.insert id record } .created record.ref

/-- The loop over the snapshot in `commit`. -/
def commitRecord (entry : (_ : String) × Option ContainerRecord) : ContainerStore :=
  match entry.2, v.records.lookup entry.1 with
  | none, _ => v
  | some record, none => v.create entry.1 record
  | some record, some previous =>
    if previous = record then v
    else if previous.sameInstance record then
      { v with records := v.records.insert entry.1 { record with ref.key := previous.ref.key } }
    else (v.publish .deleted previous.ref).create entry.1 record

def commit (snapshot : ContainerSnapshot) (syncErr : Option String) : ContainerStore :=
  if ¬v.isActive then v
  else
    let v := if snapshot.isComplete then v.records.entries.foldl (deleteMissing snapshot) v else v
    let v := snapshot.records.entries.foldl commitRecord v
    let wasUnavailable := v.err.isSome
    let v := { v with err := syncErr.map fun err => errContainersUnavailable ++ ": " ++ err }
    if wasUnavailable ∨ syncErr.isSome then
      v.forSubscribers fun s => { s with needsFull := true }.signal
    else v

/-- `start` of the controller. -/
def start : ContainerStore :=
  { v with isActive := true, err := some errContainersUnavailable }

/-- The end of the controller's `run`. -/
def stop : ContainerStore :=
  { v.forSubscribers ContainerSubscription.closeLocked with
    isActive := false
    err := some "container manager is disabled"
    records := ∅ }

end ContainerStore

/-! ## Consumers -/

/-- Apply an event to a set of containers. -/
def ContainerEvent.apply (set : Finset ContainerRef) (event : ContainerEvent) :
    Finset ContainerRef :=
  match event.kind with
  | .created => insert event.container set
  | .deleted => set.erase event.container
  | .unknown => set

def ContainerUpdate.apply (set : Finset ContainerRef) (update : ContainerUpdate) :
    Finset ContainerRef :=
  match update.mode with
  | .full => (update.events.map ContainerEvent.container).toFinset
  | .incremental => update.events.foldl ContainerEvent.apply set
  | .unknown => set

/-- The subscription after a `DrainEvents`, whose update the consumer applies. -/
def ContainerSubscription.afterDrain (drained : ContainerSubscription)
    (result : Except String ContainerUpdate) : ContainerSubscription :=
  { drained with
    received := false
    replica := match result with
      | .ok update => update.apply drained.replica
      | .error _ => drained.replica }

inductive Action where
  | start
  | stop
  | reorder (records : Records)
  | commit (snapshot : ContainerSnapshot) (syncErr : Option String)
  | subscribe (subscription : Nat)
  /-- the consumer receives from `Notify` -/
  | receive (subscription : Nat)
  | drainEvents (subscription : Nat)
  | close (subscription : Nat)

def step (v : ContainerStore) : Action → Option ContainerStore
  | .start => if v.isActive then none else some v.start
  | .stop => if v.isActive then some v.stop else none
  | .reorder records =>
    if records.entries.Perm v.records.entries then some { v with records } else none
  | .commit snapshot syncErr => some (v.commit snapshot syncErr)
  | .subscribe i => if v.isActive ∧ v.subscriptions i = none then some (v.subscribe i) else none
  | .receive i =>
    match v.subscriptions i with
    | some s =>
      if s.wake then
        some
          { v with
            subscriptions := Function.update v.subscriptions i
              (some { s with wake := false, received := true }) }
      else none
    | none => none
  | .drainEvents i =>
    match v.subscriptions i with
    | some s =>
      let (drained, result) := v.drainEvents s
      some
        { v with
          subscriptions := Function.update v.subscriptions i (some (drained.afterDrain result)) }
    | none => none
  | .close i =>
    match v.subscriptions i with
    | some s =>
      some
        { v with
          subscriptions := Function.update v.subscriptions i
            (some (if s.isClosed then s else s.closeLocked)) }
    | none => none

end Huatuo.Pod
