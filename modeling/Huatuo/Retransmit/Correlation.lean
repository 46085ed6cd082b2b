import Huatuo.Retransmit.Store

/-!
# The event correlator

`correlation.go` and `correlation_match.go`. Retransmissions and drops arrive in either order;
each side waits in a bounded store for the other. A retransmission leaves as exactly one
`CorrelationResult`: matched with a drop, or with the reason why none was found.

Every call first expires both stores at its own time. A match removes the stored partner; an
unmatched retransmission waits `retransmitRetentionDuration`, an unmatched drop is kept
`dropRetentionDuration`.

`Input` and `feed` package the three calls of the correlation loop, and `correlate` is a whole
session: any sequence of calls, then `drainRetransmits` at shutdown.
-/

namespace Huatuo.Retransmit

def retransmitRetentionDuration : Duration := 100 * Duration.millisecond
def retransmitQueueCapacity : Nat := 1024
def dropwatchQueueCapacity : Nat := 4096
def dropRetentionDuration : Duration := maxDropToRetransmitAge + retransmitRetentionDuration

/-- `types.CorrelationReason`. -/
inductive CorrelationReason where
  | matched
  | unsupported
  | warmup
  | waitTimeout
  | queueFull
  | interrupted
  deriving DecidableEq, Repr

structure WaitingRetransmit where
  event : RetransmitEvent
  matchFields : RetransmitEntry
  netNamespace : Bool
  deriving DecidableEq, Repr

structure CorrelationResult where
  retransmit : RetransmitEvent
  drop : Option DropEvent := none
  reason : CorrelationReason
  netNamespace : Bool := false
  deriving DecidableEq, Repr

structure EventCorrelator where
  dropStore : Store DropEvent
  retransmitStore : Store WaitingRetransmit
  readyFromMonotonicNS : Nat

/-- `newEventCorrelator`, given the monotonic clock reading. -/
def newEventCorrelator (readyFromMonotonicNS : Nat) : EventCorrelator where
  dropStore := newStore dropwatchQueueCapacity dropRetentionDuration (by decide) (by decide)
  retransmitStore :=
    newStore retransmitQueueCapacity retransmitRetentionDuration (by decide) (by decide)
  readyFromMonotonicNS := readyFromMonotonicNS

/-! ## Matching -/

/-- One iteration of the loop of `matchAndRemoveDrop`. The latest drop wins, and among drops
of one instant the latest arrival. -/
def dropLoopStep (retransmit : RetransmitEntry) (acc : Option (StoreEntry DropEvent) × Bool)
    (candidate : StoreEntry DropEvent) : Option (StoreEntry DropEvent) × Bool :=
  let drop := candidate.value
  if !isSameNetNamespace drop.ns retransmit.ns then acc
  else if !isDropCandidateForRetransmit drop retransmit then (acc.1, true)
  else
    match acc.1 with
    | none => (some candidate, true)
    | some best =>
      if drop.kernelObservedNS > best.value.kernelObservedNS ∨
          (drop.kernelObservedNS = best.value.kernelObservedNS ∧
            candidate.sequence > best.sequence) then
        (some candidate, true)
      else (some best, true)

variable (c : EventCorrelator)

def matchAndRemoveDrop (retransmit : RetransmitEntry) : Option DropEvent × Bool × EventCorrelator :=
  let acc := (c.dropStore.entriesForFlow retransmit.flow).foldl (dropLoopStep retransmit)
    (none, false)
  match acc.1 with
  | none => (none, acc.2, c)
  | some best => (some best.value, acc.2, { c with dropStore := c.dropStore.remove best })

/-- `waiting.netNamespace = true`. -/
def WaitingRetransmit.mark (w : WaitingRetransmit) : WaitingRetransmit :=
  { w with netNamespace := true }

/-- One iteration of the loop of `matchAndRemoveRetransmit`. The earliest arrival wins; a
waiter of the same namespace is marked whether or not it wins. -/
def waitingLoopStep (drop : DropEvent)
    (acc : Option (StoreEntry WaitingRetransmit) × Store WaitingRetransmit)
    (candidate : StoreEntry WaitingRetransmit) :
    Option (StoreEntry WaitingRetransmit) × Store WaitingRetransmit :=
  if !isSameNetNamespace drop.ns candidate.value.matchFields.ns then acc
  else
    let store := acc.2.modify candidate.address WaitingRetransmit.mark
    let candidate := { candidate with value := candidate.value.mark }
    if !isDropCandidateForRetransmit drop candidate.value.matchFields then (acc.1, store)
    else
      match acc.1 with
      | none => (some candidate, store)
      | some best =>
        if candidate.sequence < best.sequence then (some candidate, store)
        else (some best, store)

def matchAndRemoveRetransmit (drop : DropEvent) : Option WaitingRetransmit × EventCorrelator :=
  let acc := (c.retransmitStore.entriesForFlow drop.flow).foldl (waitingLoopStep drop)
    (none, c.retransmitStore)
  match acc.1 with
  | none => (none, { c with retransmitStore := acc.2 })
  | some best => (some best.value, { c with retransmitStore := acc.2.remove best })

/-! ## Processing -/

/-- The result of an expired wait. Event time decides, so that a delayed delivery cannot
change the startup classification. -/
def expiredResult (readyFromMonotonicNS : Nat) (waiting : WaitingRetransmit) :
    CorrelationResult where
  retransmit := waiting.event
  reason :=
    if waiting.event.record.kernelObservedNS < readyFromMonotonicNS then .warmup
    else .waitTimeout
  netNamespace := waiting.netNamespace

def expireRetransmitPendingEvents (now : Time) : List CorrelationResult × EventCorrelator :=
  let expired := c.retransmitStore.takeAllExpired now
  (expired.1.map fun e => expiredResult c.readyFromMonotonicNS e.value,
    { c with
      dropStore := (c.dropStore.takeAllExpired now).2
      retransmitStore := expired.2 })

/-- The part of `processRetransmitEvent` after both stores have been expired. -/
def admitRetransmit (event : RetransmitEvent) (now : Time) :
    List CorrelationResult × EventCorrelator :=
  match retransmitEntryFromEvent event with
  | none => ([{ retransmit := event, reason := .unsupported }], c)
  | some entry =>
    if entry.kind = .unsupported ∨ entry.hasSequenceRange = false then
      ([{ retransmit := event, reason := .unsupported }], c)
    else
      match matchAndRemoveDrop c entry with
      | (some drop, netNamespace, c') =>
        ([{ retransmit := event, drop := some drop, reason := .matched,
            netNamespace := netNamespace }], c')
      | (none, netNamespace, c') =>
        let waiting : WaitingRetransmit :=
          { event := event, matchFields := entry, netNamespace := netNamespace }
        let added := c'.retransmitStore.add waiting entry.flow now
        (added.1.toList.map fun evicted =>
            { retransmit := evicted.value.event, reason := .queueFull,
              netNamespace := evicted.value.netNamespace },
          { c' with retransmitStore := added.2 })

def processRetransmitEvent (event : RetransmitEvent) (now : Time) :
    List CorrelationResult × EventCorrelator :=
  let expired := expireRetransmitPendingEvents c now
  let admitted := admitRetransmit expired.2 event now
  (expired.1 ++ admitted.1, admitted.2)

/-- The part of `processDropEvent` after both stores have been expired. -/
def admitDrop (event : DropEvent) (now : Time) : List CorrelationResult × EventCorrelator :=
  let hasNamespace := event.ns.cookie != 0 || event.ns.inode != 0
  let hasFlow := event.flow.source.addr.isValid && event.flow.destination.addr.isValid
  if !hasNamespace || !hasFlow then ([], c)
  else
    match matchAndRemoveRetransmit c event with
    | (some waiting, c') =>
      ([{ retransmit := waiting.event, drop := some event, reason := .matched,
          netNamespace := waiting.netNamespace }], c')
    | (none, c') => ([], { c' with dropStore := (c'.dropStore.add event event.flow now).2 })

def processDropEvent (event : DropEvent) (now : Time) : List CorrelationResult × EventCorrelator :=
  let expired := expireRetransmitPendingEvents c now
  let admitted := admitDrop expired.2 event now
  (expired.1 ++ admitted.1, admitted.2)

def drainRetransmits (now : Time) : List CorrelationResult × EventCorrelator :=
  let expired := expireRetransmitPendingEvents c now
  let drained := expired.2.retransmitStore.drain
  (expired.1 ++ drained.1.map fun waiting =>
      { retransmit := waiting.value.event, reason := .interrupted,
        netNamespace := waiting.value.netNamespace },
    { expired.2 with retransmitStore := drained.2 })

def nextDeadline : Option Time :=
  match c.dropStore.nextDeadline, c.retransmitStore.nextDeadline with
  | some drop, some waiting => some (if drop.before waiting then drop else waiting)
  | some drop, none => some drop
  | none, waiting => waiting

/-! ## Sessions -/

/-- One call of the correlation loop. -/
inductive Input where
  | retransmit (event : RetransmitEvent)
  | drop (event : DropEvent)
  | expire
  deriving DecidableEq, Repr

def feed (input : Input) (now : Time) : List CorrelationResult × EventCorrelator :=
  match input with
  | .retransmit event => processRetransmitEvent c event now
  | .drop event => processDropEvent c event now
  | .expire => expireRetransmitPendingEvents c now

/-- Results with the time of the call that returned them, and the correlator afterwards. -/
def feedAll (c : EventCorrelator) :
    List (Input × Time) → List (Time × CorrelationResult) × EventCorrelator
  | [] => ([], c)
  | (input, now) :: rest =>
    let fed := feed c input now
    let later := feedAll fed.2 rest
    (fed.1.map (fun r => (now, r)) ++ later.1, later.2)

/-- A whole session: the calls in order, then the shutdown drain. -/
def correlate (readyFromMonotonicNS : Nat) (inputs : List (Input × Time)) (shutdown : Time) :
    List (Time × CorrelationResult) :=
  let fed := feedAll (newEventCorrelator readyFromMonotonicNS) inputs
  fed.1 ++ (drainRetransmits fed.2 shutdown).1.map fun r => (shutdown, r)

end Huatuo.Retransmit
