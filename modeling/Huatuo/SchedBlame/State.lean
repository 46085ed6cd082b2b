import Huatuo.SchedBlame.Wire

/-!
# The sched-blame ledger

`schedBlameState` of `core/autotracing/sched_blame.go` and `sched_blame_report.go`. Up to 84
containers are targets. A slice says which task group ran and which targets waited meanwhile; its
time is charged to the runtime and internal contention of the target that ran, and to the external
contention of every other target that waited, there also in a matrix by competitor. Once a second
the totals are compared with their history and reset.

The fixed arrays are functions of the index, and the matrix is flat as in the source. Dense IDs are
bytes there, and `nonTarget` marks a task group that is no target. Ratios are `Float`s. The scaling
of a duration by the sampling rate is a parameter. `runtimeTotal` keeps the sum of what was added to
a runtime since its last reset, with no bound; nothing reads it. The debug writer, the uploader and
the log, which only read the state, are left out.
-/

namespace Huatuo.SchedBlame

open Function
open Words (forEachBit)

def nonTarget : Nat := 0xff

/-! ## Targets -/

structure Target where
  cgid : UInt64 := 0
  containerID : String := ""
  name : String := ""
  cgroupPath : String := ""
  cssID : UInt16 := 0
  cssKnown : Bool := false
  deriving DecidableEq

def Target.active (target : Target) : Bool := target.cgid ≠ 0 ∧ target.containerID ≠ ""

def sameTargetOwner (left right : Target) : Bool :=
  if !left.active || !right.active then !left.active && !right.active
  else left.containerID = right.containerID ∧ left.cgid = right.cgid

def TargetBitmap.set (bitmap : TargetBitmap) (targetIndex : Nat) : TargetBitmap :=
  if targetIndex < maxTargets then
    if targetIndex < baseBitmapBits then
      { bitmap with base := bitmap.base ||| (1 <<< UInt32.ofNat targetIndex) }
    else
      { bitmap with extra := bitmap.extra ||| (1 <<< UInt64.ofNat (targetIndex - baseBitmapBits)) }
  else bitmap

def targetsBitmap (targets : Nat → Target) : TargetBitmap :=
  (List.range maxTargets).foldl
    (fun bitmap targetIndex =>
      if (targets targetIndex).active then bitmap.set targetIndex else bitmap)
    {}

/-! ## State -/

def ratioHistorySize : Nat := 600
def externalMinimumSamples : Nat := 60
def externalPercentile : Nat := 99
def topCompetitors : Nat := 10

structure RatioHistory where
  values : Nat → Float := fun _ => 0
  next : Nat := 0
  count : Nat := 0

def RatioHistory.add (history : RatioHistory) (value : Float) : RatioHistory where
  values := update history.values history.next value
  next := (history.next + 1) % ratioHistorySize
  count := if history.count < ratioHistorySize then history.count + 1 else history.count

def RatioHistory.p99 (history : RatioHistory) : Option Float :=
  if history.count < externalMinimumSamples then none
  else
    let values := ((List.range history.count).map history.values).mergeSort fun a b => a ≤ b
    let rank := (externalPercentile * values.length + 100 - 1) / 100
    values[rank - 1]?

structure State where
  cssCgids : Nat → UInt64 := fun _ => 0
  cssKnown : Nat → Bool := fun _ => false
  targetDenseByCSSID : Nat → Nat := fun _ => nonTarget
  targets : Nat → Target := fun _ => {}
  activeTargetBitmap : TargetBitmap := {}
  externalChargeNsMatrix : Nat → UInt64 := fun _ => 0
  runtimeNsByTarget : Nat → UInt64 := fun _ => 0
  internalContentionNsByTarget : Nat → UInt64 := fun _ => 0
  externalContentionNsByTarget : Nat → UInt64 := fun _ => 0
  throttledTimeNsByTarget : Nat → UInt64 := fun _ => 0
  externalContentionRatioHistory : Nat → RatioHistory := fun _ => {}
  invalidThrottleDenseIDs : UInt64 := 0
  runtimeTotal : Nat → Nat := fun _ => 0

def externalChargeIndex (competitorCSSID targetIndex : Nat) : Nat :=
  competitorCSSID * maxTargets + targetIndex

/-! ## Target assignments -/

/-- Set the charges of one target to zero, row by row. -/
def clearCharges (targetIndex : Nat) (matrix : Nat → UInt64) : Nat → UInt64 :=
  (List.range maxCSSIDs).foldl
    (fun matrix competitorCSSID =>
      update matrix (externalChargeIndex competitorCSSID targetIndex) 0)
    matrix

variable (state : State)

def clearReusedTargetSlot (targetIndex : Nat) : State :=
  { state with
    runtimeNsByTarget := update state.runtimeNsByTarget targetIndex 0
    internalContentionNsByTarget := update state.internalContentionNsByTarget targetIndex 0
    externalContentionNsByTarget := update state.externalContentionNsByTarget targetIndex 0
    throttledTimeNsByTarget := update state.throttledTimeNsByTarget targetIndex 0
    externalContentionRatioHistory :=
      update state.externalContentionRatioHistory targetIndex {}
    externalChargeNsMatrix := clearCharges targetIndex state.externalChargeNsMatrix
    runtimeTotal := update state.runtimeTotal targetIndex 0 }

/-- The map from the cgids of active targets to their indexes. -/
def denseIDByCgid (targets : Nat → Target) : UInt64 → Option Nat :=
  (List.range maxTargets).foldl
    (fun dense targetIndex =>
      if (targets targetIndex).active then
        update dense (targets targetIndex).cgid (some targetIndex)
      else dense)
    fun _ => none

/-- A task group belongs to a target from now on. -/
def assignCSSID (cssID targetIndex : Nat) : State :=
  { state with
    targetDenseByCSSID := update state.targetDenseByCSSID cssID targetIndex
    targets := update state.targets targetIndex
      { state.targets targetIndex with cssID := UInt16.ofNat cssID, cssKnown := true } }

def rebuildCSSID (dense : UInt64 → Option Nat) (state : State) (cssID : Nat) : State :=
  if state.cssKnown cssID then
    match dense (state.cssCgids cssID) with
    | none => state
    | some targetIndex => assignCSSID state cssID targetIndex
  else state

def rebuildTargetDenseByCSSID : State :=
  (List.range maxCSSIDs).foldl (rebuildCSSID (denseIDByCgid state.targets))
    { state with
      targetDenseByCSSID := fun _ => nonTarget
      targets := fun targetIndex => { state.targets targetIndex with cssKnown := false } }

def clearReusedTargetSlots (targets : Nat → Target) : State :=
  (List.range maxTargets).foldl
    (fun cleared targetIndex =>
      if sameTargetOwner (cleared.targets targetIndex) (targets targetIndex) then cleared
      else clearReusedTargetSlot cleared targetIndex)
    state

def setTargets (targets : Nat → Target) : State :=
  rebuildTargetDenseByCSSID
    { clearReusedTargetSlots state targets with
      targets
      activeTargetBitmap := targetsBitmap targets }

/-! ## Records -/

/-- The target that a task group belonged to loses its CSS ID. -/
def forgetCSSID (cssID : UInt16) : State :=
  let oldTargetIndex := state.targetDenseByCSSID cssID.toNat
  { state with
    targetDenseByCSSID := update state.targetDenseByCSSID cssID.toNat nonTarget
    targets :=
      if oldTargetIndex ≠ nonTarget ∧ oldTargetIndex < maxTargets ∧
          (state.targets oldTargetIndex).cssKnown ∧
          (state.targets oldTargetIndex).cssID = cssID then
        update state.targets oldTargetIndex
          { state.targets oldTargetIndex with cssKnown := false }
      else state.targets }

def handleIdentity (identity : Identity) : State :=
  if identity.cssID.toNat ≥ maxCSSIDs ∨ identity.cgid = 0 then state
  else
    let known :=
      { state with
        cssCgids := update state.cssCgids identity.cssID.toNat identity.cgid
        cssKnown := update state.cssKnown identity.cssID.toNat true }
    let forgotten := forgetCSSID known identity.cssID
    match (List.range maxTargets).find? fun targetIndex =>
        (forgotten.targets targetIndex).active &&
          identity.cgid = (forgotten.targets targetIndex).cgid
      with
    | none => forgotten
    | some targetIndex => assignCSSID forgotten identity.cssID.toNat targetIndex

/-- Charge a target that waited while another task group ran. -/
def chargeExternal (competitorCSSID competitorDenseID : Nat) (amount : UInt64) (state : State)
    (targetIndex : Nat) : State :=
  if targetIndex ≠ competitorDenseID ∧ state.activeTargetBitmap.contains targetIndex then
    let chargeIndex := externalChargeIndex competitorCSSID targetIndex
    { state with
      externalChargeNsMatrix := update state.externalChargeNsMatrix chargeIndex
        (state.externalChargeNsMatrix chargeIndex + amount)
      externalContentionNsByTarget := update state.externalContentionNsByTarget targetIndex
        (state.externalContentionNsByTarget targetIndex + amount) }
  else state

/-- Charge the target that ran. -/
def chargeRuntime (targetIndex : Nat) (waiting : Bool) (amount : UInt64) (state : State) : State :=
  { state with
    runtimeNsByTarget := update state.runtimeNsByTarget targetIndex
      (state.runtimeNsByTarget targetIndex + amount)
    internalContentionNsByTarget :=
      if waiting then
        update state.internalContentionNsByTarget targetIndex
          (state.internalContentionNsByTarget targetIndex + amount)
      else state.internalContentionNsByTarget
    runtimeTotal := update state.runtimeTotal targetIndex
      (state.runtimeTotal targetIndex + amount.toNat) }

/-- The base and the extra bitmap, in two loops over the set bits. -/
def chargeWaiting (packedSlice : PackedSlice) (competitorCSSID competitorDenseID : Nat)
    (amount : UInt64) (state : State) : State :=
  let waitingTargets := (packedSlice.packedBase >>> 12) &&& 0xfffff
  let charged :=
    forEachBit 32 (chargeExternal competitorCSSID competitorDenseID amount) 32 waitingTargets.toNat
      state
  forEachBit 64
    (fun state bit => chargeExternal competitorCSSID competitorDenseID amount state
      (baseBitmapBits + bit))
    64 packedSlice.bitmapExtra.toNat charged

def handleThrottle (throttle : Throttle) : State :=
  if throttle.denseID.toNat ≥ maxTargets then
    { state with invalidThrottleDenseIDs := state.invalidThrottleDenseIDs + 1 }
  else if state.activeTargetBitmap.contains throttle.denseID.toNat then
    { state with
      throttledTimeNsByTarget := update state.throttledTimeNsByTarget
        throttle.denseID.toNat
        (state.throttledTimeNsByTarget throttle.denseID.toNat + throttle.durationNs.toUInt64) }
  else state

section

variable (scaledDuration : UInt64 → UInt64)

def handlePackedSlice (state : State) (packedSlice : PackedSlice) : State :=
  let competitorCSSID := (unpackSliceBase packedSlice).1.toNat
  let estimatedDuration := scaledDuration (unpackSliceBase packedSlice).2
  if !state.cssKnown competitorCSSID || estimatedDuration == 0 then state
  else
    let competitorDenseID := state.targetDenseByCSSID competitorCSSID
    let charged :=
      if competitorDenseID ≠ nonTarget ∧ competitorDenseID < maxTargets then
        chargeRuntime competitorDenseID (sliceHasTarget packedSlice competitorDenseID)
          estimatedDuration state
      else state
    chargeWaiting packedSlice competitorCSSID competitorDenseID estimatedDuration charged

def handleBatch (state : State) (batch : Batch) : State :=
  batch.slices.foldl (handlePackedSlice scaledDuration) state

def handleRecord (state : State) (record : Record) : State :=
  match record.kind with
  | .invalid => state
  | .identity => handleIdentity state record.identity
  | .throttle => handleThrottle state record.throttle
  | .batch => handleBatch scaledDuration state record.batch

end

/-! ## Reports -/

structure CompetitorCharge where
  cgid : UInt64
  chargeNs : UInt64
  deriving DecidableEq, Repr

/-- Add to the entry of a cgid in `chargeByCgid`. -/
def addCharge (cgid charge : UInt64) : List CompetitorCharge → List CompetitorCharge
  | [] => [⟨cgid, charge⟩]
  | entry :: rest =>
    if entry.cgid = cgid then ⟨cgid, entry.chargeNs + charge⟩ :: rest
    else entry :: addCharge cgid charge rest

def chargeByCgid (targetIndex : Nat) : List CompetitorCharge :=
  (List.range maxCSSIDs).foldl
    (fun charges competitorCSSID =>
      let charge := state.externalChargeNsMatrix (externalChargeIndex competitorCSSID targetIndex)
      let cgid := state.cssCgids competitorCSSID
      if !state.cssKnown competitorCSSID || charge == 0 || cgid == 0 then charges
      else addCharge cgid charge charges)
    []

/-- The competitors of a target, the largest charge first. The cgids differ, so that the order does
not depend on that of the map. -/
def externalCompetitors (targetIndex : Nat) : List CompetitorCharge :=
  (chargeByCgid state targetIndex).mergeSort fun left right =>
    if left.chargeNs ≠ right.chargeNs then left.chargeNs > right.chargeNs
    else left.cgid ≤ right.cgid

def topExternalCompetitors (targetIndex : Nat) : List CompetitorCharge :=
  (externalCompetitors state targetIndex).take topCompetitors

structure ExternalEvent where
  targetIndex : Nat
  currentExternalContentionRatio : Float
  currentInternalContentionRatio : Float
  internalSampleValid : Bool
  historicalP99 : Float
  externalAnomalyK : Float
  externalContentionRatioThreshold : Float
  targetRuntimeNs : UInt64
  internalContentionNs : UInt64
  externalContentionNs : UInt64
  throttledTimeNs : UInt64
  externalCompetitors : List CompetitorCharge

/-- One target: the event that it reports, and its ratio for the history. -/
def evaluateTarget (externalAnomalyK : Float) (state : State) (targetIndex : Nat) :
    Option ExternalEvent × Option Float :=
  let runtime := state.runtimeNsByTarget targetIndex
  let internal := state.internalContentionNsByTarget targetIndex
  let external := state.externalContentionNsByTarget targetIndex
  let externalDemand := runtime + external
  let p99 := (state.externalContentionRatioHistory targetIndex).p99
  let historicalP99 := p99.getD 0
  let threshold := historicalP99 * externalAnomalyK
  let externalSampleValid := externalDemand != 0
  let internalSampleValid := runtime != 0
  let currentExternal :=
    if externalSampleValid then external.toFloat / externalDemand.toFloat else 0
  let currentInternal := if internalSampleValid then internal.toFloat / runtime.toFloat else 0
  let breached :=
    externalSampleValid && p99.isSome && historicalP99 > 0 && currentExternal > threshold
  (if breached then
      some
        { targetIndex
          currentExternalContentionRatio := currentExternal
          currentInternalContentionRatio := currentInternal
          internalSampleValid
          historicalP99
          externalAnomalyK
          externalContentionRatioThreshold := threshold
          targetRuntimeNs := runtime
          internalContentionNs := internal
          externalContentionNs := external
          throttledTimeNs := state.throttledTimeNsByTarget targetIndex
          externalCompetitors := topExternalCompetitors state targetIndex }
    else none,
    if externalSampleValid then some currentExternal else none)

/-- The loop over the targets: the history of the current second is written after it is read. -/
def evaluateTargets (externalAnomalyK : Float) (state : State) :
    List Nat → State × List ExternalEvent
  | [] => (state, [])
  | targetIndex :: rest =>
    if state.activeTargetBitmap.contains targetIndex then
      let (event, ratio) := evaluateTarget externalAnomalyK state targetIndex
      let added :=
        match ratio with
        | none => state
        | some value =>
          { state with
            externalContentionRatioHistory :=
              update state.externalContentionRatioHistory targetIndex
                ((state.externalContentionRatioHistory targetIndex).add value) }
      let (final, events) := evaluateTargets externalAnomalyK added rest
      (final, event.toList ++ events)
    else evaluateTargets externalAnomalyK state rest

def evaluateExternalContentionRatios (externalAnomalyK : Float) (state : State) :
    State × List ExternalEvent :=
  let (evaluated, events) := evaluateTargets externalAnomalyK state (List.range maxTargets)
  ({ evaluated with
      runtimeNsByTarget := fun _ => 0
      internalContentionNsByTarget := fun _ => 0
      externalContentionNsByTarget := fun _ => 0
      throttledTimeNsByTarget := fun _ => 0
      externalChargeNsMatrix := fun _ => 0
      runtimeTotal := fun _ => 0 },
    events)

/-! ## Runs -/

inductive Call where
  | handleRecord (record : Record)
  | setTargets (targets : Nat → Target)
  | evaluate (externalAnomalyK : Float)

/-- Active targets have distinct cgids. -/
def DistinctTargets (targets : Nat → Target) : Prop :=
  ∀ i < maxTargets, ∀ j < maxTargets, (targets i).active → (targets j).active →
    (targets i).cgid = (targets j).cgid → i = j

def Call.Distinct : Call → Prop
  | setTargets targets => DistinctTargets targets
  | _ => True

def call (scaledDuration : UInt64 → UInt64) (state : State) : Call → State
  | .handleRecord record => handleRecord scaledDuration state record
  | .setTargets targets => setTargets state targets
  | .evaluate externalAnomalyK => (evaluateExternalContentionRatios externalAnomalyK state).1

/-- `newSchedBlameState` goes through a sequence of calls. -/
def runCalls (scaledDuration : UInt64 → UInt64) (calls : List Call) : State :=
  calls.foldl (call scaledDuration) {}

end Huatuo.SchedBlame
