import Mathlib.Algebra.Ring.Nat
import Huatuo.Lib.Dictionary
import Huatuo.Lib.Slice
import Huatuo.Profiling.Labels

/-!
# Aggregating profiling samples

`internal/profiling/aggregation` and the decoding functions of `internal/profiling/window`: samples
are kept once per stack and label identity, with dictionaries for frames, stacks and label sets.

Values of aggregated samples are updated in place, so `Samples` is a slice in a heap, which several
profiles could share. The elements of the other slices never change once they are appended, and they
are lists. `maphash` is an arbitrary function on contents; a map is a function that is `none`, or an
empty chain of nodes, where it has no entry. Indexing out of range, which panics in Go, is `none`.
-/

namespace Huatuo.Profiling

structure AggregatedSample where
  userStack : Nat
  kernelStack : Nat
  labelSet : Nat
  value : Int64
  deriving DecidableEq, Inhabited

structure AggregatedProfile where
  timeNanos : Int := 0
  durationNanos : Int := 0
  frames : List ProfileFrame := []
  callStacks : List (List Nat) := []
  labelSets : List (List ProfileLabel) := []
  samples : Slice := {}
  deriving DecidableEq

structure Sample where
  userFrames : List ProfileFrame := []
  kernelFrames : List ProfileFrame := []
  labels : List ProfileLabel := []
  value : Int64
  deriving DecidableEq

/-! ## Windows -/

/-- `AddValues`. -/
def addValues (a b : Int64) : Except String Int64 :=
  if (0 < b ∧ Int64.maxValue - b < a) ∨ (b < 0 ∧ a < Int64.minValue - b) then
    .error ("profiling value addition overflows int64: " ++ toString a ++ " + " ++ toString b)
  else .ok (a + b)

/-- The frames of a stack, by their IDs. -/
def AggregatedProfile.resolve (profile : AggregatedProfile) (stack : List Nat) :
    Option (List ProfileFrame) :=
  stack.mapM fun id => profile.frames[id]?

/-- The frames of a stack, by its ID. -/
def AggregatedProfile.stackFrames (profile : AggregatedProfile) (id : Nat) :
    Option (List ProfileFrame) :=
  if id ≠ 0 then (profile.callStacks[id - 1]?).bind profile.resolve else some []

/-- `AppendFrames`: the frames, and where those of the kernel start. -/
def appendFrames (dst : List ProfileFrame) (a : AggregatedProfile) (sample : AggregatedSample) :
    Option (List ProfileFrame × Nat) :=
  (a.stackFrames sample.userStack).bind fun user =>
    (a.stackFrames sample.kernelStack).map fun kernel =>
      (dst ++ user ++ kernel, (dst ++ user).length)

/-- `Labels`. -/
def labelsOf (a : AggregatedProfile) (sample : AggregatedSample) : Option (List ProfileLabel) :=
  if sample.labelSet = 0 then some [] else a.labelSets[sample.labelSet - 1]?

/-! ## Aggregators -/

structure SampleKey where
  userStack : Nat
  kernelStack : Nat
  labelSet : Nat
  deriving DecidableEq

/-- What `maphash` makes of frames and of labels, under the aggregator's seed. -/
structure Hashes where
  stack : List ProfileFrame → UInt64
  labelSet : List ProfileLabel → UInt64

structure Aggregator where
  profile : AggregatedProfile := {}
  frameIDs : ProfileFrame → Option Nat := fun _ => none
  stackBuckets : UInt64 → List Nat := fun _ => []
  labelBuckets : UInt64 → List Nat := fun _ => []
  sampleIndexByKey : SampleKey → Option Nat := fun _ => none

/-- `uint32(n)`. -/
def uint32 (n : Nat) : Nat := n % 2 ^ 32

namespace Aggregator

variable (hash : Hashes) (a : Aggregator)

def findStackID (frames : List ProfileFrame) : Nat × UInt64 :=
  if frames.isEmpty then (0, 0)
  else
    let h := hash.stack frames
    (Dictionary.find (a.stackBuckets h) fun stackID =>
      (a.profile.callStacks[stackID - 1]?).bind a.profile.resolve = some frames, h)

def findLabelSetID (labels : List ProfileLabel) : Nat × UInt64 :=
  if labels.isEmpty then (0, 0)
  else
    let h := hash.labelSet labels
    (Dictionary.find (a.labelBuckets h) fun labelSetID =>
      a.profile.labelSets[labelSetID - 1]? = some labels, h)

/-- One turn of the loop of `insertStack`. -/
def insertFrame (frame : ProfileFrame) : Nat × Aggregator :=
  match a.frameIDs frame with
  | some id => (id, a)
  | none =>
    let id := uint32 a.profile.frames.length
    (id, { a with
      frameIDs := Function.update a.frameIDs frame (some id)
      profile := { a.profile with frames := a.profile.frames ++ [frame] } })

/-- The loop of `insertStack`. -/
def insertFrames (a : Aggregator) : List ProfileFrame → List Nat × Aggregator
  | [] => ([], a)
  | frame :: frames =>
    let inserted := a.insertFrame frame
    let rest := insertFrames inserted.2 frames
    (inserted.1 :: rest.1, rest.2)

def insertStack (frames : List ProfileFrame) (h : UInt64) : Nat × Aggregator :=
  if frames.isEmpty then (0, a)
  else
    let inserted := a.insertFrames frames
    let a := inserted.2
    let callStacks := a.profile.callStacks ++ [inserted.1]
    let id := uint32 callStacks.length
    (id, { a with
      profile := { a.profile with callStacks := callStacks }
      stackBuckets := Dictionary.insert a.stackBuckets h id })

def insertLabelSet (labels : List ProfileLabel) (h : UInt64) : Nat × Aggregator :=
  let labelSets := a.profile.labelSets ++ [labels]
  let id := uint32 labelSets.length
  (id, { a with
    profile := { a.profile with labelSets := labelSets }
    labelBuckets := Dictionary.insert a.labelBuckets h id })

/-- The stack of the user side of a new aggregated sample. -/
def ensureUserStack (sample : Sample) (user : Nat × UInt64) : Nat × Aggregator :=
  if user.1 = 0 then a.insertStack sample.userFrames user.2 else (user.1, a)

/-- The stack of the kernel side. Only the stack of the user side could have been added since both
were looked up. -/
def ensureKernelStack (sample : Sample) (user kernel : Nat × UInt64) (userStack : Nat) :
    Nat × Aggregator :=
  if kernel.1 = 0 ∧ ¬ sample.kernelFrames.isEmpty then
    if user.1 = 0 ∧ ¬ sample.userFrames.isEmpty ∧ user.2 = kernel.2 ∧
        sample.userFrames = sample.kernelFrames then (userStack, a)
    else a.insertStack sample.kernelFrames kernel.2
  else (kernel.1, a)

def ensureLabelSet (sample : Sample) (labels : Nat × UInt64) : Nat × Aggregator :=
  if labels.1 = 0 ∧ ¬ sample.labels.isEmpty then a.insertLabelSet sample.labels labels.2
  else (labels.1, a)

/-- The dictionary entries that a new aggregated sample needs, and its key. -/
def insertEntries (sample : Sample) (user kernel labels : Nat × UInt64) : SampleKey × Aggregator :=
  let userStack := a.ensureUserStack sample user
  let kernelStack := userStack.2.ensureKernelStack sample user kernel userStack.1
  let labelSet := kernelStack.2.ensureLabelSet sample labels
  (⟨userStack.1, kernelStack.1, labelSet.1⟩, labelSet.2)

/-- The index of the sample that has the key, if all three parts of the key are known. -/
def findSample (sample : Sample) (key : SampleKey) : Option Nat :=
  let knownUserStack := key.userStack ≠ 0 ∨ sample.userFrames.isEmpty
  let knownKernelStack := key.kernelStack ≠ 0 ∨ sample.kernelFrames.isEmpty
  let knownLabelSet := key.labelSet ≠ 0 ∨ sample.labels.isEmpty
  if knownUserStack ∧ knownKernelStack ∧ knownLabelSet then a.sampleIndexByKey key else none

/-- The end of `Add`: a sample with an identity that is new. -/
def appendSample (heap : Heap AggregatedSample) (a : Aggregator) (sample : Sample)
    (user kernel labels : Nat × UInt64) : Heap AggregatedSample × Aggregator :=
  let inserted := a.insertEntries sample user kernel labels
  let key := inserted.1
  let a := inserted.2
  let appended := heap.append a.profile.samples
    { userStack := key.userStack
      kernelStack := key.kernelStack
      labelSet := key.labelSet
      value := sample.value }
  (appended.1, { a with
    sampleIndexByKey := Function.update a.sampleIndexByKey key (some a.profile.samples.len)
    profile := { a.profile with samples := appended.2 } })

/-- `Add`, with what becomes of the heap and the aggregator. -/
def add (heap : Heap AggregatedSample) (a : Aggregator) :
    Option Sample → Except String Unit × Heap AggregatedSample × Aggregator
  | none => (.error "profiling sample is required", heap, a)
  | some sample =>
    match validateLabels sample.labels with
    | .error err => (.error err, heap, a)
    | .ok () =>
      let user := a.findStackID hash sample.userFrames
      let kernel := a.findStackID hash sample.kernelFrames
      let labels := a.findLabelSetID hash sample.labels
      match a.findSample sample ⟨user.1, kernel.1, labels.1⟩ with
      | some index =>
        match (heap.read a.profile.samples)[index]? with
        | none => (.error "index out of range", heap, a)
        | some old =>
          match addValues old.value sample.value with
          | .error err => (.error err, heap, a)
          | .ok value =>
            (.ok (), heap.write a.profile.samples index { old with value := value }, a)
      | none => (.ok (), a.appendSample heap sample user kernel labels)

/-- `Empty`. -/
def empty : Bool := a.profile.samples.len == 0

/-- `Drain`. The indexes are cleared, or dropped if they are large. -/
def drain : AggregatedProfile × Aggregator := (a.profile, {})

/-- `CopyProfile`. -/
def copyProfile (heap : Heap AggregatedSample) (a : Aggregator) :
    AggregatedProfile × Heap AggregatedSample :=
  let cloned := heap.clone a.profile.samples
  ({ a.profile with samples := cloned.2 }, cloned.1)

end Aggregator

end Huatuo.Profiling
