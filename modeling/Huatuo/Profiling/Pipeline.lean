import Mathlib.Algebra.Ring.Nat
import Huatuo.Lib.Runs
import Huatuo.Profiling.Aggregator
import Huatuo.Time

/-!
# The profiling pipeline

`internal/profiling/pipeline` with `ClampNegativeSamples` of `internal/profiling/formatter`: batches
go through a bounded queue into an aggregator, and every tick of the aggregation interval, and the
end of the input, turn what it holds into a window for the formatter.

A window takes the accumulated samples with it, except that physical usage for the remote store is
kept: there a window is a copy with negative totals set to zero, while the aggregator keeps the
signed ones. Samples live in a heap, so that a copy which shared them would show.

`Run` ends with an error if a call of `Add` or of the formatter fails, if samples of a physical
usage profile were lost, or if its context is canceled. `accepted`, `consumed` and the batches next
to each window record what happened; nothing reads them. Logging is left out.
-/

namespace Huatuo.Profiling

/-! ## Batches -/

structure SampleBatch where
  samples : List Sample := []
  /-- a map, by reason -/
  droppedSamples : List (String × UInt64) := []
  deriving DecidableEq

def dropReasonCollection : String := "collection"

def maxBatchSamples : Nat := 256
def maxBatchTextBytes : Nat := 2 ^ 20
def maxSampleFrames : Nat := 4096
def maxSampleLabels : Nat := 64

/-- The texts of a sample, in the order in which `SampleTextSize` counts them. -/
def Sample.texts (sample : Sample) : List String :=
  (sample.userFrames ++ sample.kernelFrames).flatMap (fun frame => [frame.name, frame.file]) ++
    sample.labels.flatMap fun label => [label.name, label.stringValue, label.numberUnit]

/-- The loop of `SampleTextSize` over texts. -/
def textSize (size : Nat) : List String → Except String Nat
  | [] => .ok size
  | text :: rest =>
    if text.utf8ByteSize > maxBatchTextBytes - size then
      .error ("profiling sample text exceeds " ++ toString maxBatchTextBytes ++ " bytes")
    else textSize (size + text.utf8ByteSize) rest

def sampleTextSize (sample : Sample) : Except String Nat :=
  if sample.userFrames.length > maxSampleFrames ∨ sample.kernelFrames.length > maxSampleFrames ∨
      sample.labels.length > maxSampleLabels then
    .error "profiling sample exceeds frame or label limit"
  else textSize 0 sample.texts

/-- The loop of `validateBatch` over samples. -/
def validateSamples (i size : Nat) : List Sample → Except String Unit
  | [] => .ok ()
  | sample :: rest =>
    match sampleTextSize sample with
    | .error err => .error ("profiling sample " ++ toString i ++ ": " ++ err)
    | .ok n =>
      if n > maxBatchTextBytes - size then
        .error ("profiling batch text exceeds " ++ toString maxBatchTextBytes ++ " bytes")
      else validateSamples (i + 1) (size + n) rest

def validateBatch : Option SampleBatch → Except String Unit
  | none => .error "profiling sample batch is required"
  | some batch =>
    if batch.samples.length > maxBatchSamples then
      .error ("profiling batch exceeds " ++ toString maxBatchSamples ++ " samples")
    else
      match batch.droppedSamples.find? fun entry => entry.1 ≠ dropReasonCollection with
      | some (reason, _) => .error ("provider cannot submit drop reason " ++ reason.quote)
      | none => validateSamples 0 0 batch.samples

/-- `DroppedSamples[types.DropReasonCollection]`. -/
def SampleBatch.dropped (batch : SampleBatch) : UInt64 :=
  (batch.droppedSamples.lookup dropReasonCollection).getD 0

/-- Collects the samples of a provider into batches of bounded size. -/
structure BatchBuilder where
  samples : List Sample := []
  textBytes : Nat := 0

/-- What `enqueue` does at a call. -/
abbrev Enqueue := SampleBatch → Except String Unit

/-- What a call returns, the builder after it, and what it has handed to `enqueue`. -/
structure Outcome where
  result : Except String Unit
  builder : BatchBuilder
  handed : List SampleBatch := []

def BatchBuilder.flush (builder : BatchBuilder) (enqueue : Enqueue) : Outcome :=
  if builder.samples.length = 0 then { result := .ok (), builder }
  else
    let batch : SampleBatch := { samples := builder.samples }
    { result := enqueue batch, builder := {}, handed := [batch] }

/-- The end of `Append`. -/
def BatchBuilder.insert (builder : BatchBuilder) (sample : Sample) (size : Nat) : BatchBuilder where
  samples := builder.samples ++ [sample]
  textBytes := builder.textBytes + size

def BatchBuilder.append (builder : BatchBuilder) (sample : Sample) (enqueue : Enqueue) : Outcome :=
  match sampleTextSize sample with
  | .error err => { result := .error err, builder }
  | .ok size =>
    -- a difference of `int`s, which could be negative
    if builder.samples.length = maxBatchSamples ∨
        (size : Int) > (maxBatchTextBytes : Int) - builder.textBytes then
      let flushed := builder.flush enqueue
      match flushed.result with
      | .error _ => flushed
      | .ok () => { flushed with builder := flushed.builder.insert sample size }
    else { result := .ok (), builder := builder.insert sample size }

/-! ## Clamping -/

/-- One turn of the loop of `ClampNegativeSamples`. -/
def clampSample (samples : Slice) (heap : Heap AggregatedSample) (i : Nat) :
    Heap AggregatedSample :=
  match (heap.read samples)[i]? with
  | none => heap
  | some sample =>
    if 0 ≤ sample.value then heap else heap.write samples i { sample with value := 0 }

/-- `ClampNegativeSamples`, for one profile. -/
def clampNegativeSamples (heap : Heap AggregatedSample) (profile : AggregatedProfile) :
    Heap AggregatedSample :=
  (List.range profile.samples.len).foldl (clampSample profile.samples) heap

/-! ## The pipeline -/

inductive AggregationMode where
  | streaming
  | oneShot
  deriving DecidableEq, Repr

structure PipelineConfig where
  hash : Hashes
  /-- the room that allocations leave -/
  spare : Nat → Nat
  aggregationMode : AggregationMode
  profileType : String
  containerID : String
  /-- `Name` of the formatter -/
  formatterName : String

def profileTypePhysicalUsage : String := "memory:physical_usage:bytes:space:bytes"
def formatRemoteStore : String := "remote-store"

/-- Whether a snapshot keeps what it shows. -/
def PipelineConfig.retain (config : PipelineConfig) : Bool :=
  config.profileType == profileTypePhysicalUsage && config.formatterName == formatRemoteStore

structure AggregationWindow where
  containerID : String
  profileType : String
  /-- the map's entry for `DropReasonCollection`, the only one that `Run` makes -/
  droppedSamples : Option UInt64
  aggregated : AggregatedProfile
  deriving DecidableEq

structure QueuedBatch where
  batch : SampleBatch
  enqueuedAt : Time
  deriving DecidableEq

/-- A window as it was given to the formatter, and the batches that had been consumed. -/
structure Emission where
  window : AggregationWindow
  consumed : List SampleBatch
  deriving DecidableEq

structure Pipeline where
  heap : Heap AggregatedSample
  queue : List QueuedBatch := []
  closed : Bool := false
  aggregator : Aggregator := {}
  windowStart : Time := Time.zero
  droppedSamples : Option UInt64 := none
  emitted : List Emission := []
  /-- what `Run` returned -/
  result : Option (Except String Unit) := none
  accepted : List SampleBatch := []
  consumed : List SampleBatch := []

/-- `NewPipeline`. -/
def newPipeline (config : PipelineConfig) : Pipeline where
  heap := .empty config.spare

def pipelineQueueCapacity : Nat := 16

/-- `t.UnixNano()`. -/
def unixNano (t : Time) : Int := t - 62135596800000000000

namespace Pipeline

variable (config : PipelineConfig)

/-- The loop of `consumeBatch`. -/
def addAll (heap : Heap AggregatedSample) (a : Aggregator) (i : Nat) :
    List Sample → Except String (Heap AggregatedSample × Aggregator)
  | [] => .ok (heap, a)
  | sample :: rest =>
    match a.add config.hash heap (some sample) with
    | (.error err, _) => .error ("aggregate sample " ++ toString i ++ ": " ++ err)
    | (.ok (), heap', a') => addAll heap' a' (i + 1) rest

variable (p : Pipeline)

def consumeBatch (item : QueuedBatch) : Except String Pipeline :=
  let batch := item.batch
  if batch.samples.isEmpty ∧ batch.dropped = 0 then .ok p
  else
    match addAll config p.heap p.aggregator 0 batch.samples with
    | .error err => .error err
    | .ok (heap, aggregator) =>
      .ok { p with
        heap := heap
        aggregator := aggregator
        windowStart := if p.windowStart.isZero then item.enqueuedAt else p.windowStart
        droppedSamples :=
          if batch.dropped ≠ 0 then some (p.droppedSamples.getD 0 + batch.dropped)
          else p.droppedSamples }

/-- The window of a snapshot, and what is left in the pipeline. -/
def sealWindow (stop : Time) : AggregationWindow × Pipeline :=
  let start := if p.windowStart.isZero then stop else p.windowStart
  let sealed (aggregated : AggregatedProfile) : AggregationWindow :=
    { containerID := config.containerID
      profileType := config.profileType
      droppedSamples := p.droppedSamples
      aggregated := aggregated }
  if config.retain then
    let copied := p.aggregator.copyProfile p.heap
    (sealed { copied.1 with timeNanos := unixNano stop },
      { p with
        heap := clampNegativeSamples copied.2 copied.1
        windowStart := Time.zero
        droppedSamples := none })
  else
    let drained := p.aggregator.drain
    (sealed { drained.1 with timeNanos := unixNano start, durationNanos := (stop - start : Int) },
      { p with
        aggregator := drained.2
        windowStart := Time.zero
        droppedSamples := none })

/-- `snapshot`. `formatterErr` is what the formatter returns. -/
def snapshot (stop : Time) (formatterErr : Option String) : Except String Pipeline :=
  if ¬ config.retain ∧ p.aggregator.empty ∧ p.droppedSamples.isNone then .ok p
  else if p.droppedSamples.isSome ∧ config.profileType = profileTypePhysicalUsage then
    .error ("physical usage collection lost samples: map[collection:" ++
      toString (p.droppedSamples.getD 0) ++ "]")
  else
    let sealed := p.sealWindow config stop
    match formatterErr with
    | some err => .error err
    | none =>
      .ok { sealed.2 with
        emitted := p.emitted ++ [{ window := sealed.1, consumed := p.consumed }] }

inductive Action where
  /-- `Enqueue` puts a batch into the queue -/
  | enqueue (batch : SampleBatch) (now : Time)
  | close
  /-- `Run` takes the next batch -/
  | consume
  /-- `Run` takes a tick -/
  | tick (now : Time) (formatterErr : Option String)
  /-- `Run` finds the queue closed -/
  | finish (now : Time) (formatterErr : Option String)
  | cancel

/-- `Run` returns an error. -/
def fail (err : String) : Pipeline := { p with result := some (.error err) }

def step (p : Pipeline) : Action → Option Pipeline
  | .enqueue batch now =>
    match validateBatch (some batch) with
    | .error _ => none
    | .ok () =>
      if p.closed ∨ pipelineQueueCapacity ≤ p.queue.length then none
      else
        some { p with
          queue := p.queue ++ [{ batch := batch, enqueuedAt := now }]
          accepted := p.accepted ++ [batch] }
  | .close => if p.closed then none else some { p with closed := true }
  | .consume =>
    if p.result.isSome then none
    else
      match p.queue with
      | [] => none
      | item :: rest =>
        match consumeBatch config p item with
        | .error err => some (p.fail err)
        | .ok p' => some { p' with queue := rest, consumed := p.consumed ++ [item.batch] }
  | .tick now formatterErr =>
    if p.result.isSome ∨ config.aggregationMode ≠ .streaming then none
    else
      match p.snapshot config now formatterErr with
      | .error err => some (p.fail err)
      | .ok p' => some p'
  | .finish now formatterErr =>
    if p.result.isSome ∨ ¬ p.closed ∨ ¬ p.queue.isEmpty then none
    else
      match p.snapshot config now formatterErr with
      | .error err => some (p.fail err)
      | .ok p' => some { p' with result := some (.ok ()) }
  | .cancel => if p.result.isSome then none else some (p.fail "context canceled")

end Pipeline

end Huatuo.Profiling
