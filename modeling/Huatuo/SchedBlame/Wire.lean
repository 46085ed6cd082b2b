import Huatuo.Lib.Words

/-!
# The sched-blame wire format

Both ends of the perf ring: the slices that `bpf/sched_blame.c` packs and batches on each CPU, and
the decoder of `core/autotracing/sched_blame.go`.

A slice is two words. The first holds the run time, the waiting flags of targets 0 to 19 and the CSS
ID of the task that ran, the second the flags of targets 20 to 83. A batch is submitted when it is
full or old; only the slices up to the next power of two of its count are copied, so a record ends
with slices of earlier batches. `EXTRA_BITMAP_U64_COUNT` is 1, its value in both sources.

The decoder writes into a record that the reader uses again and again, so what it leaves alone keeps
the values of earlier records. Its reads are guarded by the checks of the length, and `readLE` is
total. A lookup in a per-CPU array of one entry does not fail.
-/

namespace Huatuo.SchedBlame

open Words (Bytes toLE readLE bit32 bit64)

/-! ## Constants -/

def cssIDBits : Nat := 12
def maxCSSIDs : Nat := 1 <<< cssIDBits
def cssIDMask : UInt64 := 4095
def baseBitmapBits : Nat := 20
def extraBitmapU64Count : Nat := 1
def maxTargets : Nat := baseBitmapBits + 64 * extraBitmapU64Count
def maxDurationNs : UInt64 := 0xffffffff

def sliceSize : Nat := 8 * (1 + extraBitmapU64Count)
def batchHeaderSize : Nat := 8
def maxBatchSlices : Nat := 128
def batchValueSize : Nat := batchHeaderSize + maxBatchSlices * sliceSize
def identitySize : Nat := 16
def throttleSize : Nat := 8

def identityMagic : UInt16 := 0x1111
def throttleMagic : UInt16 := 0x2222
def batchMagic : UInt16 := 0x3333

def sliceBatchMaxAgeNs : UInt64 := 10000000

/-! ## Slices -/

/-- `struct waiting_target_bitmap`, and `schedBlameTargetBitmap`. -/
structure TargetBitmap where
  base : UInt32 := 0
  extra : UInt64 := 0
  deriving DecidableEq, Repr

/-- The flag of a target, where `set_waiting` puts it. -/
def TargetBitmap.contains (bitmap : TargetBitmap) (targetIndex : Nat) : Bool :=
  if targetIndex < maxTargets then
    if targetIndex < baseBitmapBits then bit32 bitmap.base targetIndex
    else bit64 bitmap.extra (targetIndex - baseBitmapBits)
  else false

structure PackedSlice where
  packedBase : UInt64 := 0
  bitmapExtra : UInt64 := 0
  deriving DecidableEq, Repr

def packSlice (durationNs : UInt64) (waiting : TargetBitmap) (cssIndex : UInt64) : PackedSlice where
  packedBase :=
    ((if durationNs > maxDurationNs then maxDurationNs else durationNs) <<< 32) |||
      ((waiting.base &&& 0xfffff).toUInt64 <<< 12) ||| cssIndex
  bitmapExtra := waiting.extra

def unpackSliceBase (packed : PackedSlice) : UInt16 × UInt64 :=
  ((packed.packedBase &&& cssIDMask).toUInt16, packed.packedBase >>> 32)

def sliceHasTarget (packed : PackedSlice) (targetIndex : Nat) : Bool :=
  if targetIndex < maxTargets then
    if targetIndex < baseBitmapBits then bit64 packed.packedBase (cssIDBits + targetIndex)
    else bit64 packed.bitmapExtra (targetIndex - baseBitmapBits)
  else false

/-! ## Batches on a CPU -/

structure SliceBatchEvent where
  magic : UInt16 := 0
  extraBitmapU64Count : UInt16 := 0
  count : UInt32 := 0
  packedSlices : Vector PackedSlice maxBatchSlices := .replicate maxBatchSlices {}

/-- The slices that are in the batch. -/
def SliceBatchEvent.slices (batch : SliceBatchEvent) : List PackedSlice :=
  batch.packedSlices.toList.take batch.count.toNat

def PackedSlice.bytes (packed : PackedSlice) : Bytes :=
  toLE 8 packed.packedBase.toNat ++ toLE 8 packed.bitmapExtra.toNat

/-- The memory of a batch. -/
def SliceBatchEvent.bytes (batch : SliceBatchEvent) : Bytes :=
  toLE 2 batch.magic.toNat ++ toLE 2 batch.extraBitmapU64Count.toNat ++ toLE 4 batch.count.toNat ++
    batch.packedSlices.toList.flatMap PackedSlice.bytes

/-- A call of `bpf_perf_event_output`. -/
structure Output where
  payload : Bytes
  accepted : Bool
  deriving DecidableEq

/-- What the programs on one CPU keep, and the calls of the perf helper so far. -/
structure PerCPU where
  batch : SliceBatchEvent := {}
  batchFirstTsNs : UInt64 := 0
  nPerfSubmissionFailures : UInt64 := 0
  nPerfSubmissionFailedSlices : UInt64 := 0
  outputs : List Output := []

def sliceBatchOutputSize (capacity : Nat) : Nat := 2 * 2 + 4 + sliceSize * capacity

/-- The capacity that `output_slice_batch` picks. -/
def outputCapacity (count : UInt32) : Nat :=
  if count ≤ 1 then 1
  else if count ≤ 2 then 2
  else if count ≤ 4 then 4
  else if count ≤ 8 then 8
  else if count ≤ 16 then 16
  else if count ≤ 32 then 32
  else if count ≤ 64 then 64
  else 128

section

variable (accepts : Nat → Bool)

/-- The kernel takes the `n`-th record if `accepts n`. -/
def outputSliceBatch (cpu : PerCPU) (count : UInt32) : Output where
  payload := cpu.batch.bytes.take (sliceBatchOutputSize (outputCapacity count))
  accepted := accepts cpu.outputs.length

def emitSliceBatch (cpu : PerCPU) : PerCPU :=
  let submitted := cpu.batch.count
  if submitted = 0 ∨ submitted > 128 then cpu
  else
    let result := outputSliceBatch accepts cpu submitted
    { batch := { cpu.batch with count := 0 }
      batchFirstTsNs := 0
      nPerfSubmissionFailures :=
        if result.accepted then cpu.nPerfSubmissionFailures else cpu.nPerfSubmissionFailures + 1
      nPerfSubmissionFailedSlices :=
        if result.accepted then cpu.nPerfSubmissionFailedSlices
        else cpu.nPerfSubmissionFailedSlices + submitted.toUInt64
      outputs := cpu.outputs ++ [result] }

def flushSliceBatchIfAged (now : UInt64) (cpu : PerCPU) : PerCPU :=
  let first := cpu.batchFirstTsNs
  if first = 0 ∨ now - first < sliceBatchMaxAgeNs then cpu else emitSliceBatch accepts cpu

/-- Put a slice at an index of the batch; the first one also sets the header and the age. -/
def storeSlice (now : UInt64) (packed : PackedSlice) (index : UInt32) (cpu : PerCPU) : PerCPU :=
  { cpu with
    batch :=
      { magic := if index = 0 then batchMagic else cpu.batch.magic
        extraBitmapU64Count :=
          if index = 0 then UInt16.ofNat extraBitmapU64Count else cpu.batch.extraBitmapU64Count
        count := index + 1
        packedSlices := cpu.batch.packedSlices.setIfInBounds index.toNat packed }
    batchFirstTsNs := if index = 0 then now else cpu.batchFirstTsNs }

/-- The value of `__SLICE_BATCH_SIZE__` that is used. -/
def clampBatchSize (sliceBatchSize : UInt32) : UInt32 :=
  if sliceBatchSize < 1 then 1 else if sliceBatchSize > 128 then 128 else sliceBatchSize

def appendSampledSlice (sliceBatchSize : UInt32) (now : UInt64) (packed : PackedSlice)
    (cpu : PerCPU) : PerCPU :=
  let full := cpu.batch.count ≥ 128
  let emptied := if full then emitSliceBatch accepts cpu else cpu
  let index := (if full then 0 else cpu.batch.count) &&& 127
  let stored := storeSlice now packed index emptied
  if stored.batch.count ≥ clampBatchSize sliceBatchSize then emitSliceBatch accepts stored
  else stored

end

/-! ## The perf ring -/

/-- A record as the reader gets it: the payload and the padding of the kernel, which brings the size
field of four bytes and the data to a multiple of eight. -/
def perfRecord (fill : Nat → UInt8) (payload : Bytes) : Bytes :=
  payload ++ (List.range ((8 - (payload.length + 4) % 8) % 8)).map fill

/-! ## The decoder -/

/-- `bits.Len32`. -/
def len32 (x : UInt32) : Nat := if x = 0 then 0 else x.toNat.log2 + 1

def batchCapacity (count : UInt32) : Nat := 1 <<< len32 (count - 1)

/-- `x &^ y` for naturals. -/
def andNot (x y : Nat) : Nat := x - (x &&& y)

def perfRawSampleSize (payloadSize : Nat) : Nat := andNot (payloadSize + 4 + 8 - 1) (8 - 1) - 4

structure Identity where
  magic : UInt16 := 0
  cssID : UInt16 := 0
  cgid : UInt64 := 0
  deriving DecidableEq, Repr

structure Throttle where
  magic : UInt16 := 0
  denseID : UInt16 := 0
  durationNs : UInt32 := 0
  deriving DecidableEq, Repr

structure Batch where
  count : UInt32 := 0
  packedSlices : Vector PackedSlice maxBatchSlices := .replicate maxBatchSlices {}

/-- The slices that `handleBatch` goes over. -/
def Batch.slices (batch : Batch) : List PackedSlice :=
  batch.packedSlices.toList.take batch.count.toNat

inductive RecordKind where
  | invalid
  | identity
  | throttle
  | batch
  deriving DecidableEq, Repr

structure Record where
  identity : Identity := {}
  throttle : Throttle := {}
  batch : Batch := {}
  kind : RecordKind := .invalid

variable (raw : Bytes)

def uint16At (offset : Nat) : UInt16 := UInt16.ofNat (readLE 2 raw offset)
def uint32At (offset : Nat) : UInt32 := UInt32.ofNat (readLE 4 raw offset)
def uint64At (offset : Nat) : UInt64 := UInt64.ofNat (readLE 8 raw offset)

/-- `%#x`. -/
def hex (n : Nat) : String := "0x" ++ String.ofList (Nat.toDigits 16 n)

def packedSliceAt (raw : Bytes) (index : Nat) : PackedSlice where
  packedBase := uint64At raw (batchHeaderSize + sliceSize * index)
  bitmapExtra := uint64At raw (batchHeaderSize + sliceSize * index + 8)

/-- The first `count` slices are overwritten. -/
def decodePackedSlices (count : Nat) (packedSlices : Vector PackedSlice maxBatchSlices) :
    Vector PackedSlice maxBatchSlices :=
  (List.range count).foldl (fun slices index =>
    slices.setIfInBounds index (packedSliceAt raw index))
    packedSlices

def decodeIdentity : Except String Identity :=
  if raw.length ≠ perfRawSampleSize identitySize then
    .error ("unexpected sched-blame record size: " ++ toString raw.length)
  else
    let decoded : Identity :=
      { magic := uint16At raw 0, cssID := uint16At raw 2, cgid := uint64At raw 8 }
    if decoded.cssID.toNat ≥ maxCSSIDs ∨ decoded.cgid = 0 then
      .error "invalid sched-blame identity record"
    else .ok decoded

def decodeThrottle : Except String Throttle :=
  if raw.length ≠ perfRawSampleSize throttleSize then
    .error ("unexpected sched-blame throttle size: " ++ toString raw.length)
  else
    let decoded : Throttle :=
      { magic := uint16At raw 0, denseID := uint16At raw 2, durationNs := uint32At raw 4 }
    if decoded.denseID.toNat ≥ maxTargets then
      .error ("invalid sched-blame throttle dense ID: " ++ toString decoded.denseID)
    else .ok decoded

def validateBatchHeader : Except String UInt32 :=
  if raw.length < batchHeaderSize then
    .error ("unexpected sched-blame record size: " ++ toString raw.length)
  else if uint16At raw 0 ≠ batchMagic then
    .error ("invalid sched-blame batch magic: " ++ hex (uint16At raw 0).toNat)
  else if (uint16At raw 2).toNat ≠ extraBitmapU64Count then
    .error ("incompatible sched-blame extra bitmap u64 count: got " ++ toString (uint16At raw 2) ++
      " want " ++ toString extraBitmapU64Count)
  else if uint32At raw 4 = 0 ∨ (uint32At raw 4).toNat > maxBatchSlices then
    .error ("invalid sched-blame batch count: " ++ toString (uint32At raw 4))
  else .ok (uint32At raw 4)

/-- The length of a batch with so many slices: in the per-CPU map, or as a perf record. -/
def expectedBatchSize (count : UInt32) (mapValue : Bool) : Nat :=
  if mapValue then batchValueSize
  else perfRawSampleSize (batchHeaderSize + batchCapacity count * sliceSize)

def decodeBatch (batch : Batch) (mapValue : Bool) : Except String Batch :=
  match validateBatchHeader raw with
  | .error err => .error err
  | .ok count =>
    if raw.length ≠ expectedBatchSize count mapValue then
      .error ("unexpected sched-blame batch size: count=" ++ toString count ++ " size=" ++
        toString raw.length)
    else
      .ok { count, packedSlices := decodePackedSlices raw count.toNat batch.packedSlices }

/-- The record after a call, and the error. -/
def decodeRecord (record : Record) : Record × Option String :=
  let record := { record with kind := .invalid }
  if raw.length < 2 then
    (record, some ("unexpected sched-blame record size: " ++ toString raw.length))
  else
    let magic := uint16At raw 0
    if magic = identityMagic then
      match decodeIdentity raw with
      | .error err => (record, some err)
      | .ok identity => ({ record with identity, kind := .identity }, none)
    else if magic = throttleMagic then
      match decodeThrottle raw with
      | .error err => (record, some err)
      | .ok throttle => ({ record with throttle, kind := .throttle }, none)
    else if magic = batchMagic then
      match decodeBatch raw record.batch false with
      | .error err => (record, some err)
      | .ok batch => ({ record with batch, kind := .batch }, none)
    else (record, some ("invalid sched-blame record magic: " ++ hex magic.toNat))

/-! ## Runs -/

/-- What `on_sched_switch` does with the batch of its CPU: it takes a sampled interval, whose CSS ID
has been masked to 12 bits, or it looks at the age of the batch. -/
inductive Event where
  | sample (now durationNs : UInt64) (waiting : TargetBitmap) (cssID : Fin maxCSSIDs)
  | flush (now : UInt64)

def Event.now : Event → UInt64
  | sample now .. => now
  | flush now => now

/-- The slices that an event appends. -/
def Event.slices : Event → List PackedSlice
  | sample _ durationNs waiting cssID => [packSlice durationNs waiting (UInt64.ofNat cssID)]
  | flush _ => []

def handle (sliceBatchSize : UInt32) (accepts : Nat → Bool) (cpu : PerCPU) : Event → PerCPU
  | .sample now durationNs waiting cssID =>
    appendSampledSlice accepts sliceBatchSize now
      (packSlice durationNs waiting (UInt64.ofNat cssID)) cpu
  | .flush now => flushSliceBatchIfAged accepts now cpu

/-- A CPU whose maps are all zero goes through a sequence of events. -/
def runCPU (sliceBatchSize : UInt32) (accepts : Nat → Bool) (events : List Event) : PerCPU :=
  events.foldl (handle sliceBatchSize accepts) {}

end Huatuo.SchedBlame
