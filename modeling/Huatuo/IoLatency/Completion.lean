import Mathlib.Algebra.Ring.Nat
import Mathlib.Data.List.Basic

/-!
# Completion of a request

The program on `block_rq_complete` of `bpf/iolatency_tracing.c`. A request has a chain of bios, and
the kernel completes it in one or more events of so many bytes. The program walks the chain with the
bytes of its event and accounts the bios that are completed, in the histograms of the disk and of
the container: the first bio on its own, the others in chunks, at most 512 at an event. The size of
the request as it was issued goes to the first bio of the last event.

The chain is the list of the bios from `req->bio` on. `Request.advance` is the kernel's part, which
follows the event: it drops the bios that are completed, and cuts the one that is partly completed.

Kernel reads succeed. Whether an insertion into a map of the containers succeeds is up to the event,
one result for each bio; after `-EEXIST` the row is there.
-/

namespace Huatuo.IoLatency

open Function

/-! ## Histograms -/

def latencyBuckets : Nat := 17
def sizeBuckets : Nat := 6

inductive Stage where
  | q2d
  | d2c
  | q2g
  deriving DecidableEq, Repr

structure Counters where
  buckets : Stage → Nat → UInt64 := fun _ _ => 0
  issuedSize : Nat → UInt64 := fun _ => 0

namespace Counters

def incrementLatency (counters : Counters) (stage : Stage) (bucket : Nat) : Counters :=
  let row := counters.buckets stage
  { counters with
    buckets := update counters.buckets stage (update row bucket (row bucket + 1)) }

def incrementIssuedSize (counters : Counters) (bucket : Nat) : Counters :=
  { counters with
    issuedSize := update counters.issuedSize bucket (counters.issuedSize bucket + 1) }

end Counters

/-- 1 if the value is above the threshold. -/
def ioHistogramAbove (value threshold : UInt64) : Nat :=
  (((threshold - value) ||| value) >>> 63).toNat

def nsPerUs : UInt64 := 1000
def nsPerMs : UInt64 := 1000000
def nsPerSec : UInt64 := 1000000000

def latencyThresholds : List UInt64 :=
  [100 * nsPerUs, 250 * nsPerUs, 500 * nsPerUs, nsPerMs, 2 * nsPerMs, 4 * nsPerMs, 8 * nsPerMs,
    16 * nsPerMs, 32 * nsPerMs, 64 * nsPerMs, 128 * nsPerMs, 256 * nsPerMs, 512 * nsPerMs, nsPerSec,
    2 * nsPerSec]

/-- The bucket of a wait; none is the result -1. -/
def ioLatencyBucket (startNs endNs : UInt64) (queueStage : Bool) : Option Nat :=
  if startNs = 0 ∨ endNs = 0 then none
  else if endNs < startNs then if queueStage then some 0 else none
  else
    let ns := endNs - startNs
    if ns ≤ 50 * nsPerUs then some 0
    else some (1 + (latencyThresholds.map (ioHistogramAbove ns)).sum)

def ioSizeKib : UInt64 := 1024

def sizeThresholds : List UInt64 :=
  [4 * ioSizeKib, 16 * ioSizeKib, 64 * ioSizeKib, 256 * ioSizeKib, 1024 * ioSizeKib]

def ioSizeBucket (bytes : UInt32) : Nat :=
  if bytes.toUInt64 ≤ 4 * ioSizeKib then 0
  else (sizeThresholds.map (ioHistogramAbove bytes.toUInt64)).sum

/-! ## The session -/

structure HostCounters where
  major : UInt32
  minor : UInt32
  /-- one for each operation -/
  counters : UInt32 → Counters
  scsi : UInt64

structure ContainerKey where
  blkcg : UInt64
  serial : UInt64
  major : UInt32
  minor : UInt32
  operation : UInt32
  kind : UInt32 := 0
  deriving DecidableEq

structure Bio (β : Type) where
  address : β
  /-- `bi_iter.bi_size` -/
  size : UInt32
  /-- `bi_issue` or `issue_time_ns` -/
  stamp : UInt64
  /-- `bi_blkg->blkcg` -/
  blkcg : UInt64

/-- What the programs read from the kernel at an event, and what the insertions return. -/
structure Event (β : Type) where
  bytes : UInt32
  now : UInt64
  startTimeNs : UInt64
  ioStartTimeNs : UInt64
  statsSectors : UInt16
  serialNr : UInt64 → UInt64
  groupInsert : β → Int32
  seriesInsert : β → Int32

/-- `struct request_completion` -/
structure Completion (δ : Type) where
  disk : UInt64
  operation : UInt32
  host : δ
  getRequestNs : UInt64
  issueNs : UInt64
  now : UInt64
  d2cBucket : Option Nat

structure Session (β δ : Type) where
  blkdiskLatMap : δ → Option HostCounters
  blkcgLatMap : ContainerKey → Option Counters := fun _ => none
  groupMap : UInt64 → Option UInt64 := fun _ => none
  failure : UInt64 := 0

/-- The layout of the running kernel, and the constants of the program. -/
structure Config where
  /-- the time is in `bi_issue` -/
  packedStamp : Bool
  /-- `biotail` follows `bio` -/
  readsTail : Bool
  rootBlkcg : UInt64
  cssOffset : UInt64

inductive Failure where
  | chainOverflow
  | groupInsertFailed
  deriving DecidableEq, Repr

def Failure.reason : Failure → UInt64
  | chainOverflow => 1
  | groupInsertFailed => 3

def ebusy : Int32 := 16
def eexist : Int32 := 17

section

variable {β δ : Type} (s : Session β δ)

def Session.ioLatencyFail (failure : Failure) (error : Int32) : Session β δ :=
  if error = -ebusy then s
  else { s with failure := failure.reason <<< 32 ||| error.toUInt32.toUInt64 }

/-! ## Containers -/

variable (config : Config)

def ioLatencyBioCss (bio : Bio β) : UInt64 :=
  if bio.blkcg = 0 ∨ bio.blkcg = config.rootBlkcg then 0 else bio.blkcg + config.cssOffset

def Session.ioLatencyCssSerial (event : Event β) (bio : β) (css : UInt64) : UInt64 × Session β δ :=
  match s.groupMap css with
  | some serial => (serial, s)
  | none =>
    let serial := event.serialNr css
    if serial = 0 then (0, s)
    else
      let ret := event.groupInsert bio
      if ret ≠ 0 ∧ ret ≠ -eexist then (0, s.ioLatencyFail .groupInsertFailed ret)
      else (serial, { s with groupMap := update s.groupMap css (some serial) })

/-- The css and the serial number of a bio, both 0 if there is no container. -/
def Session.ioLatencyBioIdentity (event : Event β) (bio : Bio β) :
    (UInt64 × UInt64) × Session β δ :=
  let css := ioLatencyBioCss config bio
  if css = 0 then ((0, 0), s)
  else
    let found := s.ioLatencyCssSerial event bio.address css
    if found.1 = 0 then ((0, 0), found.2) else ((css, found.1), found.2)

def Session.lookupContainerCounters (event : Event β) (bio : β) (key : ContainerKey) :
    Option Counters × Session β δ :=
  if key.blkcg = 0 ∨ key.serial = 0 then (none, s)
  else
    match s.blkcgLatMap key with
    | some counters => (some counters, s)
    | none =>
      let ret := event.seriesInsert bio
      if ret = 0 ∨ ret = -eexist then
        (some {}, { s with blkcgLatMap := update s.blkcgLatMap key (some {}) })
      else (none, s)

/-- One byte of the packed buckets; 255 means no sample. -/
def packBucket (bucket : Option Nat) : UInt64 := (bucket.getD 255).toUInt64 &&& 255

def Session.accountCompletedContainer (event : Event β) (bio : Bio β) (disk : UInt64)
    (operation : UInt32) (buckets : UInt64) : Session β δ :=
  if buckets = 0xffffffff then s
  else
    let identity := s.ioLatencyBioIdentity config event bio
    let key : ContainerKey :=
      { blkcg := identity.1.1, serial := identity.1.2, major := (disk >>> 32).toUInt32,
        minor := disk.toUInt32, operation }
    let found := identity.2.lookupContainerCounters event bio.address key
    match found.1 with
    | none => found.2
    | some counters =>
      let latency (counters : Counters) (stage : Stage) (bucket : UInt64) : Counters :=
        if bucket.toNat < latencyBuckets then counters.incrementLatency stage bucket.toNat
        else counters
      let counters := latency counters .q2g (buckets &&& 255)
      let counters := latency counters .q2d (buckets >>> 8 &&& 255)
      let counters := latency counters .d2c (buckets >>> 16 &&& 255)
      let size := (buckets >>> 24 &&& 255).toNat
      let counters := if size < sizeBuckets then counters.incrementIssuedSize size else counters
      { found.2 with blkcgLatMap := update found.2.blkcgLatMap key (some counters) }

/-! ## One bio -/

/-- The time of the submission; older bios have 51 bits of it. -/
def ioLatencyBioQueueNs (bio : Bio β) (now : UInt64) : UInt64 :=
  if config.packedStamp then
    let mask := ((1 : UInt64) <<< 51) - 1
    let stamp := bio.stamp &&& mask
    if stamp = 0 then 0
    else
      let age := (now - stamp) &&& mask
      if age ≤ now then now - age else 0
  else if bio.stamp ≤ now then bio.stamp else 0

/-- The bucket that `account_io_latency` counts. -/
def accountedBucket (bucket : Option Nat) : Option Nat := bucket.filter (· < latencyBuckets)

namespace Counters

def accountLatency (counters : Counters) (stage : Stage) : Option Nat → Counters
  | some bucket => counters.incrementLatency stage bucket
  | none => counters

def accountSize (counters : Counters) : Option Nat → Counters
  | some bucket => counters.incrementIssuedSize bucket
  | none => counters

end Counters

variable [DecidableEq δ]

/-- A change of the counters that `completion->host` points to. -/
def Session.updateHost (disk : δ) (operation : UInt32) (f : Counters → Counters) : Session β δ :=
  { s with
    blkdiskLatMap := update s.blkdiskLatMap disk
      ((s.blkdiskLatMap disk).map fun host =>
        { host with
          counters := update host.counters operation (f (host.counters operation)) }) }

def Session.completeBioLatency (event : Event β) (bio : Bio β) (completion : Completion δ)
    (issuedBytes : UInt64) : Session β δ :=
  let queueNs := ioLatencyBioQueueNs config bio completion.now
  let size := if issuedBytes = 0 then none else some (ioSizeBucket issuedBytes.toUInt32)
  let d2c := accountedBucket completion.d2cBucket
  let queued (endNs : UInt64) : Option Nat :=
    if queueNs = 0 then none else accountedBucket (ioLatencyBucket queueNs endNs true)
  let q2g := queued completion.getRequestNs
  let q2d := queued completion.issueNs
  let s := s.updateHost completion.host completion.operation fun counters =>
    (((counters.accountSize size).accountLatency .d2c d2c).accountLatency .q2g q2g).accountLatency
      .q2d q2d
  s.accountCompletedContainer config event bio completion.disk completion.operation
    (packBucket q2g ||| packBucket q2d <<< 8 ||| packBucket d2c <<< 16 ||| packBucket size <<< 24)

/-! ## The walk -/

structure Cursor (β : Type) where
  bios : List (Bio β)
  remaining : UInt32

/-- The cursor after the chunk, or none if the walk is over. -/
def completeBioChunk (config : Config) (event : Event β) (completion : Completion δ) :
    Nat → Cursor β → Session β δ → Session β δ × Option (Cursor β)
  | 0, cursor, s => (s, some cursor)
  | _ + 1, ⟨[], remaining⟩, s => (s, some ⟨[], remaining⟩)
  | limit + 1, ⟨bio :: next, remaining⟩, s =>
    if bio.size > remaining then (s, none)
    else
      let s := s.completeBioLatency config event bio completion 0
      let remaining := remaining - bio.size
      if remaining = 0 then (s, none)
      else completeBioChunk config event completion limit ⟨next, remaining⟩ s

def requestScanBudget : Nat := 512
def requestChunkBios : Nat := 32

def completionChunkCount : Nat :=
  (requestScanBudget - 1 + requestChunkBios - 1) / requestChunkBios

def chunkLimit (i : Nat) : Nat :=
  if i = completionChunkCount - 1 then
    requestScanBudget - 1 - (completionChunkCount - 1) * requestChunkBios
  else requestChunkBios

/-- The loop over the chunks, with the limits of those that are left. -/
def completeBioChunks (config : Config) (event : Event β) (completion : Completion δ) :
    List Nat → Cursor β → Session β δ → Session β δ × Option (Cursor β)
  | [], cursor, s => (s, some cursor)
  | limit :: limits, cursor, s =>
    if cursor.bios.isEmpty then (s, some cursor)
    else
      match completeBioChunk config event completion limit cursor s with
      | (s, none) => (s, none)
      | (s, some cursor) => completeBioChunks config event completion limits cursor s

def reqOpMask : UInt32 := 0xff
def reqOpRead : UInt32 := 0
def reqOpWrite : UInt32 := 1

structure Request (β δ : Type) where
  cmdFlags : UInt32
  disk : Option δ
  bios : List (Bio β)
  dataLen : UInt32

def Request.operation (req : Request β δ) : UInt32 := req.cmdFlags &&& reqOpMask

variable [DecidableEq β]

def traceRequestComplete (event : Event β) (req : Request β δ) (s : Session β δ) : Session β δ :=
  let remaining := event.bytes
  if remaining = 0 then s
  else if req.operation ≠ reqOpRead ∧ req.operation ≠ reqOpWrite then s
  else
    match req.disk with
    | none => s
    | some disk =>
      match s.blkdiskLatMap disk, req.bios with
      | none, _ | _, [] => s
      | some host, bio :: next =>
        let completion : Completion δ :=
          { disk := host.major.toUInt64 <<< 32 ||| host.minor.toUInt64,
            operation := req.operation, host := disk, getRequestNs := event.startTimeNs,
            issueNs := event.ioStartTimeNs, now := event.now,
            d2cBucket := ioLatencyBucket event.ioStartTimeNs event.now false }
        let issuedBytes : UInt64 :=
          if remaining ≥ req.dataLen ∧ event.ioStartTimeNs ≠ 0 then
            if host.scsi ≠ 0 then event.statsSectors.toUInt64 <<< 9 else remaining.toUInt64
          else 0
        let tail := if config.readsTail then req.bios.getLast?.map Bio.address else none
        if remaining = req.dataLen ∧ tail = some bio.address then
          s.completeBioLatency config event bio completion issuedBytes
        else if bio.size > remaining then s
        else
          let s := s.completeBioLatency config event bio completion issuedBytes
          let remaining := remaining - bio.size
          if remaining = 0 then s
          else
            match completeBioChunks config event completion
                ((List.range completionChunkCount).map chunkLimit) ⟨next, remaining⟩ s with
            | (s, none) => s
            | (s, some cursor) =>
              if cursor.bios.isEmpty then s else s.ioLatencyFail .chainOverflow 0

/-! ## The kernel -/

/-- `blk_update_request`, on the chain. -/
def advance : UInt32 → List (Bio β) → List (Bio β)
  | _, [] => []
  | bytes, bio :: bios =>
    if bio.size ≤ bytes then advance (bytes - bio.size) bios
    else { bio with size := bio.size - bytes } :: bios

def Request.advance (req : Request β δ) (bytes : UInt32) : Request β δ :=
  { req with bios := IoLatency.advance bytes req.bios, dataLen := req.dataLen - bytes }

/-- The events of a request. -/
def complete (config : Config) : List (Event β) → Request β δ → Session β δ → Session β δ
  | [], _, s => s
  | event :: events, req, s =>
    complete config events (req.advance event.bytes) (traceRequestComplete config event req s)

end

end Huatuo.IoLatency
