import Mathlib.Data.UInt
import Huatuo.Lib.Runs

/-!
# Block and file IO by file

The programs of `bpf/iotracing.c` that fill `io_source_map`: `rq_qos_issue` remembers a request
under its device and sector, `rq_qos_done` counts it for the file, and the hooks on reads, writes
and page faults count what the file system is asked for. An entry has one counter for each of these.

Any number of CPUs run the programs. A map operation, an addition and a store to an entry are a step
each. A pointer from `bpf_map_lookup_elem` stays valid when the key is updated: the update puts a
new element in the map, and who has the pointer goes on with the old one. `IoKey` and the number of
the element, counted for each key, stand for the pointer.

The maps have room, the kernel reads succeed, and no record is deleted, as in a capture. The kernel
has one request for a device and sector at a time, which stays until the program of its completion
is done (`flights`). `recorded` and `hooks` keep what happened; the programs do not read them.
-/

namespace Huatuo.IoTracing

open Function

/-! ## Maps -/

structure IoKey where
  tgid : UInt32 := 0
  dev : UInt32
  inode : UInt64
  deriving DecidableEq, Repr

structure HashKey where
  dev : UInt32
  sector : UInt64
  deriving DecidableEq, Repr

structure StartInfo where
  inode : UInt64
  tgid : UInt32
  dev : UInt32
  dataLen : UInt64
  biBlkg : UInt64
  comm : String
  deriving DecidableEq, Repr

inductive Counter where
  | fsWriteBytes
  | fsReadBytes
  | blockWriteBytes
  | blockReadBytes
  | latencyCnt
  deriving DecidableEq, Repr

/-- The latencies of an entry, apart from their number. -/
structure Latency where
  maxD2c : UInt64 := 0
  sumD2c : UInt64 := 0
  maxQ2c : UInt64 := 0
  sumQ2c : UInt64 := 0

/-- Who is behind an entry. -/
structure Identity where
  tgid : UInt32 := 0
  dev : UInt32 := 0
  inode : UInt64 := 0
  comm : String := ""
  filepath : List String := []

structure IoData where
  counters : Counter → UInt64 := fun _ => 0
  latency : Latency := {}
  pathInitialized : Bool := false
  identity : Identity := {}
  blkcgGq : UInt64 := 0
  flag : UInt32 := 0

/-- What a program does to its entry, one access each. -/
inductive Update where
  | add (counter : Counter) (amount : UInt64)
  | addQ2c (ns : UInt64)
  | addD2c (ns : UInt64)
  | compareQ2c (ns : UInt64)
  | storeQ2c (ns : UInt64)
  | compareD2c (ns : UInt64)
  | storeD2c (ns : UInt64)
  | storeFlag (flag : UInt32)

def IoData.apply (data : IoData) : Update → IoData
  | .add counter amount =>
    { data with counters := update data.counters counter (data.counters counter + amount) }
  | .addQ2c ns => { data with latency.sumQ2c := data.latency.sumQ2c + ns }
  | .addD2c ns => { data with latency.sumD2c := data.latency.sumD2c + ns }
  | .storeQ2c ns => { data with latency.maxQ2c := ns }
  | .storeD2c ns => { data with latency.maxD2c := ns }
  | .storeFlag flag => { data with flag }
  | .compareQ2c _ | .compareD2c _ => data

/-- What comes after a comparison. -/
def IoData.after (data : IoData) : Update → List Update → List Update
  | .compareQ2c ns, rest => if ns > data.latency.maxQ2c then .storeQ2c ns :: rest else rest
  | .compareD2c ns, rest => if ns > data.latency.maxD2c then .storeD2c ns :: rest else rest
  | _, rest => rest

/-! ## Requests and hooks -/

inductive Op where
  | read
  | write
  | other
  deriving DecidableEq, Repr

/-- A request, and what `rq_qos_issue` reads about its first page and the task. -/
structure Request where
  dev : UInt32
  sector : UInt64
  op : Op
  isMeta : Bool
  dataLen : UInt64
  /-- the inode of the page, 0 if there is none -/
  inode : UInt64
  /-- `i_rdev` is set -/
  isBlockDevice : Bool
  superDev : UInt32
  tgid : UInt32
  biBlkg : UInt64
  comm : String
  deriving DecidableEq, Repr

def Request.hashKey (req : Request) : HashKey where
  dev := req.dev
  sector := req.sector

def Request.startInfo (req : Request) : StartInfo where
  inode := req.inode
  tgid := req.tgid
  dev := if req.inode = 0 ∨ req.isBlockDevice then req.dev else req.superDev
  dataLen := req.dataLen
  biBlkg := req.biBlkg
  comm := req.comm

/-- Direct IO has no inode, and is attributed to the process. -/
def StartInfo.ioKey (info : StartInfo) : IoKey where
  tgid := if info.inode = 0 then info.tgid else 0
  dev := info.dev
  inode := info.inode

def filterDevMax : Nat := 16

def shouldProcessDevice (filter : List UInt32) (dev : UInt32) : Bool :=
  filter.isEmpty || (filter.take filterDevMax).contains dev

/-- `rq_qos_issue` gets to the map. -/
def Request.isRecorded (filter : List UInt32) (req : Request) : Bool :=
  !req.isMeta && shouldProcessDevice filter req.dev

/-- The accesses of `rq_qos_done` to the entry; none for a request that is not a read or write. -/
def Op.updates (dataLen q2c d2c : UInt64) : Op → List Update
  | other => []
  | read => .add .blockReadBytes dataLen :: latency
  | write => .add .blockWriteBytes dataLen :: latency
where
  latency : List Update :=
    [.addQ2c q2c, .addD2c d2c, .compareQ2c q2c, .compareD2c d2c, .add .latencyCnt 1]

inductive HookKind where
  | fileRead (count : UInt64) (flags : UInt32)
  | fileWrite (count : UInt64) (flags : UInt32)
  | pageMkwrite
  | filemapFault
  deriving DecidableEq, Repr

def pageSize : UInt64 := 4096

def HookKind.updates : HookKind → List Update
  | fileRead count flags => [.add .fsReadBytes count, .storeFlag flags]
  | fileWrite count flags => [.add .fsWriteBytes count, .storeFlag flags]
  | pageMkwrite => [.add .fsWriteBytes pageSize]
  | filemapFault => [.add .fsReadBytes pageSize]

structure Hook where
  dev : UInt32
  inode : UInt64
  kind : HookKind
  tgid : UInt32
  comm : String
  filepath : List String
  deriving DecidableEq, Repr

def Hook.key (hook : Hook) : IoKey where
  dev := hook.dev
  inode := hook.inode

def Hook.identity (hook : Hook) : Identity where
  tgid := hook.tgid
  dev := hook.dev
  inode := hook.inode
  comm := hook.comm
  filepath := hook.filepath

def IoData.init (data : IoData) (hook : Hook) : IoData :=
  { data with identity := hook.identity, pathInitialized := true }

/-! ## Program points -/

/-- What `entry` points to in `rq_qos_done`. -/
inductive Target where
  | element (n : Nat)
  | record (data : IoData)

inductive Pc where
  | idle
  -- bpf_rq_qos_done
  | doneInfo (req : Request) (q2c d2c : UInt64)
  | doneEntry (req : Request) (info : StartInfo) (q2c d2c : UInt64)
  | doneUpdate (req : Request) (info : StartInfo) (target : Target) (updates : List Update)
  | doneDelete (req : Request)
  -- get_file_io_entry and create_file_io_entry
  | fileLookup (hook : Hook)
  | fileInsert (hook : Hook)
  | fileLookupAgain (hook : Hook)
  | filePath (hook : Hook) (n : Nat)
  | fileInit (hook : Hook) (n : Nat)
  -- the hooks
  | fileUpdate (hook : Hook) (n : Nat) (updates : List Update)

inductive Flight (ι : Type) where
  | none
  | issued (req : Request)
  | completing (cpu : ι)

structure State (ι : Type) where
  startInfoMap : HashKey → Option StartInfo := fun _ => none
  /-- the number of the element that is in the map -/
  ioSourceMap : IoKey → Option Nat := fun _ => none
  elements : IoKey → Nat → IoData := fun _ _ => {}
  pcs : ι → Pc := fun _ => .idle
  flights : HashKey → Flight ι := fun _ => .none
  recorded : List Request := []
  hooks : List Hook := []

inductive Action (ι : Type) where
  | issue (req : Request)
  | done (cpu : ι) (key : HashKey) (q2c d2c : UInt64)
  | hook (cpu : ι) (hook : Hook)
  | run (cpu : ι)

section

variable {ι : Type} [DecidableEq ι] (s : State ι)

def State.goto (c : ι) (pc : Pc) : State ι := { s with pcs := update s.pcs c pc }

def State.setElement (key : IoKey) (n : Nat) (data : IoData) : State ι :=
  { s with
    elements := update s.elements key (update (s.elements key) n data) }

/-- `bpf_map_update_elem` of the key: a new element. -/
def State.install (key : IoKey) (data : IoData) : State ι :=
  let n := match s.ioSourceMap key with
    | none => 0
    | some n => n + 1
  { s.setElement key n data with ioSourceMap := update s.ioSourceMap key (some n) }

/-- The program of a completion is done. -/
def State.land (c : ι) (req : Request) : State ι :=
  { s.goto c .idle with flights := update s.flights req.hashKey .none }

/-! ## Steps -/

def State.run (filter : List UInt32) (s : State ι) (c : ι) : Pc → Option (State ι)
  | .idle => none
  | .doneInfo req q2c d2c =>
    if !shouldProcessDevice filter req.dev then some (s.land c req)
    else
      match s.startInfoMap req.hashKey with
      | none => some (s.land c req)
      | some info => some (s.goto c (.doneEntry req info q2c d2c))
  | .doneEntry req info q2c d2c =>
    let target :=
      match s.ioSourceMap info.ioKey with
      | none => Target.record {}
      | some n => .element n
    if req.op = .other then some (s.goto c (.doneDelete req))
    else some (s.goto c (.doneUpdate req info target (req.op.updates info.dataLen q2c d2c)))
  | .doneUpdate req _ (.element _) [] => some (s.goto c (.doneDelete req))
  | .doneUpdate req info (.element n) (update :: rest) =>
    let data := s.elements info.ioKey n
    some ((s.setElement info.ioKey n (data.apply update)).goto c
      (.doneUpdate req info (.element n) (data.after update rest)))
  | .doneUpdate req info (.record data) (update :: rest) =>
    some (s.goto c (.doneUpdate req info (.record (data.apply update)) (data.after update rest)))
  | .doneUpdate req info (.record data) [] =>
    let identity : Identity :=
      { data.identity with
        tgid := info.tgid, dev := info.dev, inode := info.inode, comm := info.comm }
    -- COMPAT_BPF_ANY
    some ((s.install info.ioKey { data with blkcgGq := info.biBlkg, identity }).goto c
      (.doneDelete req))
  | .doneDelete req =>
    some (({ s with
      startInfoMap := update s.startInfoMap req.hashKey none }).land c req)
  | .fileLookup hook =>
    match s.ioSourceMap hook.key with
    | some n => some (s.goto c (.filePath hook n))
    | none => some (s.goto c (.fileInsert hook))
  | .fileInsert hook =>
    -- COMPAT_BPF_NOEXIST
    if (s.ioSourceMap hook.key).isSome then some (s.goto c (.fileLookupAgain hook))
    else some ((s.install hook.key (IoData.init {} hook)).goto c (.fileLookupAgain hook))
  | .fileLookupAgain hook =>
    match s.ioSourceMap hook.key with
    | some n => some (s.goto c (.filePath hook n))
    | none => some (s.goto c .idle)
  | .filePath hook n =>
    if (s.elements hook.key n).pathInitialized then
      some (s.goto c (.fileUpdate hook n hook.kind.updates))
    else some (s.goto c (.fileInit hook n))
  | .fileInit hook n =>
    some ((s.setElement hook.key n ((s.elements hook.key n).init hook)).goto c
      (.fileUpdate hook n hook.kind.updates))
  | .fileUpdate _ _ [] => some (s.goto c .idle)
  | .fileUpdate hook n (update :: rest) =>
    let data := s.elements hook.key n
    some ((s.setElement hook.key n (data.apply update)).goto c
      (.fileUpdate hook n (data.after update rest)))

def step (filter : List UInt32) (s : State ι) : Action ι → Option (State ι)
  | .issue req =>
    match s.flights req.hashKey with
    | .none =>
      let s := { s with flights := update s.flights req.hashKey (.issued req) }
      if req.isRecorded filter then
        some
          { s with
            startInfoMap := update s.startInfoMap req.hashKey (some req.startInfo)
            recorded := req :: s.recorded }
      else some s
    | _ => none
  | .done c key q2c d2c =>
    match s.pcs c, s.flights key with
    | .idle, .issued req =>
      some { s.goto c (.doneInfo req q2c d2c) with
        flights := update s.flights key (.completing c) }
    | _, _ => none
  | .hook c hook =>
    match s.pcs c with
    | .idle =>
      if shouldProcessDevice filter hook.dev then
        some { s.goto c (.fileLookup hook) with hooks := hook :: s.hooks }
      else some s
    | _ => none
  | .run c => s.run filter c (s.pcs c)

/-- All programs are done, and all requests completed. -/
def State.Quiet : Prop := (∀ c, s.pcs c = .idle) ∧ ∀ key, s.flights key = .none

/-- A completion that has found no entry adds its record when there still is none. -/
def undisturbed (s : State ι) : Action ι → Bool
  | .run c =>
    match s.pcs c with
    | .doneUpdate _ info (.record _) [] => (s.ioSourceMap info.ioKey).isNone
    | _ => true
  | _ => true

end

/-! ## Totals -/

def Op.amount (dataLen : UInt64) : Op → Counter → UInt64
  | read, .blockReadBytes | write, .blockWriteBytes => dataLen
  | read, .latencyCnt | write, .latencyCnt => 1
  | _, _ => 0

/-- What a request adds to a counter of an entry. -/
def Request.amount (req : Request) (key : IoKey) (counter : Counter) : UInt64 :=
  if req.startInfo.ioKey = key then req.op.amount req.dataLen counter else 0

def HookKind.amount : HookKind → Counter → UInt64
  | fileRead count _, .fsReadBytes | fileWrite count _, .fsWriteBytes => count
  | filemapFault, .fsReadBytes | pageMkwrite, .fsWriteBytes => pageSize
  | _, _ => 0

/-- What a hook adds to a counter of an entry. -/
def Hook.amount (hook : Hook) (key : IoKey) (counter : Counter) : UInt64 :=
  if hook.key = key then hook.kind.amount counter else 0

section

variable {ι : Type}

/-- The total over the requests that were recorded, and over the hooks. -/
def State.total (s : State ι) (key : IoKey) (counter : Counter) : UInt64 :=
  (s.recorded.map fun req => req.amount key counter).sum +
    (s.hooks.map fun hook => hook.amount key counter).sum

/-- A counter of the entry in the map, 0 if there is none. -/
def State.value (s : State ι) (key : IoKey) (counter : Counter) : UInt64 :=
  match s.ioSourceMap key with
  | none => 0
  | some n => (s.elements key n).counters counter

end

end Huatuo.IoTracing
