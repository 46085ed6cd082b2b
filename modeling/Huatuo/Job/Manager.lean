import Mathlib.Data.String.Basic
import Huatuo.Lib.Runs
import Huatuo.Job.Types
import Huatuo.Strings

/-!
# The Job manager

`internal/job/manager.go`: the active runtimes of one Apiserver process and the quotas that limit
them.

A step is one critical section of `Manager.mu`, one query of the store, or the end of a call that
runs without the lock. `NewManager` recovers the Jobs of the store in batches before it returns, so
`recovering` comes before any `Create`. What a runtime does is left open here: it may complete at
any time. The rows of the store may change at any time too, by these runtimes or by other processes.

`made` lists all runtimes there ever were. Nothing reads it except that `uuid.NewString` returns an
ID none of them has.
-/

namespace Huatuo.Job

/-! ## Configuration -/

/-- The limits of active Jobs of one kind. -/
structure Policy where
  maxJobsPerHost : Int
  maxTotalJobs : Int
  deriving DecidableEq, Repr

structure ManagerConfig where
  storeDSN : String
  profilingPolicy : Policy
  tracingPolicy : Policy
  statusPollInterval : Duration
  pendingTimeout : Duration
  completionGracePeriod : Duration
  nodeUnavailableGracePeriod : Duration
  jobRetentionPeriod : Duration
  deriving DecidableEq, Repr

def validatePolicy (kind : Kind) (policy : Policy) : Except String Unit :=
  if policy.maxJobsPerHost = 0 ∧ policy.maxTotalJobs = 0 then
    .error ("create job manager: policy for " ++ kind.raw ++ " is required")
  else if policy.maxJobsPerHost ≤ 0 ∨ policy.maxTotalJobs ≤ 0 then
    .error ("create job manager: " ++ kind.raw ++ " quotas must be greater than zero")
  else .ok ()

/-- The first of the named durations that is not positive. -/
def validateLifecycle : List (String × Duration) → Except String Unit
  | [] => .ok ()
  | (name, value) :: rest =>
    if value ≤ 0 then .error ("create job manager: " ++ name ++ " must be positive")
    else validateLifecycle rest

def validateManagerConfig (config : ManagerConfig) : Except String Unit :=
  if Strings.trimSpace config.storeDSN = "" then .error "create job manager: store dsn is required"
  else
    match validatePolicy .profiling config.profilingPolicy with
    | .error err => .error err
    | .ok () =>
      match validatePolicy .tracing config.tracingPolicy with
      | .error err => .error err
      | .ok () =>
        validateLifecycle
          [("status poll interval", config.statusPollInterval),
            ("pending timeout", config.pendingTimeout),
            ("completion grace period", config.completionGracePeriod),
            ("Node unavailable grace period", config.nodeUnavailableGracePeriod),
            ("Job retention period", config.jobRetentionPeriod)]

def ManagerConfig.policy (config : ManagerConfig) : Kind → Option Policy
  | .profiling => some config.profilingPolicy
  | .tracing => some config.tracingPolicy
  | .unsupported _ => none

/-! ## State -/

/-- What a manager keeps of a runtime. `address` tells runtimes apart as their pointers do. -/
structure Supervised where
  address : Nat
  id : String
  kind : Kind
  hostname : String
  recovered : Bool
  deriving DecidableEq, Repr

/-- How far `NewManager` is. -/
inductive Startup where
  /-- in `recover`: the jobs of the batch that are left, and whether it is the last one -/
  | recovering (lastReadID : String) (batch : List Job) (isLast : Bool)
  /-- `NewManager` returned the manager -/
  | serving
  /-- `NewManager` returned an error -/
  | failed

structure Manager where
  active : List Supervised := []
  activeTotal : Kind → Int := fun _ => 0
  activeHosts : String × Kind → Int := fun _ => 0
  accepting : Bool := true
  config : ManagerConfig
  startup : Startup := .recovering "" [] false
  /-- calls of `Create` that are in `Store.Create` -/
  creating : List Supervised := []
  /-- goroutines of `runJobRuntime` -/
  running : List Supervised := []
  made : List Supervised := []
  /-- the rows of the store, with distinct keys -/
  rows : { rows : List Job // (rows.map Job.id).Nodup }

namespace Manager

/-- `NewManager`, up to `recover`. -/
def new (config : ManagerConfig) (rows : { rows : List Job // (rows.map Job.id).Nodup }) :
    Except String Manager :=
  match validateManagerConfig config with
  | .error err => .error err
  | .ok () => .ok { config := config, rows := rows }

/-! ## Registration -/

variable (m : Manager)

def addTotal (kind : Kind) (n : Int) : Kind → Int :=
  Function.update m.activeTotal kind (m.activeTotal kind + n)

def addHosts (key : String × Kind) (n : Int) : String × Kind → Int :=
  Function.update m.activeHosts key (m.activeHosts key + n)

/-- `registerLocked`. -/
def register (runtime : Supervised) : Manager :=
  { m with
    active := m.active.filter (fun s => s.id ≠ runtime.id) ++ [runtime]
    activeTotal := m.addTotal runtime.kind 1
    activeHosts := m.addHosts (runtime.hostname, runtime.kind) 1 }

/-- `unregisterLocked`. -/
def unregister (runtime : Supervised) : Manager :=
  match m.active.find? fun s => s.id = runtime.id with
  | none => m
  | some current =>
    if current ≠ runtime then m
    else
      { m with
        active := m.active.filter fun s => s.id ≠ runtime.id
        activeTotal := m.addTotal runtime.kind (-1)
        activeHosts := m.addHosts (runtime.hostname, runtime.kind) (-1) }

/-- A runtime for a Job. -/
def newRuntime (m : Manager) (job : Job) (recovered : Bool) : Supervised where
  address := m.made.length
  id := job.id
  kind := job.kind
  hostname := job.hostname
  recovered := recovered

/-! ## Recovery -/

def jobBatchSize : Nat := 1000

/-- `Store.List` of `recover`: the first Jobs after `lastReadID` by ascending ID. -/
def listRecoverable (rows : List Job) (lastReadID : String) : List Job :=
  ((rows.filter fun job => isRecoverable job.status ∧
    (lastReadID = "" ∨ lastReadID < job.id)).mergeSort
    fun a b => a.id ≤ b.id).take jobBatchSize

/-- One query of `recover`. It fails if a row cannot be decoded. -/
def listBatch (lastReadID : String) : Manager :=
  let jobs := listRecoverable m.rows.1 lastReadID
  if jobs.any fun job => job.validateStored ≠ .ok () then { m with startup := .failed }
  else
    match jobs.getLast? with
    | none => { m with startup := .serving }
    | some last =>
      { m with startup := .recovering last.id jobs (decide (jobs.length < jobBatchSize)) }

/-- The body of `recover`'s loop over a batch. -/
def recoverJob (lastReadID : String) (storedJob : Job) (rest : List Job) (isLast : Bool) :
    Manager :=
  match m.config.policy storedJob.kind with
  | none => { m with startup := .failed }
  | some _ =>
    let runtime := m.newRuntime storedJob true
    { m.register runtime with
      startup := if rest = [] ∧ isLast then .serving else .recovering lastReadID rest isLast
      running := m.running ++ [runtime]
      made := m.made ++ [runtime] }

/-! ## Methods -/

/-- The errors of `Create`. -/
inductive ManagerError where
  | invalidQuery (message : String)
  | shuttingDown
  | unsupportedKind (message : String)
  | quotaExceeded (message : String)
  deriving DecidableEq, Repr

def isExhausted (policy : Policy) (job : Job) : Bool :=
  decide (m.activeTotal job.kind ≥ policy.maxTotalJobs) ||
    decide (m.activeHosts (job.hostname, job.kind) ≥ policy.maxJobsPerHost)

/-- `Create`, up to `Store.Create`. -/
def create (request : CreateRequest) (id : String) (now : Time) : Except ManagerError Manager :=
  match request.validate with
  | .error err => .error (.invalidQuery ("create job: " ++ err))
  | .ok () =>
    let newJob := request.newJob id now
    if ¬ m.accepting then .error .shuttingDown
    else
      match m.config.policy newJob.kind with
      | none =>
        .error (.unsupportedKind
          ("create job manager: unsupported Job kind " ++ newJob.kind.raw.quote))
      | some policy =>
        if m.isExhausted policy newJob then
          .error (.quotaExceeded (newJob.kind.raw ++ " Job capacity is exhausted"))
        else
          let runtime := m.newRuntime newJob false
          .ok { m.register runtime with
            creating := m.creating ++ [runtime]
            made := m.made ++ [runtime] }

/-! ## Runs -/

inductive Action where
  /-- the store changes -/
  | store (rows : { rows : List Job // (rows.map Job.id).Nodup })
  /-- `recover` queries the store; the query may fail -/
  | list (failed : Bool)
  | recoverJob
  | create (request : CreateRequest) (id : String) (now : Time)
  /-- `Store.Create` returns -/
  | createReturns (runtime : Supervised) (failed : Bool)
  /-- `runtime.run` returns -/
  | runReturns (runtime : Supervised)
  | shutdown

def step (m : Manager) : Action → Option Manager
  | .store rows => some { m with rows := rows }
  | .list failed =>
    match m.startup with
    | .recovering lastReadID [] _ =>
      some (if failed then { m with startup := .failed } else m.listBatch lastReadID)
    | _ => none
  | .recoverJob =>
    match m.startup with
    | .recovering lastReadID (storedJob :: rest) isLast =>
      some (m.recoverJob lastReadID storedJob rest isLast)
    | _ => none
  | .create request id now =>
    match m.startup with
    | .serving =>
      if m.made.any fun s => s.id = id then none
      else
        match m.create request id now with
        | .error _ => some m
        | .ok m' => some m'
    | _ => none
  | .createReturns runtime failed =>
    if runtime ∈ m.creating then
      let m := { m with creating := m.creating.erase runtime }
      some (if failed then m.unregister runtime
        else { m with running := m.running ++ [runtime] })
    else none
  | .runReturns runtime =>
    if runtime ∈ m.running then
      some ({ m with running := m.running.erase runtime }.unregister runtime)
    else none
  | .shutdown =>
    match m.startup with
    | .serving => some { m with accepting := false }
    | _ => none

end Manager

end Huatuo.Job
