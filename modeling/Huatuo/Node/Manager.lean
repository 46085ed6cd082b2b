import Huatuo.Lib.Runs
import Huatuo.Node.Lifecycle

/-!
# The Node operation manager

`internal/nodeagent/operation/manager.go`: all operations of a Node agent, by request ID, and
the number of those that are not terminal.

Records live in `ops` and are never moved; `operations` is the map from request IDs to them.
Each method is one critical section, with the clock reading it makes as an argument; what it does
after the lock is released (cancel a launch, spawn a stop) is left to the operation as a move
that can be made any time later. `Manager.step` interleaves calls of the methods with moves of
the operations.
-/

namespace Huatuo.Node

/-! ## Configuration -/

/-- The configuration `NewManager` is called with. -/
structure Config where
  maxConcurrent : Int
  lifecycle : LifecyclePolicy
  deriving DecidableEq, Repr

def validateConfig (config : Config) : Except String Unit :=
  if config.maxConcurrent ≤ 0 then
    .error "create operation manager: max concurrent must be greater than zero"
  else if config.lifecycle.launchTimeout ≤ 0 then
    .error "create operation manager: launch timeout must be greater than zero"
  else if config.lifecycle.stopGracePeriod ≤ 0 then
    .error "create operation manager: stop grace period must be greater than zero"
  else if config.lifecycle.finalizationTimeout ≤ 0 then
    .error "create operation manager: finalization timeout must be greater than zero"
  else if config.lifecycle.terminalRetentionPeriod ≤ 0 then
    .error "create operation manager: terminal retention period must be greater than zero"
  else .ok ()

/-! ## State -/

structure Manager where
  ops : List Op := []
  operations : List (String × Nat) := []
  activeCount : Int := 0
  isAccepting : Bool := true
  isShutdownStarted : Bool := false
  maxConcurrent : Int
  lifecycle : LifecyclePolicy
  deriving DecidableEq, Repr

/-- `NewManager`. -/
def newManager (config : Config) : Except String Manager :=
  match validateConfig config with
  | .error err => .error err
  | .ok () =>
    .ok { maxConcurrent := config.maxConcurrent, lifecycle := config.lifecycle }

/-- The errors of the manager's methods. -/
inductive ManagerError where
  | invalidRequest (message : String)
  | notFound
  | requestIDConflict
  | limitExceeded
  | shuttingDown
  deriving DecidableEq, Repr

/-- The executor is what the moves of the operation stand for; only whether there is one
matters here. -/
structure StartRequest where
  requestID : String
  kind : Kind
  hasExecutor : Bool
  deriving DecidableEq, Repr

def Kind.raw : Kind → String
  | .profiling => "profiling"
  | .tracing => "tracing"
  | .unsupported raw => raw

def validateStartRequest (request : StartRequest) : Except ManagerError Unit :=
  if request.requestID = "" then .error (.invalidRequest "request ID is required")
  else if !isValidKind request.kind then
    .error (.invalidRequest ("unsupported kind " ++ request.kind.raw.quote))
  else if !request.hasExecutor then .error (.invalidRequest "executor is required")
  else .ok ()

def isExpired (managed : ManagedOperation) (now : Time) : Bool :=
  isTerminal managed.state.status && !managed.hasExecution && !managed.expiresAt.isZero &&
    !now.before managed.expiresAt

namespace Manager

/-! ## The map -/

variable (m : Manager)

/-- `m.operations[requestID]`. -/
def lookup (requestID : String) : Option (Nat × Op) :=
  match m.operations.lookup requestID with
  | none => none
  | some ref => m.ops[ref]?.map fun op => (ref, op)

def delete (requestID : String) : Manager :=
  { m with operations := m.operations.filter fun entry => entry.1 ≠ requestID }

/-- Whether the record at `ref` has expired. -/
def expiredAt (ref : Nat) (now : Time) : Bool :=
  match m.ops[ref]? with
  | none => false
  | some op => isExpired op.managed now

/-! ## Methods -/

/-- The end of `Start`: register a new operation and spawn its lifecycle. -/
def register (request : StartRequest) (now : Time) :
    Except ManagerError (Operation × Bool) × Manager :=
  if !m.isAccepting then (.error .shuttingDown, m)
  else if m.activeCount ≥ m.maxConcurrent then (.error .limitExceeded, m)
  else
    let op := Op.register request.requestID request.kind now
    (.ok (op.managed.state, true),
      { m with
        ops := m.ops ++ [op]
        operations := m.operations ++ [(request.requestID, m.ops.length)]
        activeCount := m.activeCount + 1 })

/-- `Start`: a snapshot, and whether the operation was created. -/
def start (request : StartRequest) (now : Time) :
    Except ManagerError (Operation × Bool) × Manager :=
  match validateStartRequest request with
  | .error err => (.error err, m)
  | .ok () =>
    match m.lookup request.requestID with
    | some (_, op) =>
      if isExpired op.managed now then (m.delete request.requestID).register request now
      else if op.managed.state.kind ≠ request.kind then (.error .requestIDConflict, m)
      else (.ok (op.managed.state, false), m)
    | none => m.register request now

def getByID (requestID : String) (now : Time) : Except ManagerError Operation :=
  match m.lookup requestID with
  | none => .error .notFound
  | some (_, op) =>
    if isExpired op.managed now then .error .notFound else .ok op.managed.state

/-- `StopByID`: a snapshot, and whether this call initiated the stop. -/
def stopByID (requestID : String) (now : Time) : Except ManagerError (Operation × Bool) × Manager :=
  match m.lookup requestID with
  | none => (.error .notFound, m)
  | some (ref, op) =>
    if isExpired op.managed now then (.error .notFound, m.delete requestID)
    else
      (.ok (op.requestStop.2.managed.state, op.requestStop.1),
        { m with ops := m.ops.set ref op.requestStop.2 })

def beginShutdown : Manager := { m with isAccepting := false }

/-- `startShutdown`: request the stop of every operation in the map. -/
def startShutdown : Manager :=
  let refs := m.operations.map Prod.snd
  { m with
    ops := m.ops.mapIdx fun ref op =>
      if refs.contains ref && !isTerminal op.status then op.requestStop.2 else op
    isShutdownStarted := true }

def cleanupExpired (now : Time) : Manager :=
  { m with operations := m.operations.filter fun entry => !m.expiredAt entry.2 now }

/-! ## Runs -/

inductive Action where
  | start (request : StartRequest) (now : Time)
  | getByID (requestID : String) (now : Time)
  | stopByID (requestID : String) (now : Time)
  | beginShutdown
  | startShutdown
  | cleanupExpired (now : Time)
  | op (ref : Nat) (action : Op.Action)
  deriving DecidableEq, Repr

/-- A call of a method, or a move of an operation. `Shutdown` begins with `BeginShutdown` and
starts the shutdown once. -/
def step (m : Manager) : Action → Option Manager
  | .start request now => some (m.start request now).2
  | .getByID _ _ => some m
  | .stopByID requestID now => some (m.stopByID requestID now).2
  | .beginShutdown => some m.beginShutdown
  | .startShutdown =>
    if !m.isAccepting && !m.isShutdownStarted then some m.startShutdown else none
  | .cleanupExpired now => some (m.cleanupExpired now)
  | .op ref action =>
    match m.ops[ref]? with
    | none => none
    | some op =>
      match op.step m.lifecycle action with
      | none => none
      | some (op', released) =>
        some { m with
          ops := m.ops.set ref op'
          activeCount := if released then m.activeCount - 1 else m.activeCount }

end Manager

end Huatuo.Node
