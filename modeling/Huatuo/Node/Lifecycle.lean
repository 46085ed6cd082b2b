import Huatuo.Time

/-!
# One Node operation

`internal/nodeagent/operation`: the record of an operation, its lifecycle goroutine
`runOperation`, and a stop request that may land at any point of it.

An `Op` is the record with everything that runs for it: the phase `runOperation` is in with its
local variables, the stop goroutine, the launch context, and a cancellation a caller has been
handed and not made yet. `Op.step` makes one move of one of these: up to the next point where
another goroutine can interfere, which is a critical section, a call of the executor or the
receive from `stopResultCh`. What the executor returns is part of the action, so every behaviour
of an executor is covered.

`runCalls`, `stopCalls` and `stopInitiated` record what has been done and are read by nothing.
-/

namespace Huatuo.Node

/-! ## Types -/

/-- The service that owns an operation. -/
inductive Kind where
  | profiling
  | tracing
  | unsupported (raw : String)
  deriving DecidableEq, Repr

def isValidKind : Kind → Bool
  | .profiling | .tracing => true
  | .unsupported _ => false

inductive Status where
  | pending
  | running
  | stopping
  | terminal
  deriving DecidableEq, Repr

def isTerminal (status : Status) : Bool := status == .terminal

inductive Outcome where
  | completed
  | failed
  | stopped
  deriving DecidableEq, Repr

inductive FailureReason where
  | executionStartFailed
  | launchTimeout
  | executionFailed
  | executionStopFailed
  | finalizationFailed
  | finalizationTimeout
  deriving DecidableEq, Repr

/-- The stable result of a terminal operation. Reason and message are empty unless it failed. -/
structure TerminalResult where
  outcome : Outcome
  reason : Option FailureReason := none
  message : String := ""
  deriving DecidableEq, Repr

structure Operation where
  requestID : String
  kind : Kind
  status : Status
  terminal : Option TerminalResult := none
  createdAt : Time
  startedAt : Option Time := none
  finishedAt : Option Time := none
  deriving DecidableEq, Repr

inductive FinalizeMode where
  | publish
  | discard
  deriving DecidableEq, Repr

/-- An error of the executor, as far as `errors.Is` looks at it. -/
structure ExecError where
  isCanceled : Bool
  isDeadlineExceeded : Bool
  isStopped : Bool
  text : String
  deriving DecidableEq, Repr

/-- `errors.Join`. -/
def ExecError.join (a b : ExecError) : ExecError where
  isCanceled := a.isCanceled || b.isCanceled
  isDeadlineExceeded := a.isDeadlineExceeded || b.isDeadlineExceeded
  isStopped := a.isStopped || b.isStopped
  text := a.text ++ "\n" ++ b.text

structure LifecyclePolicy where
  launchTimeout : Duration
  stopGracePeriod : Duration
  finalizationTimeout : Duration
  terminalRetentionPeriod : Duration
  deriving DecidableEq, Repr

/-- `executionRuntime`. `launchCancel` is whether the function is set; `stopResultCh` is the one
slot of the channel's buffer. -/
structure ExecutionRuntime where
  launchCancel : Bool := false
  stopResultCh : Option (Option ExecError) := none
  isStopStarted : Bool := false
  deriving DecidableEq, Repr

/-- `managedOperation`. `hasExecution` is whether `execution` points to the runtime. -/
structure ManagedOperation where
  state : Operation
  hasExecution : Bool
  isFinalizing : Bool := false
  expiresAt : Time := Time.zero
  deriving DecidableEq, Repr

/-- The error of the launch context. The first cause stays. -/
inductive LaunchContext where
  | active
  | canceled
  | deadlineExceeded
  deriving DecidableEq, Repr

def LaunchContext.cancel : LaunchContext → LaunchContext
  | .active => .canceled
  | ctx => ctx

structure LifecycleFailure where
  reason : FailureReason
  message : String
  phase : String
  err : ExecError
  deriving DecidableEq, Repr

/-! ## Goroutines -/

/-- Where `runOperation` is, with the local variables it goes on with. -/
inductive Phase where
  /-- spawned by `Start` -/
  | created
  /-- `launchCancel` is set -/
  | launching (stopRequested : Bool)
  /-- in `executor.Start` -/
  | starting
  /-- `executor.Start` returned -/
  | startReturned (startErr : Option ExecError) (launchContextErr : LaunchContext)
  /-- in `executor.Wait` -/
  | waiting
  /-- `executor.Wait` returned -/
  | waitReturned (waitErr : Option ExecError)
  /-- `isFinalizing` is set; before `stopResultCh` is read -/
  | collecting (stopRequested : Bool) (waitErr : Option ExecError) (stopStarted : Bool)
  /-- in `executor.Finalize` -/
  | finalizing (stopRequested : Bool) (waitErr stopErr : Option ExecError)
  /-- `executor.Finalize` returned -/
  | finalized (stopRequested : Bool) (waitErr stopErr finalizeErr : Option ExecError)
      (finalizeTimedOut : Bool)
  | done
  deriving DecidableEq, Repr

/-- The goroutine of `startStop`. -/
inductive StopPhase where
  | idle
  /-- a `stopAction` was handed out -/
  | prepared
  /-- in `executor.Stop` -/
  | calling
  /-- the result was sent -/
  | finished
  deriving DecidableEq, Repr

/-- What `runOperation` did with its executor. -/
inductive RunCall where
  | startReturned (err : Option ExecError)
  | waitReturned (err : Option ExecError)
  | stopReceived
  | finalizeCalled (mode : FinalizeMode)
  | finalizeReturned (err : Option ExecError)
  deriving DecidableEq, Repr

/-- What was done to stop the execution. -/
inductive StopCall where
  | started
  | called
  | returned (err : Option ExecError)
  deriving DecidableEq, Repr

structure Op where
  managed : ManagedOperation
  runtime : ExecutionRuntime := {}
  phase : Phase := .created
  stop : StopPhase := .idle
  launchCtx : LaunchContext := .active
  cancelPending : Bool := false
  runCalls : List RunCall := []
  stopCalls : List StopCall := []
  stopInitiated : Bool := false
  deriving DecidableEq, Repr

namespace Op

def status (op : Op) : Status := op.managed.state.status

def setStatus (op : Op) (status : Status) : Op :=
  { op with managed := { op.managed with state := { op.managed.state with status := status } } }

/-- The record `Start` registers. -/
def register (requestID : String) (kind : Kind) (now : Time) : Op where
  managed :=
    { state := { requestID := requestID, kind := kind, status := .pending, createdAt := now }
      hasExecution := true }

/-! ## Critical sections -/

/-- `prepareStopLocked`: hand out the one stop action. -/
def prepareStop (op : Op) : Op :=
  if !op.managed.hasExecution || op.runtime.isStopStarted then op
  else
    { op with
      runtime := { op.runtime with isStopStarted := true }
      stop := .prepared
      stopCalls := op.stopCalls ++ [.started] }

/-- `requestStopLocked`: whether this request initiated the stop, and the operation after it. A
launch that is in progress is canceled by the caller, after it released the lock. -/
def requestStop (op : Op) : Bool × Op :=
  if isTerminal op.status || op.managed.isFinalizing || op.status == .stopping then (false, op)
  else
    let stopping := { op.setStatus .stopping with stopInitiated := true }
    match op.status with
    | .pending =>
      if !op.managed.hasExecution then (true, stopping)
      else (true, { stopping with cancelPending := op.runtime.launchCancel })
    | .running => (true, stopping.prepareStop)
    | _ => (true, stopping)

/-- `commitTerminalLocked`, and whether `activeCount` goes down. -/
def commitTerminal (policy : LifecyclePolicy) (op : Op) (outcome : Outcome)
    (failure : Option LifecycleFailure) (now : Time) : Op × Bool :=
  if isTerminal op.status then (op, false)
  else
    let result : TerminalResult :=
      match failure with
      | none => { outcome := outcome }
      | some failure =>
        { outcome := outcome, reason := some failure.reason, message := failure.message }
    ({ op with
        managed :=
          { op.managed with
            state :=
              { op.managed.state with
                status := .terminal, finishedAt := some now, terminal := some result }
            isFinalizing := false
            expiresAt := now.add policy.terminalRetentionPeriod
            hasExecution := false } }, true)

/-! ## Outcomes -/

def messageExecutionStartFailed : String := "execution did not start"
def messageLaunchTimeout : String := "execution launch timed out"
def messageExecutionFailed : String := "execution failed"
def messageExecutionStopFailed : String := "execution could not be stopped"
def messageFinalizationFailed : String := "execution finalization failed"
def messageFinalizationTimeout : String := "execution finalization timed out"

def isDeadline (err : ExecError) (launchContextErr : LaunchContext) : Bool :=
  err.isDeadlineExceeded || launchContextErr == .deadlineExceeded

/-- The failure of a launch that was not stopped. -/
def startFailure (startErr : ExecError) (launchContextErr : LaunchContext) : LifecycleFailure :=
  if isDeadline startErr launchContextErr then
    { reason := .launchTimeout, message := messageLaunchTimeout, phase := "launch",
      err := startErr }
  else
    { reason := .executionStartFailed, message := messageExecutionStartFailed, phase := "start",
      err := startErr }

def finishStartFailure (policy : LifecyclePolicy) (op : Op) (startErr : ExecError)
    (launchContextErr : LaunchContext) (now : Time) : Op × Bool :=
  let op := { op with runtime := { op.runtime with launchCancel := false } }
  let stopRequested := op.status == .stopping
  if stopRequested && startErr.isCanceled && launchContextErr != .deadlineExceeded then
    op.commitTerminal policy .stopped none now
  else op.commitTerminal policy .failed (some (startFailure startErr launchContextErr)) now

/-- The error reported for a failed stop: `Wait`'s is joined unless it only says so. -/
def stopFailureErr (stopErr : ExecError) (waitErr : Option ExecError) : ExecError :=
  match waitErr with
  | some waitErr => if !waitErr.isStopped then stopErr.join waitErr else stopErr
  | none => stopErr

def classifyExecution (stopRequested : Bool) (waitErr stopErr : Option ExecError) :
    Option LifecycleFailure × Outcome :=
  if stopRequested then
    match stopErr with
    | some stopErr =>
      (some { reason := .executionStopFailed, message := messageExecutionStopFailed,
              phase := "stop", err := stopFailureErr stopErr waitErr }, .failed)
    | none => (none, .stopped)
  else
    match waitErr with
    | some waitErr =>
      (some { reason := .executionFailed, message := messageExecutionFailed, phase := "wait",
              err := waitErr }, .failed)
    | none => (none, .completed)

def classifyFinalization (finalizeErr : Option ExecError) (finalizeTimedOut : Bool) :
    Option LifecycleFailure :=
  finalizeErr.map fun err =>
    if err.isDeadlineExceeded || finalizeTimedOut then
      { reason := .finalizationTimeout, message := messageFinalizationTimeout,
        phase := "finalize", err := err }
    else
      { reason := .finalizationFailed, message := messageFinalizationFailed,
        phase := "finalize", err := err }

def joinFailures : Option LifecycleFailure → Option LifecycleFailure → Option LifecycleFailure
  | none, finalizeFailure => finalizeFailure
  | some failure, none => some failure
  | some failure, some finalizeFailure =>
    some { failure with err := failure.err.join finalizeFailure.err }

def finalizeMode (stopRequested : Bool) (waitErr : Option ExecError) : FinalizeMode :=
  if !stopRequested && waitErr.isNone then .publish else .discard

/-- The tail of `runOperation`: the failure and outcome it commits. -/
def conclude (stopRequested : Bool) (waitErr stopErr finalizeErr : Option ExecError)
    (finalizeTimedOut : Bool) : Option LifecycleFailure × Outcome :=
  let execution := classifyExecution stopRequested waitErr stopErr
  let failure := joinFailures execution.1 (classifyFinalization finalizeErr finalizeTimedOut)
  (failure, if failure.isSome then .failed else execution.2)

/-! ## Moves -/

/-- A move for one operation. -/
inductive Action where
  | install
  | callStart
  | launchTimeout
  | cancelLaunch
  | startReturns (err : Option ExecError)
  | afterStart (now : Time)
  | callStop
  | stopReturns (err : Option ExecError)
  | waitReturns (err : Option ExecError)
  | beginFinalize
  | callFinalize
  | finalizeReturns (err : Option ExecError) (timedOut : Bool)
  | finish (now : Time)
  deriving DecidableEq, Repr

/-- After `Start` returned nil: the operation runs, or is stopped if that was asked for. -/
def markStarted (op : Op) (now : Time) : Op :=
  let op := { op with
    runtime := { op.runtime with launchCancel := false }
    managed := { op.managed with state := { op.managed.state with startedAt := some now } }
    phase := .waiting }
  let op := if op.status == .pending then op.setStatus .running else op
  if op.status == .stopping then op.prepareStop else op

/-- One move, and whether it released a place in `activeCount`. -/
def step (policy : LifecyclePolicy) (op : Op) : Action → Option (Op × Bool)
  | .install =>
    match op.phase with
    | .created =>
      some ({ op with
        runtime := { op.runtime with launchCancel := true }
        phase := .launching (op.status == .stopping) }, false)
    | _ => none
  | .callStart =>
    match op.phase with
    | .launching stopRequested =>
      some ({ op with
        launchCtx := if stopRequested then op.launchCtx.cancel else op.launchCtx
        phase := .starting }, false)
    | _ => none
  | .launchTimeout =>
    match op.launchCtx with
    | .active => some ({ op with launchCtx := .deadlineExceeded }, false)
    | _ => none
  | .cancelLaunch =>
    if op.cancelPending then
      some ({ op with launchCtx := op.launchCtx.cancel, cancelPending := false }, false)
    else none
  | .startReturns err =>
    match op.phase with
    | .starting =>
      some ({ op with
        launchCtx := op.launchCtx.cancel
        phase := .startReturned err op.launchCtx
        runCalls := op.runCalls ++ [.startReturned err] }, false)
    | _ => none
  | .afterStart now =>
    match op.phase with
    | .startReturned (some err) launchContextErr =>
      some ({ op with phase := .done }.finishStartFailure policy err launchContextErr now)
    | .startReturned none _ => some (op.markStarted now, false)
    | _ => none
  | .callStop =>
    match op.stop with
    | .prepared =>
      some ({ op with stop := .calling, stopCalls := op.stopCalls ++ [.called] }, false)
    | _ => none
  | .stopReturns err =>
    match op.stop with
    | .calling =>
      some ({ op with
        stop := .finished
        runtime := { op.runtime with stopResultCh := some err }
        stopCalls := op.stopCalls ++ [.returned err] }, false)
    | _ => none
  | .waitReturns err =>
    match op.phase with
    | .waiting =>
      some ({ op with
        phase := .waitReturned err, runCalls := op.runCalls ++ [.waitReturned err] }, false)
    | _ => none
  | .beginFinalize =>
    match op.phase with
    | .waitReturned waitErr =>
      some ({ op with
        managed := { op.managed with isFinalizing := true }
        phase := .collecting (op.status == .stopping) waitErr op.runtime.isStopStarted },
        false)
    | _ => none
  | .callFinalize =>
    match op.phase with
    | .collecting stopRequested waitErr true =>
      match op.runtime.stopResultCh with
      | some stopErr =>
        some ({ op with
          runtime := { op.runtime with stopResultCh := none }
          phase := .finalizing stopRequested waitErr stopErr
          runCalls := op.runCalls ++
            [.stopReceived, .finalizeCalled (finalizeMode stopRequested waitErr)] }, false)
      | none => none
    | .collecting stopRequested waitErr false =>
      some ({ op with
        phase := .finalizing stopRequested waitErr none
        runCalls := op.runCalls ++ [.finalizeCalled (finalizeMode stopRequested waitErr)] },
        false)
    | _ => none
  | .finalizeReturns err timedOut =>
    match op.phase with
    | .finalizing stopRequested waitErr stopErr =>
      some ({ op with
        phase := .finalized stopRequested waitErr stopErr err timedOut
        runCalls := op.runCalls ++ [.finalizeReturned err] }, false)
    | _ => none
  | .finish now =>
    match op.phase with
    | .finalized stopRequested waitErr stopErr finalizeErr finalizeTimedOut =>
      let result := conclude stopRequested waitErr stopErr finalizeErr finalizeTimedOut
      some ({ op with phase := .done }.commitTerminal policy result.2 result.1 now)
    | _ => none

end Op

end Huatuo.Node
