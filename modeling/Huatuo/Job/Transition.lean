import Huatuo.Job.Types
import Huatuo.NodeApi

/-!
# Job transitions

The four ways a runtime computes a new version of its Job: `saveOperationStartDeadline`,
`reconcileJobWithOperation` and `reconcileJobWithError` of the supervisor, and a user's `stop`
(`internal/job/runtime.go`, `runtime_node_operation.go`, `runtime_node_error.go`).

Each is a function of the cached Job and one reading of the clock, which is all the source reads
while it holds the transition gate. What happens to the new version is in `Runtime`.
-/

namespace Huatuo.Job

open NodeApi (OperationTerminal NodeError ErrorCode)

def setStopping (job : Job) (reason : StopReason) (now : Time) (gracePeriod : Duration) : Job :=
  { job with
    status := .stopping
    stopReason := reason
    stopDeadline := now.add gracePeriod
    updatedAt := now }

def setTerminal (job : Job) (terminal : TerminalResult) (now : Time) : Job :=
  { job with
    status := .terminal
    terminal := some terminal
    updatedAt := now
    endedAt := if job.endedAt.isZero then now else job.endedAt }

def failedWith (reason : FailureReason) (message : String) : TerminalResult :=
  { outcome := .failed, reason := reason, message := message }

/-! ## Starting -/

variable (policy : RuntimePolicy)

/-- `saveOperationStartDeadline`: the intent to start, unless the Job has left that state. -/
def startDeadline (current : Job) (now : Time) : Option Job :=
  if current.status ≠ .pending ∨ ¬ current.pendingDeadline.isZero then none
  else
    some { current with pendingDeadline := now.add policy.pendingTimeout, updatedAt := now }

/-! ## Stopping -/

/-- `stop`: a Job whose operation was never asked for ends at once. -/
def stop (current : Job) (now : Time) : Option Job :=
  if isTerminal current.status ∨ current.status = .stopping then none
  else if current.status = .pending ∧ current.pendingDeadline.isZero then
    some (setTerminal { current with stopReason := .user } { outcome := .stopped } now)
  else some (setStopping current .user now policy.completionGracePeriod)

/-! ## Node operations -/

def mapOperationFailure (failure : OperationTerminal) : TerminalResult :=
  match failure.reason with
  | none => failedWith .protocolError "failed Node Operation did not include a failure"
  | some reasonCode =>
    if reasonCode = "" then
      failedWith .protocolError "failed Node Operation did not include a failure"
    else
      let message := failure.message.getD ""
      if reasonCode = ErrorCode.executionStartFailed.raw ∨
          reasonCode = ErrorCode.launchTimeout.raw then
        failedWith .executionStartFailed message
      else if reasonCode = ErrorCode.executionFailed.raw ∨
          reasonCode = ErrorCode.executionStopFailed.raw ∨
          reasonCode = ErrorCode.finalizationFailed.raw ∨
          reasonCode = ErrorCode.finalizationTimeout.raw then
        failedWith .executionFailed message
      else failedWith .protocolError message

def terminalResultForStop : StopReason → TerminalResult
  | .user => { outcome := .stopped }
  | .startTimeout =>
    failedWith .startTimeout "Node Operation did not start before the Job pending deadline"
  | .executionTimeout =>
    failedWith .executionTimedOut "Node Operation exceeded the Job execution deadline"
  | _ =>
    failedWith .executionFailed "Node Operation stopped without a persisted Job stop reason"

def stopTimedOut : TerminalResult :=
  failedWith .stopTimeout "Node Operation did not stop before the Job stop deadline"

/-- The result of a terminal Node operation. -/
def terminalResult (current : Job) : Option OperationTerminal → TerminalResult
  | none => failedWith .protocolError "terminal Node Operation did not include terminal details"
  | some terminal =>
    match terminal.outcome with
    | .completed => { outcome := .completed }
    | .failed => mapOperationFailure terminal
    | .stopped => terminalResultForStop current.stopReason
    | .unsupported _ =>
      failedWith .protocolError "Node returned an unsupported terminal outcome"

/-- The switch of `reconcileJobWithOperation` on the operation's status: what becomes of `updated`,
if anything. -/
def followOperation (operation : NodeApi.Operation) (current updated : Job) (now : Time) :
    Option Job :=
  match operation.status with
  | .pending =>
    if current.status = .running then
      some (setTerminal updated
        (failedWith .protocolError "Node Operation regressed from running to pending") now)
    else if current.status = .pending ∧ ¬ now.before current.pendingDeadline then
      some (setStopping updated .startTimeout now policy.completionGracePeriod)
    else none
  | .running =>
    if current.status = .pending then
      some { updated with
        status := .running
        startedAt := now
        executionDeadline :=
          Time.add (now.add current.duration) policy.completionGracePeriod
        updatedAt := now }
    else if current.status = .running ∧ ¬ now.before current.executionDeadline then
      some (setStopping updated .executionTimeout now policy.completionGracePeriod)
    else none
  | .stopping =>
    if current.status ≠ .stopping then
      some (setTerminal updated
        (failedWith .protocolError "Node Operation stopped without a persisted Job stop intent")
        now)
    else if ¬ now.before current.stopDeadline then some (setTerminal updated stopTimedOut now)
    else none
  | .terminal => some (setTerminal updated (terminalResult current operation.terminal) now)
  | .unsupported _ =>
    some (setTerminal updated
      (failedWith .protocolError "Node returned an unsupported Operation status") now)

/-- A new version of a Job, whether it differs from the cached one, and whether the Node is to be
asked to stop once it is saved. -/
structure Reconciliation where
  updated : Job
  changed : Bool
  shouldStop : Bool := false
  deriving DecidableEq, Repr

def isActive (operation : NodeApi.Operation) : Bool :=
  operation.status == .pending || operation.status == .running

/-- The end of `reconcileJobWithOperation`: a stopping Job whose operation is still active. -/
def enforceStop (operation : NodeApi.Operation) (updated : Job) (changed : Bool) (now : Time) :
    Reconciliation :=
  if updated.status = .stopping ∧ isActive operation then
    if ¬ now.before updated.stopDeadline then
      { updated := setTerminal updated stopTimedOut now, changed := true }
    else { updated := updated, changed := changed, shouldStop := true }
  else { updated := updated, changed := changed }

/-- The Node answered, so it is not unavailable any more. -/
def clearUnavailable (current : Job) (now : Time) : Job :=
  if current.nodeUnavailableDeadline.isZero then current
  else { current with nodeUnavailableDeadline := Time.zero, updatedAt := now }

/-- `reconcileJobWithOperation`; nothing for a terminal Job. -/
def reconcileJobWithOperation (operation : NodeApi.Operation) (current : Job) (now : Time) :
    Option Reconciliation :=
  if isTerminal current.status then none
  else
    let cleared := clearUnavailable current now
    let followed := followOperation policy operation current cleared now
    some (enforceStop operation (followed.getD cleared)
      (!current.nodeUnavailableDeadline.isZero || followed.isSome) now)

/-! ## Node errors -/

/-- What an error says about the operation: its end, or nothing as the Node is unavailable. -/
def classifyError (nodeErr : NodeError) (current : Job) : Option TerminalResult :=
  match nodeErr.code with
  | .operationNotFound =>
    if ¬ current.startedAt.isZero then
      some (failedWith .operationLost "Node no longer has the previously observed Operation")
    else some { outcome := .unknown }
  | .clientInvalidArgument | .invalidRequest | .requestIDConflict =>
    some (failedWith .invalidNodeRequest nodeErr.message)
  | .clientTransport | .internal | .serviceUnavailable => none
  | .operationLimitExceeded =>
    some (failedWith .executionCapacityExceeded nodeErr.message)
  | .executionEnvironmentUnsupported | .serviceNotImplemented | .executionStartFailed
  | .launchTimeout => some (failedWith .executionStartFailed nodeErr.message)
  | .executionFailed | .executionStopFailed | .finalizationFailed | .finalizationTimeout =>
    some (failedWith .executionFailed nodeErr.message)
  | _ => some (failedWith .protocolError "Node response violated the Operation protocol")

/-- `reconcileJobWithError`; nothing for a terminal Job, or while the Node may still recover. -/
def reconcileJobWithError (nodeErr : NodeError) (current : Job) (now : Time) : Option Job :=
  if isTerminal current.status then none
  else
    match classifyError nodeErr current with
    | some terminal => some (setTerminal current terminal now)
    | none =>
      if current.nodeUnavailableDeadline.isZero then
        some { current with
          nodeUnavailableDeadline := now.add policy.nodeUnavailableGracePeriod
          updatedAt := now }
      else if ¬ now.before current.nodeUnavailableDeadline then
        some (setTerminal current
          (failedWith .nodeUnavailable "Node remained unavailable beyond the recovery window")
          now)
      else none

/-! ## All of them -/

/-- What a runtime reacts to. -/
inductive Transition where
  | startDeadline
  | operation (snapshot : NodeApi.Operation)
  | error (nodeErr : NodeError)
  | stop
  deriving DecidableEq, Repr

/-- The version that is passed to `Store.Save`, if there is one. -/
def Transition.apply (policy : RuntimePolicy) (current : Job) (now : Time) :
    Transition → Option Job
  | .startDeadline => Job.startDeadline policy current now
  | .operation snapshot =>
    (reconcileJobWithOperation policy snapshot current now).bind fun reconciliation =>
      if reconciliation.changed then some reconciliation.updated else none
  | .error nodeErr => reconcileJobWithError policy nodeErr current now
  | .stop => Job.stop policy current now

end Huatuo.Job
