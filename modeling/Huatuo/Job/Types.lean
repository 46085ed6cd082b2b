import Huatuo.Job.Spec

/-!
# Jobs

`internal/job/types.go` and the validation of a stored Job, `internal/job/validate.go`.

The states of a Job are strings in the source; here they are inductive types with a case for the
strings that validation rejects. A zero `Time` is an unset timestamp.
-/

namespace Huatuo

namespace Job

/-! ## Types -/

inductive Status where
  | pending
  | running
  | stopping
  | terminal
  | unsupported (raw : String)
  deriving DecidableEq, Repr

inductive Outcome where
  | completed
  | failed
  | stopped
  | unknown
  | unsupported (raw : String)
  deriving DecidableEq, Repr

/-- `none` is the empty reason of a result that is not a failure. -/
inductive FailureReason where
  | none
  | executionStartFailed
  | executionCapacityExceeded
  | startTimeout
  | executionFailed
  | executionTimedOut
  | stopTimeout
  | nodeUnavailable
  | operationLost
  | invalidNodeRequest
  | protocolError
  | unsupported (raw : String)
  deriving DecidableEq, Repr

/-- Why Apiserver requested the end of the Node operation; `none` is the empty reason. -/
inductive StopReason where
  | none
  | user
  | startTimeout
  | executionTimeout
  | unsupported (raw : String)
  deriving DecidableEq, Repr

structure TerminalResult where
  outcome : Outcome
  reason : FailureReason := .none
  message : String := ""
  deriving DecidableEq, Repr

end Job

open Job in
/-- The persistent lifecycle of one Node request ID. -/
structure Job where
  id : String
  kind : Kind
  userID : String
  hostname : String
  duration : Duration
  scope : Observation.Scope
  containerID : String
  spec : Spec
  status : Status
  terminal : Option TerminalResult := none
  createdAt : Time
  updatedAt : Time
  startedAt : Time := Time.zero
  endedAt : Time := Time.zero
  pendingDeadline : Time := Time.zero
  executionDeadline : Time := Time.zero
  nodeUnavailableDeadline : Time := Time.zero
  stopDeadline : Time := Time.zero
  stopReason : StopReason := .none
  revision : Int
  deriving DecidableEq, Repr

namespace Job

def isTerminal (status : Status) : Bool := status == .terminal

/-- The statuses of the Jobs that `recover` takes up. -/
def isRecoverable (status : Status) : Bool :=
  status == .pending || status == .running || status == .stopping

/-- The periods a runtime waits for or adds to the clock. `NewManager` rejects a configuration in
which one of them is not positive. -/
structure RuntimePolicy where
  statusPollInterval : Duration
  pendingTimeout : Duration
  completionGracePeriod : Duration
  nodeUnavailableGracePeriod : Duration
  statusPollInterval_pos : 0 < statusPollInterval
  pendingTimeout_pos : 0 < pendingTimeout
  completionGracePeriod_pos : 0 < completionGracePeriod
  nodeUnavailableGracePeriod_pos : 0 < nodeUnavailableGracePeriod

/-! ## Validation -/

def isValidStatus : Status → Bool
  | .pending | .running | .stopping | .terminal => true
  | .unsupported _ => false

def isValidOutcome : Outcome → Bool
  | .completed | .failed | .stopped | .unknown => true
  | .unsupported _ => false

def isValidFailureReason : FailureReason → Bool
  | .executionStartFailed | .executionCapacityExceeded | .startTimeout | .executionFailed
  | .executionTimedOut | .stopTimeout | .nodeUnavailable | .operationLost
  | .invalidNodeRequest | .protocolError => true
  | .none | .unsupported _ => false

def isValidStopReason : StopReason → Bool
  | .none | .user | .startTimeout | .executionTimeout => true
  | .unsupported _ => false

def Status.raw : Status → String
  | .pending => "pending"
  | .running => "running"
  | .stopping => "stopping"
  | .terminal => "terminal"
  | .unsupported raw => raw

def Outcome.raw : Outcome → String
  | .completed => "completed"
  | .failed => "failed"
  | .stopped => "stopped"
  | .unknown => "unknown"
  | .unsupported raw => raw

def FailureReason.raw : FailureReason → String
  | .none => ""
  | .executionStartFailed => "execution_start_failed"
  | .executionCapacityExceeded => "execution_capacity_exceeded"
  | .startTimeout => "start_timeout"
  | .executionFailed => "execution_failed"
  | .executionTimedOut => "execution_timed_out"
  | .stopTimeout => "stop_timeout"
  | .nodeUnavailable => "node_unavailable"
  | .operationLost => "operation_lost"
  | .invalidNodeRequest => "invalid_node_request"
  | .protocolError => "protocol_error"
  | .unsupported raw => raw

def StopReason.raw : StopReason → String
  | .none => ""
  | .user => "user_requested"
  | .startTimeout => "start_timeout"
  | .executionTimeout => "execution_timeout"
  | .unsupported raw => raw

/-- The checks of a terminal result. -/
def validateTerminal : Option TerminalResult → Except String Unit
  | none => .ok ()
  | some terminal =>
    if ¬ isValidOutcome terminal.outcome then
      .error ("unsupported job terminal outcome " ++ terminal.outcome.raw.quote)
    else if terminal.outcome = .failed ∧ ¬ isValidFailureReason terminal.reason then
      .error ("unsupported job failure reason " ++ terminal.reason.raw.quote)
    else .ok ()

def validateState (j : Job) : Except String Unit :=
  if ¬ isValidStatus j.status then .error ("unsupported job status " ++ j.status.raw.quote)
  else if decide (j.status = .terminal) ≠ j.terminal.isSome then
    .error "job terminal result must be present exactly when status is terminal"
  else
    match validateTerminal j.terminal with
    | .error err => .error err
    | .ok () =>
      if isTerminal j.status ≠ !j.endedAt.isZero then
        .error "job ended timestamp must be present exactly when status is terminal"
      else if ¬ isValidStopReason j.stopReason then
        .error ("unsupported job stop reason " ++ j.stopReason.raw.quote)
      else if j.status = .running ∧ (j.startedAt.isZero ∨ j.executionDeadline.isZero) then
        .error "running job requires started and execution deadline timestamps"
      else if j.status = .stopping ∧ (j.stopReason = .none ∨ j.stopDeadline.isZero) then
        .error "stopping job requires a persisted stop intent and deadline"
      else .ok ()

/-- The checks that a stored Job and a request to create one share. -/
def validateRequest (userID hostname : String) (duration : Duration) (scope : Observation.Scope)
    (containerID : String) (spec : Spec) (kind : Kind) : Except String Unit :=
  if userID = "" then .error "job user ID is required"
  else if hostname = "" then .error "job hostname is required"
  else if duration ≤ 0 ∨ duration % Duration.second ≠ 0 then
    .error "job duration must be a whole positive number of seconds"
  else
    match Observation.validateScope scope containerID with
    | .error err => .error ("validate job scope: " ++ err)
    | .ok () => spec.validate kind scope

def validateStored (j : Job) : Except String Unit :=
  if j.id = "" then .error "job ID is required"
  else if j.revision ≤ 0 then .error "job storage revision is required"
  else
    match validateRequest j.userID j.hostname j.duration j.scope j.containerID j.spec j.kind with
    | .error err => .error err
    | .ok () =>
      if j.createdAt.isZero ∨ j.updatedAt.isZero then
        .error "job created and updated timestamps are required"
      else j.validateState

/-! ## Creation -/

/-- A user's request for a new Job. -/
structure CreateRequest where
  userID : String
  hostname : String
  duration : Duration
  scope : Observation.Scope
  containerID : String
  spec : Spec
  deriving DecidableEq, Repr

def CreateRequest.validate (r : CreateRequest) : Except String Unit :=
  validateRequest r.userID r.hostname r.duration r.scope r.containerID r.spec r.spec.kind

/-- The Job that `Manager.Create` makes of a request. -/
def CreateRequest.newJob (request : CreateRequest) (id : String) (now : Time) : Job where
  id := id
  kind := request.spec.kind
  userID := request.userID
  hostname := request.hostname
  duration := request.duration
  scope := request.scope
  containerID := request.containerID
  spec := request.spec
  status := .pending
  createdAt := now
  updatedAt := now
  revision := 1

end Job

end Huatuo
