import Huatuo.Time

/-!
# The Node API

The values that Apiserver and Node exchange: `apis/v1`, `apis/v1/node` and the errors of `client`.
Values that are strings on the wire are inductive types with a case for any other string.
-/

namespace Huatuo.NodeApi

/-! ## Error codes -/

/-- `apiv1.ErrorCode`, with the codes of `apis/v1`, of `apis/v1/node` and those that `client`
makes itself. -/
inductive ErrorCode where
  | internal
  | invalidRequest
  | methodNotAllowed
  | permissionDenied
  | requestTooLarge
  | routeNotFound
  | serviceUnavailable
  | unauthenticated
  | unsupportedMediaType
  | containerNotFound
  | eventStreamLimitExceeded
  | executionEnvironmentUnsupported
  | executionFailed
  | executionStartFailed
  | executionStopFailed
  | finalizationFailed
  | finalizationTimeout
  | launchTimeout
  | operationLimitExceeded
  | operationNotFound
  | requestIDConflict
  | serviceNotImplemented
  | clientInvalidArgument
  | clientProtocol
  | clientTransport
  | other (raw : String)
  deriving DecidableEq, Repr

def ErrorCode.raw : ErrorCode → String
  | .internal => "internal_error"
  | .invalidRequest => "invalid_request"
  | .methodNotAllowed => "method_not_allowed"
  | .permissionDenied => "permission_denied"
  | .requestTooLarge => "request_too_large"
  | .routeNotFound => "route_not_found"
  | .serviceUnavailable => "service_unavailable"
  | .unauthenticated => "unauthenticated"
  | .unsupportedMediaType => "unsupported_media_type"
  | .containerNotFound => "container_not_found"
  | .eventStreamLimitExceeded => "event_stream_limit_exceeded"
  | .executionEnvironmentUnsupported => "execution_environment_unsupported"
  | .executionFailed => "execution_failed"
  | .executionStartFailed => "execution_start_failed"
  | .executionStopFailed => "execution_stop_failed"
  | .finalizationFailed => "finalization_failed"
  | .finalizationTimeout => "finalization_timeout"
  | .launchTimeout => "launch_timeout"
  | .operationLimitExceeded => "operation_limit_exceeded"
  | .operationNotFound => "operation_not_found"
  | .requestIDConflict => "request_id_conflict"
  | .serviceNotImplemented => "service_not_implemented"
  | .clientInvalidArgument => "client_invalid_argument"
  | .clientProtocol => "client_protocol"
  | .clientTransport => "client_transport"
  | .other raw => raw

/-- `client.NodeError`, as far as a Job reads it. -/
structure NodeError where
  code : ErrorCode
  message : String
  deriving DecidableEq, Repr

/-! ## Operations -/

inductive OperationStatus where
  | pending
  | running
  | stopping
  | terminal
  | unsupported (raw : String)
  deriving DecidableEq, Repr

inductive OperationOutcome where
  | completed
  | failed
  | stopped
  | unsupported (raw : String)
  deriving DecidableEq, Repr

structure OperationTerminal where
  outcome : OperationOutcome
  reason : Option String := none
  message : Option String := none
  deriving DecidableEq, Repr

/-- `nodeapi.Operation`. Its kind and timestamps are read by nothing that is modelled. -/
structure Operation where
  requestID : String
  status : OperationStatus
  terminal : Option OperationTerminal := none
  deriving DecidableEq, Repr

end Huatuo.NodeApi
