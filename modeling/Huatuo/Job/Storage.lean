import Mathlib.Algebra.Ring.Int.Defs
import Huatuo.Job.Types

/-!
# The Job store

`storage_mapper.go` and `storage_store.go` over the SQLite backend. A row holds the encoded payload
and the fields that queries look at. One statement is one step on the table: the conditional
`UPDATE` of `save` compares the revision and writes the row at once.

`Encode` and `Decode` are modelled up to `json.Marshal`, which is injective on payloads: a payload
is its own encoding. `decode_encode` is why a Job that is read back is the Job that was written.
-/

namespace Huatuo.Job

/-! ## Records -/

def currentStorageSchemaVersion : Int := 1

structure StoragePayload where
  schemaVersion : Int
  id : String
  kind : Kind
  userID : String
  hostname : String
  durationSeconds : Int
  scope : Observation.Scope
  containerID : String
  spec : Spec
  status : Status
  terminal : Option TerminalResult
  createdAt : Time
  updatedAt : Time
  startedAt : Time
  endedAt : Time
  pendingDeadline : Time
  executionDeadline : Time
  nodeUnavailableDeadline : Time
  stopDeadline : Time
  stopReason : StopReason
  deriving DecidableEq, Repr

/-- A row, without its key. Of the indexed fields only those are kept that a conditional save, a
recovery or a cleanup looks at. -/
structure Record where
  data : StoragePayload
  status : Status
  revision : Int
  deriving DecidableEq, Repr

/-- The errors of the store. -/
inductive StoreError where
  | invalidQuery (message : String)
  | encodeFailed (message : String)
  | decodeFailed (message : String)
  | alreadyExists
  | conflict
  | notFound
  deriving DecidableEq, Repr

/-- `recordMapper.Encode`. -/
def encode (job : Job) : Except StoreError StoragePayload :=
  match job.validateStored with
  | .error err => .error (.encodeFailed ("encode job: " ++ err))
  | .ok () =>
    .ok
      { schemaVersion := currentStorageSchemaVersion
        id := job.id
        kind := job.kind
        userID := job.userID
        hostname := job.hostname
        durationSeconds := job.duration / Duration.second
        scope := job.scope
        containerID := job.containerID
        spec := job.spec
        status := job.status
        terminal := job.terminal
        createdAt := job.createdAt
        updatedAt := job.updatedAt
        startedAt := job.startedAt
        endedAt := job.endedAt
        pendingDeadline := job.pendingDeadline
        executionDeadline := job.executionDeadline
        nodeUnavailableDeadline := job.nodeUnavailableDeadline
        stopDeadline := job.stopDeadline
        stopReason := job.stopReason }

/-- `recordMapper.Decode`, of the row with key `rowID`. -/
def decode (rowID : String) (record : Record) : Except StoreError Job :=
  let payload := record.data
  if payload.schemaVersion ≠ currentStorageSchemaVersion then
    .error (.decodeFailed ("unsupported schema version " ++ toString payload.schemaVersion))
  else if payload.id ≠ rowID then
    .error (.decodeFailed
      ("payload ID " ++ payload.id.quote ++ " does not match row ID " ++ rowID.quote))
  else if record.revision ≤ 0 then .error (.decodeFailed "field revision: value is required")
  else
    let job : Job :=
      { id := payload.id
        kind := payload.kind
        userID := payload.userID
        hostname := payload.hostname
        duration := payload.durationSeconds * Duration.second
        scope := payload.scope
        containerID := payload.containerID
        spec := payload.spec
        status := payload.status
        terminal := payload.terminal
        createdAt := payload.createdAt
        updatedAt := payload.updatedAt
        startedAt := payload.startedAt
        endedAt := payload.endedAt
        pendingDeadline := payload.pendingDeadline
        executionDeadline := payload.executionDeadline
        nodeUnavailableDeadline := payload.nodeUnavailableDeadline
        stopDeadline := payload.stopDeadline
        stopReason := payload.stopReason
        revision := record.revision }
    match job.validateStored with
    | .error err => .error (.decodeFailed err)
    | .ok () => .ok job

/-! ## The table -/

/-- The rows by primary key. -/
abbrev Table := String → Option Record

def mathMaxInt64 : Int := 2 ^ 63 - 1

/-- Encode a Job and its indexed fields. -/
def record (job : Job) : Except StoreError Record :=
  match encode job with
  | .error err => .error err
  | .ok data => .ok { data := data, status := job.status, revision := job.revision }

/-- `Store.Create`. -/
def create (table : Table) (job : Job) : Except StoreError Table :=
  if job.revision ≠ 1 then .error (.invalidQuery "created job revision must be 1")
  else
    match record job with
    | .error err => .error err
    | .ok row =>
      if (table job.id).isSome then .error .alreadyExists
      else .ok (Function.update table job.id (some row))

/-- The copy that `Save` writes. -/
def nextRevision (job : Job) : Job := { job with revision := job.revision + 1 }

/-- `Store.Save`: the version with the next revision, if the row still has this one. -/
def save (table : Table) (job : Job) : Except StoreError (Job × Table) :=
  if job.revision ≤ 0 ∨ job.revision = mathMaxInt64 then
    .error (.invalidQuery "saved job revision is invalid")
  else
    match record job.nextRevision with
    | .error err => .error err
    | .ok row =>
      match table job.id with
      | none => .error .conflict
      | some current =>
        if current.revision ≠ job.revision then .error .conflict
        else .ok (job.nextRevision, Function.update table job.id (some row))

/-- `Store.Get`. -/
def get (table : Table) (jobID : String) : Except StoreError Job :=
  match table jobID with
  | none => .error .notFound
  | some row => decode jobID row

end Huatuo.Job
