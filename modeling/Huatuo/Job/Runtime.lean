import Huatuo.Lib.Runs
import Huatuo.Job.Storage
import Huatuo.Job.Transition

/-!
# Job runtimes over one store

`internal/job/runtime.go`, `runtime_node_operation.go` and `runtime_node_error.go`: any number of
runtimes, of one or several managers, supervise Jobs that they share through one table.

A `Runtime` is its cached Job, its transition gate and the point its supervisor has reached. Steps
end where another goroutine or process can interfere: at a read of the cached Job, at the gate, at
a statement of the store, at a request to the Node and at its reply. Whoever holds the gate (the
supervisor or a call of `stop`) first has a version to save, then the result of the save. A save may
fail without having run, and its result may get lost after it ran; a crash removes a runtime at any
point. What the Node replies is arbitrary.

`trace` records, for each Job, the versions written and the requests sent, in order. Nothing reads
it. `issued` is the Job that was made for an ID, and the runtime it was made for; `uuid.NewString`
never returns an ID twice.
-/

namespace Huatuo.Job

open Function
open NodeApi (NodeError)

/-! ## Runtimes -/

/-- The requests of a supervisor to the Node. -/
inductive Request where
  | start
  | get
  | stop
  deriving DecidableEq, Repr

/-- What a request returned. `failed` is an error that is not a `NodeError`. -/
inductive Reply where
  | operation (snapshot : NodeApi.Operation)
  | nodeError (nodeErr : NodeError)
  | failed
  deriving DecidableEq, Repr

/-- Who holds the gate, with what it goes on with. -/
inductive Owner where
  /-- a call of `stop` -/
  | stop
  /-- `saveOperationStartDeadline` -/
  | startDeadline
  /-- `reconcileJobWithOperation`; whether `StopOperation` follows -/
  | operation (shouldStop : Bool)
  /-- `reconcileJobWithError` -/
  | error
  deriving DecidableEq, Repr

inductive Gate where
  | free
  /-- in `Store.Save`, before the statement ran -/
  | saving (owner : Owner) (transition : Transition) (now : Time) (updated : Job)
  /-- in `Store.Save`, after it -/
  | returning (owner : Owner) (result : Except StoreError Job)

/-- Where the supervisor is. -/
inductive Phase where
  /-- in `Store.Create`, before the statement ran -/
  | creating
  /-- in `Store.Create`, after it -/
  | created
  /-- before `superviseOnce` -/
  | idle
  /-- `superviseOnce` decided to start the operation -/
  | startDecided
  | ready (request : Request)
  | awaiting (request : Request)
  | replied (request : Request) (reply : Reply)
  /-- holding the gate -/
  | transitioning
  /-- `superviseOnce` returned `ErrConflict` -/
  | conflicted
  | exited
  deriving DecidableEq, Repr

structure Runtime where
  id : String
  kind : Kind
  hostname : String
  policy : RuntimePolicy
  job : Job
  gate : Gate := .free
  phase : Phase

/-- `newRuntime`. -/
def newRuntime (job : Job) (policy : RuntimePolicy) (phase : Phase) : Runtime where
  id := job.id
  kind := job.kind
  hostname := job.hostname
  policy := policy
  job := job
  phase := phase

namespace Runtime

/-! ## Moves inside a runtime -/

inductive Move where
  /-- the context was canceled -/
  | leave
  /-- `Store.Create` returns; a failure may hide that it ran -/
  | createReturns (failed : Bool)
  | stop (now : Time)
  | supervise
  | startDeadline (now : Time)
  | reply (reply : Reply)
  | reconcile (now : Time)
  /-- `Store.Save` fails without having run -/
  | saveFails
  /-- `Store.Save` returns; a failure may hide that it ran -/
  | saveReturns (failed : Bool)

variable (r : Runtime)

/-- `stop`, up to its save. -/
def stop (now : Time) : Runtime :=
  match Job.stop r.policy r.job now with
  | none => r
  | some updated => { r with gate := .saving .stop .stop now updated }

/-- The head of `superviseOnce`. -/
def supervise : Runtime :=
  if isTerminal r.job.status then { r with phase := .exited }
  else if r.job.status = .pending ∧ r.job.pendingDeadline.isZero then
    { r with phase := .startDecided }
  else { r with phase := .ready .get }

/-- `saveOperationStartDeadline`, up to its save. -/
def startDeadline (now : Time) : Runtime :=
  match Job.startDeadline r.policy r.job now with
  | none => { r with phase := .conflicted }
  | some updated =>
    { r with gate := .saving .startDeadline .startDeadline now updated, phase := .transitioning }

/-- `reconcileOperation` after a reply to `Start` or `Get` sends `Stop` if it has to; after the
reply to `Stop` it does not. -/
def sendsStop (request : Request) (reconciliation : Reconciliation) : Bool :=
  request != .stop && reconciliation.shouldStop

/-- `reconcileJobWithOperation`, up to its save. -/
def reconcileOperation (request : Request) (snapshot : NodeApi.Operation) (now : Time) : Runtime :=
  match reconcileJobWithOperation r.policy snapshot r.job now with
  | none => { r with phase := .exited }
  | some reconciliation =>
    let shouldStop := sendsStop request reconciliation
    if reconciliation.changed then
      { r with
        gate := .saving (.operation shouldStop) (.operation snapshot) now reconciliation.updated
        phase := .transitioning }
    else { r with phase := if shouldStop then .ready .stop else .idle }

/-- `reconcileJobWithError`, up to its save. -/
def reconcileError (nodeErr : NodeError) (now : Time) : Runtime :=
  match reconcileJobWithError r.policy nodeErr r.job now with
  | none => { r with phase := if isTerminal r.job.status then .exited else .idle }
  | some updated =>
    { r with gate := .saving .error (.error nodeErr) now updated, phase := .transitioning }

/-- After a save that returned nil. -/
def saved (owner : Owner) (persisted : Job) : Runtime :=
  let r := { r with job := persisted, gate := .free }
  match owner with
  | .stop => r
  | .startDeadline => { r with phase := .ready .start }
  | .operation shouldStop =>
    if isTerminal persisted.status then { r with phase := .exited }
    else { r with phase := if shouldStop then .ready .stop else .idle }
  | .error => { r with phase := if isTerminal persisted.status then .exited else .idle }

/-- After a save that returned an error. -/
def unsaved (owner : Owner) (err : StoreError) : Runtime :=
  let r := { r with gate := .free }
  match owner with
  | .stop => r
  | _ => { r with phase := if err = .conflict then .conflicted else .idle }

/-- The error of a statement that failed for a reason of its own. -/
def backendError : StoreError := .invalidQuery "sqlite backend save"

def move (r : Runtime) : Move → Option Runtime
  | .leave =>
    match r.phase with
    | .creating | .created | .transitioning => none
    | _ => some { r with phase := .exited }
  | .createReturns failed =>
    match r.phase with
    | .creating => if failed then some { r with phase := .exited } else none
    | .created => some { r with phase := if failed then .exited else .idle }
    | _ => none
  | .stop now =>
    match r.gate with
    | .free => if now = Time.zero then none else some (r.stop now)
    | _ => none
  | .supervise =>
    match r.phase with
    | .idle => some r.supervise
    | _ => none
  | .startDeadline now =>
    match r.phase, r.gate with
    | .startDecided, .free => if now = Time.zero then none else some (r.startDeadline now)
    | _, _ => none
  | .reply reply =>
    match r.phase with
    | .awaiting request => some { r with phase := .replied request reply }
    | _ => none
  | .reconcile now =>
    match r.phase, r.gate with
    | .replied request reply, .free =>
      if now = Time.zero then none
      else
        match reply with
        | .operation snapshot => some (r.reconcileOperation request snapshot now)
        | .nodeError nodeErr => some (r.reconcileError nodeErr now)
        | .failed => some { r with phase := .idle }
    | _, _ => none
  | .saveFails =>
    match r.gate with
    | .saving owner _ _ _ => some { r with gate := .returning owner (.error backendError) }
    | _ => none
  | .saveReturns failed =>
    match r.gate with
    | .returning owner result =>
      match failed, result with
      | false, .ok persisted => some (r.saved owner persisted)
      | true, .ok _ => some (r.unsaved owner backendError)
      | _, .error err => some (r.unsaved owner err)
    | _ => none

end Runtime

/-! ## The system -/

/-- What happened to a Job. -/
inductive Event where
  | created (job : Job)
  /-- `writer` is the runtime -/
  | saved (writer : Nat) (transition : Transition) (now : Time) (job : Job)
  | sent (request : Request)
  deriving DecidableEq, Repr

structure World where
  table : Table := fun _ => none
  runtimes : Nat → Option Runtime := fun _ => none
  issued : String → Option (Nat × Job) := fun _ => none
  trace : String → List Event := fun _ => []

namespace World

inductive Action where
  /-- `Manager.Create`, up to `Store.Create` -/
  | create (i : Nat) (request : CreateRequest) (id : String) (now : Time) (policy : RuntimePolicy)
  | createRuns (i : Nat)
  /-- `Manager.recover`, for one Job -/
  | recover (i : Nat) (id : String) (policy : RuntimePolicy)
  | crash (i : Nat)
  /-- a row that `DeleteTerminalBefore` deletes -/
  | cleanup (id : String)
  | saveRuns (i : Nat)
  | reload (i : Nat) (failed : Bool)
  | send (i : Nat)
  | move (i : Nat) (move : Runtime.Move)

variable (w : World)

def setRuntime (i : Nat) (r : Runtime) : World :=
  { w with runtimes := update w.runtimes i (some r) }

def record (id : String) (event : Event) : World :=
  { w with trace := update w.trace id (w.trace id ++ [event]) }

/-- The statement of `Store.Create`. -/
def createRuns (i : Nat) (r : Runtime) : Option World :=
  match r.phase, w.issued r.id with
  | .creating, some (_, job) =>
    match create w.table job with
    | .error _ => some (w.setRuntime i { r with phase := .exited })
    | .ok table =>
      some (({ w with table := table }.setRuntime i { r with phase := .created }).record
        job.id (.created job))
  | _, _ => none

/-- The statement of `Store.Save`. -/
def saveRuns (i : Nat) (r : Runtime) : Option World :=
  match r.gate with
  | .saving owner transition now updated =>
    match save w.table updated with
    | .error err => some (w.setRuntime i { r with gate := .returning owner (.error err) })
    | .ok (persisted, table) =>
      some (({ w with table := table }.setRuntime i
        { r with gate := .returning owner (.ok persisted) }).record
          updated.id (.saved i transition now persisted))
  | _ => none

/-- `reloadFromStore`. -/
def reload (i : Nat) (r : Runtime) (failed : Bool) : Option World :=
  match r.phase, r.gate with
  | .conflicted, .free =>
    match failed, get w.table r.id with
    | false, .ok stored =>
      if stored.id ≠ r.id ∨ stored.kind ≠ r.kind ∨ stored.hostname ≠ r.hostname then
        some (w.setRuntime i { r with phase := .idle })
      else
        some (w.setRuntime i { r with
          job := stored, phase := if isTerminal stored.status then .exited else .idle })
    | _, _ => some (w.setRuntime i { r with phase := .idle })
  | _, _ => none

/-- A request leaves for the Node. -/
def send (i : Nat) (r : Runtime) : Option World :=
  match r.phase with
  | .ready request =>
    some ((w.setRuntime i { r with phase := .awaiting request }).record r.id (.sent request))
  | _ => none

def step (w : World) : Action → Option World
  | .create i request id now policy =>
    match w.runtimes i, w.issued id, request.validate with
    | none, none, .ok () =>
      let job := request.newJob id now
      some { w.setRuntime i (newRuntime job policy .creating) with
        issued := update w.issued id (some (i, job)) }
    | _, _, _ => none
  | .recover i id policy =>
    match w.runtimes i, get w.table id with
    | none, .ok stored =>
      if isRecoverable stored.status then
        some (w.setRuntime i (newRuntime stored policy .idle))
      else none
    | _, _ => none
  | .crash i => some { w with runtimes := update w.runtimes i none }
  | .cleanup id =>
    match w.table id with
    | some row =>
      if row.status = .terminal then
        some { w with table := update w.table id none }
      else none
    | none => none
  | .createRuns i => (w.runtimes i).bind (w.createRuns i)
  | .saveRuns i => (w.runtimes i).bind (w.saveRuns i)
  | .reload i failed => (w.runtimes i).bind fun r => w.reload i r failed
  | .send i => (w.runtimes i).bind (w.send i)
  | .move i move =>
    (w.runtimes i).bind fun r => (r.move move).map (w.setRuntime i)

end World

end Huatuo.Job
