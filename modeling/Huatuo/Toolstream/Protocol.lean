import Huatuo.Lib.Runs

/-!
# The toolstream protocol

`internal/toolstream`: tools send frames over a Unix socket, and the server passes the frames of a
connection to the handler of its service, one after another. The first frame names the service and a
task; a connection for a task that another one owns is read but not dispatched. A commit is answered
with the errors of the whole connection.

A connection is a stream of frames to the server and a stream of results back. `handleConn` runs in
a goroutine of its own: it decodes a frame, is in the handler, and answers in separate steps, and
those of other connections may come in between. Streams may end at any time. Handlers return what
they like, but no error without a message. A client is the one of `internal/toolstream/client.go`,
which sends nothing after a failed `Send`, or any other peer, which writes any frames it likes
(`rawWrite`).

An error is its message, and JSON is decoded by a parameter. `log` records the calls of handlers,
and `committed` the frames that a client had sent when a `Send` with `Commit` returned nil.
-/

namespace Huatuo.Toolstream

open Function

/-! ## Frames -/

structure ConnectRequest where
  serviceName : String
  toolName : String := ""
  version : String := ""
  taskID : String := ""
  /-- a client writes 3 -/
  protoVersion : Nat := 3
  deriving DecidableEq, Repr

structure ChunkMsg where
  data : List UInt8 := []
  commit : Bool := false
  isEnd : Bool := false
  err : String := ""
  deriving DecidableEq, Repr

/-- What a frame decodes to. -/
inductive Frame where
  | connect (request : ConnectRequest)
  | chunk (msg : ChunkMsg)
  /-- a result, or no message at all -/
  | other
  deriving DecidableEq, Repr

structure Session where
  serviceName : String
  toolName : String
  version : String
  taskID : String
  err : Option String := none
  deriving DecidableEq, Repr

/-- The session of `parseSession`. -/
def ConnectRequest.session (request : ConnectRequest) : Session where
  serviceName := request.serviceName
  toolName := request.toolName
  version := request.version
  taskID := request.taskID

/-- The key of `tasks`. -/
def Session.task (session : Session) : String × String := (session.serviceName, session.taskID)

/-! ## Dispatch -/

/-- `errors.Join` on messages. -/
def joinErrors : Option String → Option String → Option String
  | none, err => err
  | err, none => err
  | some err, some err' => some (err ++ "\n" ++ err')

structure Request (T : Type) where
  serviceName : String
  toolName : String
  version : String
  taskID : String
  data : Option T
  isEnd : Bool
  commit : Bool
  priorErr : Option String
  err : Option String

def ChunkMsg.error (chunk : ChunkMsg) : Option String :=
  if chunk.err = "" then none else some chunk.err

/-- The request that the handler of `Register` gets. -/
def Session.request {T : Type} (unmarshal : List UInt8 → Except String (Option T))
    (session : Session) (chunk : ChunkMsg) : Request T :=
  let request : Request T :=
    { serviceName := session.serviceName
      toolName := session.toolName
      version := session.version
      taskID := session.taskID
      data := none
      isEnd := chunk.isEnd
      commit := chunk.commit
      priorErr := session.err
      err := chunk.error }
  if chunk.data = [] then request
  else
    match unmarshal chunk.data with
    | .error err =>
      { request with
        err := joinErrors request.err
          (some ("unmarshal for " ++ session.serviceName ++ ": " ++ err)) }
    | .ok none =>
      { request with err := joinErrors request.err (some "event payload must not be null") }
    | .ok (some data) => { request with data := some data }

/-- Collect an error in the session, as `dispatch` does. -/
def Session.fail (session : Session) (err : Option String) : Session :=
  { session with err := joinErrors session.err err }

/-- `handleConn` turns a commit that is not a plain end into an error. -/
def ChunkMsg.checked (chunk : ChunkMsg) : ChunkMsg :=
  if chunk.commit ∧ (¬chunk.isEnd ∨ chunk.err ≠ "") then
    { chunk with err := "commit requires end and no tool error", isEnd := true }
  else chunk

/-! ## State -/

/-- Where `handleConn` is; `owner` says that there is no ownership error. -/
inductive Goroutine where
  /-- before the first frame -/
  | accepted
  /-- at the head of the loop -/
  | looping (session : Session) (owner : Bool)
  | handling (session : Session) (chunk : ChunkMsg)
  /-- after the handler, or without it -/
  | handled (session : Session) (owner : Bool) (chunk : ChunkMsg)
  /-- before the deferred calls -/
  | returning (session : Session) (owner : Bool)
  | finished
  deriving DecidableEq, Repr

/-- `Client` of both packages. -/
structure Client where
  request : ConnectRequest
  terminalErr : Option String := none
  /-- in `receiveCommitResult` -/
  awaiting : Bool := false
  sent : List ChunkMsg := []
  committed : Option (List ChunkMsg) := none

structure Connection where
  /-- `none` for any other peer -/
  client : Option Client
  frames : List Frame
  results : List String := []
  goroutine : Goroutine := .accepted

inductive Event where
  | invoked (connection : Nat) (task : String × String) (chunk : ChunkMsg)
  | returned (connection : Nat) (err : Option String)
  deriving DecidableEq, Repr

structure State where
  connections : Nat → Option Connection := fun _ => none
  /-- the connection whose session is in the map -/
  tasks : String × String → Option Nat := fun _ => none
  /-- the services with a handler -/
  handlers : String → Bool := fun _ => false
  log : List Event := []

variable (s : State)

def State.set (i : Nat) (c : Connection) : State :=
  { s with connections := update s.connections i (some c) }

/-! ## The server -/

/-- `handleConn` up to the loop. -/
def handshake (i : Nat) (c : Connection) (request : ConnectRequest) : State :=
  if request.protoVersion ≠ 3 ∨ request.serviceName = "" then
    s.set i { c with goroutine := .finished }
  else
    let session := request.session
    if session.taskID = "" then s.set i { c with goroutine := .looping session true }
    else if s.tasks session.task = none then
      { s with tasks := update s.tasks session.task (some i) }.set i
        { c with goroutine := .looping session true }
    else
      s.set i
        { c with
          goroutine := .looping
            { session with
              err := some ("toolstream: session " ++ session.serviceName ++ "/" ++ session.taskID ++
                " already belongs to another connection") }
            false }

/-- The loop up to the call of the handler, which `dispatch` looks up. -/
def receive (i : Nat) (c : Connection) (session : Session) (owner : Bool) (chunk : ChunkMsg) :
    State :=
  if owner then
    if s.handlers session.serviceName then
      { s with log := s.log ++ [Event.invoked i session.task chunk] }.set i
        { c with goroutine := .handling session chunk }
    else
      let err := joinErrors chunk.error (some "no handler registered")
      s.set i { c with goroutine := .handled (session.fail err) true chunk }
  else s.set i { c with goroutine := .handled session false chunk }

def handlerReturns {T : Type} (unmarshal : List UInt8 → Except String (Option T)) (s : State)
    (i : Nat) (c : Connection) (session : Session) (chunk : ChunkMsg) (err : Option String) :
    State :=
  let err := joinErrors (session.request unmarshal chunk).err err
  { s with log := s.log ++ [Event.returned i err] }.set i
    { c with goroutine := .handled (session.fail err) true chunk }

variable (c : Connection)

/-- The rest of the loop; `answered` says whether the result of a commit could be sent. -/
def proceed (session : Session) (owner : Bool) (chunk : ChunkMsg) (answered : Bool) : Connection :=
  { c with
    results := if chunk.commit ∧ answered then c.results ++ [session.err.getD ""] else c.results
    goroutine := if chunk.isEnd then .returning session owner else .looping session owner }

/-- The deferred calls. -/
def release (i : Nat) (c : Connection) (session : Session) (owner : Bool) : State :=
  { s with
    tasks :=
      if owner ∧ session.taskID ≠ "" then update s.tasks session.task none
      else s.tasks }.set i
    { c with goroutine := .finished }

/-! ## Clients -/

structure SendOptions where
  isEnd : Bool := false
  commit : Bool := false

/-- `Send` up to the result. A write that fails may have reached the server all the same. -/
def send (client : Client) (data : List UInt8) (opts : SendOptions) (failure : Option String)
    (delivered : Bool) : Connection :=
  let chunk : ChunkMsg := { data, commit := opts.commit, isEnd := opts.isEnd }
  match failure with
  | none =>
    { c with
      frames := c.frames ++ [.chunk chunk]
      client := some { client with sent := client.sent ++ [chunk], awaiting := opts.commit } }
  | some err =>
    { c with
      frames := if delivered then c.frames ++ [.chunk chunk] else c.frames
      client := some
        { client with
          sent := if delivered then client.sent ++ [chunk] else client.sent
          terminalErr := some ("send frame: " ++ err) } }

/-- `receiveCommitResult` on a result. -/
def receiveResult (client : Client) (result : String) (rest : List String) : Connection :=
  if result = "" then
    { c with
      results := rest
      client := some { client with awaiting := false, committed := some client.sent } }
  else
    { c with
      results := rest
      client := some
        { client with
          awaiting := false
          terminalErr := some ("remote commit failed: " ++ result) } }

/-- It cannot be read, or not in time. -/
def receiveFails (client : Client) (err : String) : Connection :=
  { c with
    client := some
      { client with
        awaiting := false
        terminalErr := some ("receive commit result (outcome unconfirmed): " ++ err) } }

/-! ## Steps -/

/-- What the goroutine of a connection or its client does. -/
inductive ConnectionAction where
  | rawWrite (frame : Frame)
  | send (data : List UInt8) (opts : SendOptions) (failure : Option String) (delivered : Bool)
  | receiveResult
  | receiveFails (err : String)
  /-- the server decodes the next frame -/
  | decode
  /-- it cannot, or it is shutting down -/
  | stop
  | handlerReturns (err : Option String)
  | proceed (answered : Bool)
  | release

inductive Action where
  | register (serviceName : String)
  /-- a new connection, of a client or of any other peer -/
  | dial (i : Nat) (request : Option ConnectRequest)
  | on (i : Nat) (action : ConnectionAction)

def decode (i : Nat) (c : Connection) : Option State :=
  match c.goroutine, c.frames with
  | .accepted, .connect request :: rest => some (handshake s i { c with frames := rest } request)
  | .accepted, _ :: rest => some (s.set i { c with frames := rest, goroutine := .finished })
  | .looping session owner, .chunk chunk :: rest =>
    some (receive s i { c with frames := rest } session owner chunk.checked)
  | .looping session owner, _ :: rest =>
    some (s.set i { c with frames := rest, goroutine := .returning session owner })
  | _, _ => none

def stepConnection {T : Type} (unmarshal : List UInt8 → Except String (Option T))
    (s : State) (i : Nat)
    (c : Connection) : ConnectionAction → Option State
  | .rawWrite frame =>
    match c.client with
    | none => some (s.set i { c with frames := c.frames ++ [frame] })
    | some _ => none
  | .send data opts failure delivered =>
    match c.client with
    | some client =>
      if client.terminalErr = none ∧ client.awaiting = false ∧ (opts.commit → opts.isEnd) then
        some (s.set i (send c client data opts failure delivered))
      else none
    | none => none
  | .receiveResult =>
    match c.client, c.results with
    | some client, result :: rest =>
      if client.awaiting then some (s.set i (receiveResult c client result rest)) else none
    | _, _ => none
  | .receiveFails err =>
    match c.client with
    | some client => if client.awaiting then some (s.set i (receiveFails c client err)) else none
    | none => none
  | .decode => decode s i c
  | .stop =>
    match c.goroutine with
    | .accepted => some (s.set i { c with goroutine := .finished })
    | .looping session owner => some (s.set i { c with goroutine := .returning session owner })
    | _ => none
  | .handlerReturns err =>
    match c.goroutine with
    | .handling session chunk =>
      if err = some "" then none else some (handlerReturns unmarshal s i c session chunk err)
    | _ => none
  | .proceed answered =>
    match c.goroutine with
    | .handled session owner chunk => some (s.set i (proceed c session owner chunk answered))
    | _ => none
  | .release =>
    match c.goroutine with
    | .returning session owner => some (release s i c session owner)
    | _ => none

/-- A new connection; the handshake of a client is its first frame. -/
def Connection.dialed : Option ConnectRequest → Connection
  | some request => { client := some { request }, frames := [.connect request] }
  | none => { client := none, frames := [] }

def step {T : Type} (unmarshal : List UInt8 → Except String (Option T)) (s : State) :
    Action → Option State
  | .register serviceName => some { s with handlers := update s.handlers serviceName true }
  | .dial i request =>
    match s.connections i with
    | none => some (s.set i (.dialed request))
    | some _ => none
  | .on i action =>
    match s.connections i with
    | none => none
    | some c => stepConnection unmarshal s i c action

end Huatuo.Toolstream
