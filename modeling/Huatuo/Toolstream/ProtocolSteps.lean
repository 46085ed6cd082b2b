import Huatuo.Toolstream.Protocol

/-!
# Steps of the toolstream protocol

What the server and a client of a connection can do in one step (`ServerStep`, `ClientStep`), with
what the proofs need about the errors: none of them is without a message, so a session with an error
does not look like one without.
-/

namespace Huatuo.Toolstream

/-! ## Errors have a message -/

theorem joinErrors_ne_empty {err err' : Option String} (h : err ≠ some "") (h' : err' ≠ some "") :
    joinErrors err err' ≠ some "" := by
  cases err with
  | none => exact h'
  | some _ =>
    cases err' with
    | none => exact h
    | some _ => simp [joinErrors]

theorem joinErrors_eq_none {err err' : Option String} (h : joinErrors err err' = none) :
    err = none ∧ err' = none := by
  cases err <;> cases err' <;> simp_all [joinErrors]

theorem ChunkMsg.error_ne_empty (chunk : ChunkMsg) : chunk.error ≠ some "" := by
  unfold ChunkMsg.error
  split <;> simp_all

theorem Session.request_err_ne_empty {T : Type} (unmarshal : List UInt8 → Except String (Option T))
    (session : Session) (chunk : ChunkMsg) : (session.request unmarshal chunk).err ≠ some "" := by
  have herr := chunk.error_ne_empty
  simp only [Session.request]
  split
  · exact herr
  split
  · exact joinErrors_ne_empty herr (by simp)
  · exact joinErrors_ne_empty herr (by simp)
  · exact herr

/-! ## What the server does -/

/-- The steps of `handleConn`. -/
inductive ServerStep (s : State) (i : Nat) (c : Connection) : State → Prop
  | refuse (frames : List Frame) (hgoroutine : c.goroutine = .accepted) :
      ServerStep s i c (s.set i { c with frames, goroutine := .finished })
  | connect (request : ConnectRequest) (rest : List Frame) (hgoroutine : c.goroutine = .accepted)
      (hframes : c.frames = .connect request :: rest) (htask : request.taskID = "") :
      ServerStep s i c
        (s.set i { c with frames := rest, goroutine := .looping request.session true })
  | acquire (request : ConnectRequest) (rest : List Frame) (hgoroutine : c.goroutine = .accepted)
      (hframes : c.frames = .connect request :: rest) (htask : request.taskID ≠ "")
      (hfree : s.tasks request.session.task = none) :
      ServerStep s i c
        ({ s with tasks := Function.update s.tasks request.session.task (some i) }.set i
          { c with frames := rest, goroutine := .looping request.session true })
  | reject (request : ConnectRequest) (rest : List Frame) (err : String)
      (hgoroutine : c.goroutine = .accepted) (hframes : c.frames = .connect request :: rest)
      (herr : err ≠ "") :
      ServerStep s i c
        (s.set i
          { c with
            frames := rest, goroutine := .looping { request.session with err := some err } false })
  | endLoop (frames : List Frame) (session : Session) (owner : Bool)
      (hgoroutine : c.goroutine = .looping session owner) :
      ServerStep s i c (s.set i { c with frames, goroutine := .returning session owner })
  | invoke (session : Session) (chunk : ChunkMsg) (rest : List Frame)
      (hgoroutine : c.goroutine = .looping session true)
      (hframes : c.frames = .chunk chunk :: rest) :
      ServerStep s i c
        ({ s with log := s.log ++ [Event.invoked i session.task chunk.checked] }.set i
          { c with frames := rest, goroutine := .handling session chunk.checked })
  /-- without a handler, or without ownership -/
  | skip (session session' : Session) (owner : Bool) (chunk : ChunkMsg) (rest : List Frame)
      (hgoroutine : c.goroutine = .looping session owner)
      (hframes : c.frames = .chunk chunk :: rest)
      (htask : session'.taskID = session.taskID ∧ session'.serviceName = session.serviceName)
      (herr : session.err ≠ some "" → (owner = false → session.err ≠ none) →
        session'.err ≠ some "" ∧ session'.err ≠ none) :
      ServerStep s i c
        (s.set i { c with frames := rest, goroutine := .handled session' owner chunk.checked })
  | handlerReturns (session : Session) (chunk : ChunkMsg) (err : Option String)
      (hgoroutine : c.goroutine = .handling session chunk) (herr : err ≠ some "") :
      ServerStep s i c
        ({ s with log := s.log ++ [Event.returned i err] }.set i
          { c with goroutine := .handled (session.fail err) true chunk })
  | proceed (session : Session) (owner : Bool) (chunk : ChunkMsg) (answered : Bool)
      (hgoroutine : c.goroutine = .handled session owner chunk) :
      ServerStep s i c (s.set i (proceed c session owner chunk answered))
  | release (session : Session) (owner : Bool)
      (hgoroutine : c.goroutine = .returning session owner) :
      ServerStep s i c (release s i c session owner)

/-- The steps of a client, or of another peer. -/
inductive ClientStep (c : Connection) : Connection → Prop
  | rawWrite (frame : Frame) (hraw : c.client = none) :
      ClientStep c { c with frames := c.frames ++ [frame] }
  | send (client : Client) (data : List UInt8) (opts : SendOptions) (failure : Option String)
      (delivered : Bool) (hclient : c.client = some client) (hready : client.terminalErr = none)
      (hidle : client.awaiting = false) (hopts : opts.commit = true → opts.isEnd = true) :
      ClientStep c (send c client data opts failure delivered)
  | receiveResult (client : Client) (result : String) (rest : List String)
      (hclient : c.client = some client) (hresults : c.results = result :: rest)
      (hawaiting : client.awaiting = true) : ClientStep c (receiveResult c client result rest)
  | receiveFails (client : Client) (err : String) (hclient : c.client = some client)
      (hawaiting : client.awaiting = true) : ClientStep c (receiveFails c client err)

section Inversion

variable {T : Type} {unmarshal : List UInt8 → Except String (Option T)} {s s' : State} {i : Nat}
  {c : Connection}

theorem serverStep_handshake {request : ConnectRequest} {rest : List Frame}
    (hgo : c.goroutine = .accepted) (hfrs : c.frames = .connect request :: rest) :
    ServerStep s i c (handshake s i { c with frames := rest } request) := by
  simp only [handshake]
  split
  · exact .refuse rest hgo
  split
  · next htask => exact .connect request rest hgo hfrs htask
  rename_i htask
  split
  · next hfree => exact .acquire request rest hgo hfrs htask hfree
  · exact .reject request rest _ hgo hfrs (by simp)

theorem serverStep_receive {session : Session} {owner : Bool} {chunk : ChunkMsg} {rest : List Frame}
    (hgo : c.goroutine = .looping session owner) (hfrs : c.frames = .chunk chunk :: rest) :
    ServerStep s i c (receive s i { c with frames := rest } session owner chunk.checked) := by
  simp only [receive]
  split
  · next hown =>
    subst hown
    split
    · exact .invoke session chunk rest hgo hfrs
    refine .skip session _ true chunk rest hgo hfrs ⟨rfl, rfl⟩ fun herr _ => ?_
    have hmis : joinErrors chunk.checked.error (some "no handler registered") ≠ some "" :=
      joinErrors_ne_empty (ChunkMsg.error_ne_empty _) (by simp)
    refine ⟨joinErrors_ne_empty herr hmis, fun hnone => ?_⟩
    exact absurd (joinErrors_eq_none (joinErrors_eq_none hnone).2).2 nofun
  · next hown =>
    have hown : owner = false := Bool.not_eq_true _ ▸ hown
    subst hown
    exact .skip session session false chunk rest hgo hfrs ⟨rfl, rfl⟩
      fun herr hrej => ⟨herr, hrej rfl⟩

theorem serverStep_decode (hstep : decode s i c = some s') : ServerStep s i c s' := by
  unfold decode at hstep
  split at hstep <;> cases hstep
  · next hgo hfrs => exact serverStep_handshake hgo hfrs
  · next _ hgo _ => exact .refuse _ hgo
  · next hgo hfrs => exact serverStep_receive hgo hfrs
  · next _ hgo _ => exact .endLoop _ _ _ hgo

theorem stepConnection_cases {action : ConnectionAction}
    (hstep : stepConnection unmarshal s i c action = some s') :
    ServerStep s i c s' ∨ ∃ c', ClientStep c c' ∧ s' = s.set i c' := by
  cases action with simp only [stepConnection] at hstep
  | rawWrite frame =>
    split at hstep <;> cases hstep
    next hraw => exact .inr ⟨_, .rawWrite frame hraw, rfl⟩
  | send data opts failure delivered =>
    split at hstep
    · next client hcl =>
      split at hstep <;> cases hstep
      next hready =>
      exact .inr ⟨_, .send client data opts failure delivered hcl hready.1 hready.2.1 hready.2.2,
        rfl⟩
    · cases hstep
  | receiveResult =>
    split at hstep
    · next client result rest hcl hress =>
      split at hstep <;> cases hstep
      next hawa => exact .inr ⟨_, .receiveResult client result rest hcl hress hawa, rfl⟩
    · cases hstep
  | receiveFails err =>
    split at hstep
    · next client hcl =>
      split at hstep <;> cases hstep
      next hawa => exact .inr ⟨_, .receiveFails client err hcl hawa, rfl⟩
    · cases hstep
  | decode => exact .inl (serverStep_decode hstep)
  | stop =>
    split at hstep <;> cases hstep
    · next hgo => exact .inl (.refuse c.frames hgo)
    · next hgo => exact .inl (.endLoop c.frames _ _ hgo)
  | handlerReturns err =>
    split at hstep
    · next session chunk hgo =>
      split at hstep <;> cases hstep
      next herr =>
      refine .inl (.handlerReturns session chunk _ hgo (joinErrors_ne_empty ?_ herr))
      exact session.request_err_ne_empty unmarshal chunk
    · cases hstep
  | proceed answered =>
    split at hstep <;> cases hstep
    next hgo => exact .inl (.proceed _ _ _ answered hgo)
  | release =>
    split at hstep <;> cases hstep
    next hgo => exact .inl (.release _ _ hgo)

end Inversion

end Huatuo.Toolstream
