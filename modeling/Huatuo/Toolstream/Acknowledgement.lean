import Huatuo.Toolstream.ProtocolSteps

/-!
# Acknowledgement

A commit that a client sees succeed is the last frame of its connection: the handler has had all
frames in order, and no call failed. `Progress` says how far a goroutine is in the frames of its
client, and what it has logged if the session has no error.
-/

namespace Huatuo.Toolstream

open List

def Event.connection : Event → Nat
  | .invoked i .. | .returned i _ => i

def eventsOf (i : Nat) (log : List Event) : List Event := log.filter fun e => e.connection = i

/-- Frames that were all passed to the handler, in order, without an error. -/
def calls (i : Nat) (task : String × String) (frames : List ChunkMsg) : List Event :=
  frames.flatMap fun chunk => [.invoked i task chunk, .returned i none]

@[simp] theorem calls_append (i : Nat) (task : String × String) (xs ys : List ChunkMsg) :
    calls i task (xs ++ ys) = calls i task xs ++ calls i task ys :=
  flatMap_append

@[simp] theorem calls_singleton (i : Nat) (task : String × String) (chunk : ChunkMsg) :
    calls i task [chunk] = [.invoked i task chunk, .returned i none] := rfl

/-- What a client has sent: plain frames, and one commit at the end if it waits for the result. -/
structure ClientInv (client : Client) : Prop where
  plain : ∀ chunk ∈ client.sent, chunk.err = "" ∧ (chunk.commit = true → chunk.isEnd = true)
  waiting : client.awaiting = true → client.terminalErr = none
  commits : client.committed = none → client.terminalErr = none →
    ∃ before last, client.sent = before ++ last ∧ (∀ chunk ∈ before, chunk.commit = false) ∧
      if client.awaiting then ∃ chunk, last = [chunk] ∧ chunk.commit = true else last = []

/-- A session with its errors so far. -/
structure Sane (client : Client) (session : Session) (owner : Bool) : Prop where
  task : session.task = client.request.session.task
  message : session.err ≠ some ""
  rejected : owner = false → session.err ≠ none

/-- The goroutine has taken the first frames of its client, and is at its next one. -/
structure Taken (c : Connection) (client : Client) (taken : List ChunkMsg) : Prop where
  frames : ∃ rest, client.sent = taken ++ rest ∧ c.frames = rest.map .chunk
  results : c.results = []
  committed : client.committed = none

/-- The goroutine is about to return. A result that says success follows a commit, and all frames up
to it were passed to the handler. -/
structure Done (i : Nat) (events : List Event) (c : Connection) (client : Client) : Prop where
  single : c.results.length ≤ 1
  unread : c.results ≠ [] → client.committed = none
  success : "" ∈ c.results → ∃ taken chunk, taken ++ [chunk] <+: client.sent ∧ chunk.commit = true ∧
    events = calls i client.request.session.task (taken ++ [chunk])
  committed : ∀ frames, client.committed = some frames →
    events = calls i client.request.session.task frames

/-- How far the goroutine of a connection is in the frames of its client. -/
def Progress (i : Nat) (events : List Event) (c : Connection) (client : Client) : Prop :=
  match c.goroutine with
  | .accepted =>
    c.frames = .connect client.request :: client.sent.map .chunk ∧ c.results = [] ∧
      client.committed = none ∧ events = []
  | .looping session owner =>
    Sane client session owner ∧ ∃ taken, Taken c client taken ∧
      (session.err = none → events = calls i session.task taken)
  | .handling session chunk =>
    Sane client session true ∧ ∃ taken, Taken c client (taken ++ [chunk]) ∧
      (session.err = none → events = calls i session.task taken ++ [.invoked i session.task chunk])
  | .handled session owner chunk =>
    Sane client session owner ∧ ∃ taken, Taken c client (taken ++ [chunk]) ∧
      (session.err = none → events = calls i session.task (taken ++ [chunk]))
  | .returning .. | .finished => Done i events c client

section Acknowledgement

variable {s : State} {i : Nat} {c c' : Connection} {client client' : Client} {events : List Event}
  {chunk : ChunkMsg} {rest : List Frame} {taken : List ChunkMsg} {owner : Bool} {session : Session}

theorem ChunkMsg.checked_eq (h : chunk.err = "" ∧ (chunk.commit = true → chunk.isEnd = true)) :
    chunk.checked = chunk := by
  unfold ChunkMsg.checked
  rw [if_neg]
  rintro ⟨hcom, hnot | herr⟩
  · exact hnot (h.2 hcom)
  · exact herr h.1

/-- The next frame of a client. -/
theorem Taken.next (h : Taken c client taken) (hcl : ClientInv client)
    (hfrs : c.frames = .chunk chunk :: rest) (goroutine : Goroutine) :
    chunk.checked = chunk ∧
      Taken { c with frames := rest, goroutine } client (taken ++ [chunk]) := by
  obtain ⟨left, hsent, hleft⟩ := h.frames
  cases left with
  | nil =>
    simp [hfrs] at hleft
  | cons next left =>
    rw [hfrs] at hleft
    cases hleft
    refine ⟨ChunkMsg.checked_eq (hcl.plain chunk ?_), ⟨left, ?_, rfl⟩, h.results, h.committed⟩
    · rw [hsent]
      exact mem_append_right _ mem_cons_self
    · rw [hsent, append_assoc]
      rfl

theorem Taken.commit_isEnd (h : Taken c client (taken ++ [chunk])) (hcl : ClientInv client)
    (hcom : chunk.commit = true) : chunk.isEnd = true := by
  obtain ⟨left, hsent, _⟩ := h.frames
  refine (hcl.plain chunk ?_).2 hcom
  simp [hsent]

/-- A goroutine that returns without an answer. -/
theorem done_unanswered (hress : c.results = []) (hcomm : client.committed = none) :
    Done i events c client := by
  constructor <;> simp [hress, hcomm]

section

variable (h : Progress i events c client)
include h

theorem progress_connect (hgo : c.goroutine = .accepted)
    {request : ConnectRequest} (hfrs : c.frames = .connect request :: rest) (err : Option String)
    (owner : Bool) (herr : err ≠ some "") (hown : owner = false → err ≠ none) :
    Progress i events
      { c with frames := rest, goroutine := .looping { request.session with err } owner }
        client := by
  rw [Progress, hgo] at h
  obtain ⟨hsent, hress, hcomm, hevs⟩ := h
  cases hfrs.symm.trans hsent
  refine ⟨⟨rfl, herr, hown⟩, [], ⟨⟨client.sent, rfl, rfl⟩, hress, hcomm⟩, fun _ => ?_⟩
  exact hevs

theorem progress_proceed (hcl : ClientInv client) (hgo : c.goroutine = .handled session owner chunk)
    (answered : Bool) : Progress i events (proceed c session owner chunk answered) client := by
  rw [Progress, hgo] at h
  obtain ⟨hsane, taken, htaken, hevs⟩ := h
  unfold proceed
  cases hend : chunk.isEnd with
  | false =>
    have hcom : chunk.commit = false := by
      by_contra hcom
      have hisEnd := htaken.commit_isEnd hcl (Bool.not_eq_false _ ▸ hcom)
      exact absurd (hend.symm.trans hisEnd) nofun
    simp only [hcom, Bool.false_eq_true, false_and, if_false]
    exact ⟨hsane, taken ++ [chunk], ⟨htaken.frames, htaken.results, htaken.committed⟩, hevs⟩
  | true =>
    simp only [if_true, htaken.results]
    refine ⟨?_, fun _ => htaken.committed, fun hsuc => ?_, fun frames hfrs => ?_⟩
    · split <;> simp
    · split at hsuc
      · next hcom =>
        have hnone : session.err = none := by
          cases herr : session.err with
          | none => rfl
          | some err =>
            rw [herr] at hsuc
            exact absurd (mem_singleton.1 hsuc ▸ herr) hsane.message
        obtain ⟨left, hsent, _⟩ := htaken.frames
        refine ⟨taken, chunk, ⟨left, hsent.symm⟩, hcom.1, ?_⟩
        exact hsane.task ▸ hevs hnone
      · cases hsuc
    · cases htaken.committed.symm.trans hfrs

theorem progress_invoke (hcl : ClientInv client) (hgo : c.goroutine = .looping session true)
    (hfrs : c.frames = .chunk chunk :: rest) :
    Progress i (events ++ [.invoked i session.task chunk.checked])
      { c with frames := rest, goroutine := .handling session chunk.checked } client := by
  rw [Progress, hgo] at h
  obtain ⟨hsane, taken, htaken, hevs⟩ := h
  obtain ⟨hche, hnext⟩ := htaken.next hcl hfrs (.handling session chunk)
  rw [hche]
  exact ⟨hsane, taken, hnext, fun hnone => by rw [hevs hnone]⟩

/-- A frame that no handler gets is an error of the session. -/
theorem progress_skip (hcl : ClientInv client) {session' : Session}
    (hgo : c.goroutine = .looping session owner) (hfrs : c.frames = .chunk chunk :: rest)
    (htask : session'.task = session.task)
    (herr : session.err ≠ some "" → (owner = false → session.err ≠ none) →
      session'.err ≠ some "" ∧ session'.err ≠ none) :
    Progress i events
      { c with frames := rest, goroutine := .handled session' owner chunk.checked } client := by
  rw [Progress, hgo] at h
  obtain ⟨hsane, taken, htaken, _⟩ := h
  obtain ⟨hche, hnext⟩ := htaken.next hcl hfrs (.handled session' owner chunk)
  obtain ⟨hmes, hsome⟩ := herr hsane.message hsane.rejected
  rw [hche]
  exact ⟨⟨htask.trans hsane.task, hmes, fun _ => hsome⟩, taken, hnext,
    fun hnone => absurd hnone hsome⟩

theorem progress_returns
    (hgo : c.goroutine = .handling session chunk)
    {err : Option String} (herr : err ≠ some "") :
    Progress i (events ++ [.returned i err])
      { c with goroutine := .handled (session.fail err) true chunk } client := by
  rw [Progress, hgo] at h
  obtain ⟨hsane, taken, htaken, hevs⟩ := h
  refine ⟨⟨hsane.task, joinErrors_ne_empty hsane.message herr, nofun⟩, taken,
    ⟨htaken.frames, htaken.results, htaken.committed⟩, fun hnone => ?_⟩
  obtain ⟨hbef, hnow⟩ := joinErrors_eq_none hnone
  rw [hevs hbef, hnow, calls_append, calls_singleton, append_assoc]
  rfl

theorem progress_release (hgo : c.goroutine = .returning session owner) :
    Progress i events { c with goroutine := .finished } client := by
  rw [Progress, hgo] at h
  exact ⟨h.single, h.unread, h.success, h.committed⟩

end

/-- A step of the server changes its own connection, and the log by calls of it. -/
structure Changes (s : State) (i : Nat) (c' : Connection) (added : List Event) (s' : State) :
    Prop where
  connections : s'.connections = Function.update s.connections i (some c')
  log : s'.log = s.log ++ added
  own : ∀ e ∈ added, e.connection = i

theorem changes_set (s : State) (i : Nat) (c' : Connection) (tasks : String × String → Option Nat) :
    Changes s i c' [] ({ s with tasks }.set i c') :=
  ⟨rfl, (append_nil _).symm, nofun⟩

theorem serverStep_progress {s' : State} (hstep : ServerStep s i c s') :
    ∃ c' added, Changes s i c' added s' ∧ c'.client = c.client ∧
      ∀ events client, ClientInv client → Progress i events c client →
        Progress i (events ++ added) c' client := by
  have hcall {c' : Connection} {event : Event} (hev : event.connection = i) :
      Changes s i c' [event] ({ s with log := s.log ++ [event] }.set i c') :=
    ⟨rfl, rfl, forall_mem_singleton.2 hev⟩
  cases hstep with
  | refuse frames hgo =>
    refine ⟨_, [], changes_set .., rfl, fun events client hcl h => ?_⟩
    rw [Progress, hgo] at h
    exact done_unanswered h.2.1 h.2.2.1
  | connect request rest hgo hfrs | acquire request rest hgo hfrs =>
    refine ⟨_, [], changes_set .., rfl, fun events client hcl h => ?_⟩
    rw [append_nil]
    exact progress_connect h hgo hfrs none true nofun nofun
  | reject request rest err hgo hfrs herr =>
    refine ⟨_, [], changes_set .., rfl, fun events client hcl h => ?_⟩
    rw [append_nil]
    exact progress_connect h hgo hfrs (some err) false
      (fun hemp => herr (Option.some.inj hemp)) nofun
  | endLoop frames session owner hgo =>
    refine ⟨_, [], changes_set .., rfl, fun events client hcl h => ?_⟩
    rw [Progress, hgo] at h
    obtain ⟨_, taken, htaken, _⟩ := h
    exact done_unanswered htaken.results htaken.committed
  | invoke session chunk rest hgo hfrs =>
    exact ⟨_, _, hcall rfl, rfl, fun events client hcl h =>
      progress_invoke h hcl hgo hfrs⟩
  | skip session session' owner chunk rest hgo hfrs htask herr =>
    refine ⟨_, [], changes_set .., rfl, fun events client hcl h => ?_⟩
    rw [append_nil]
    exact progress_skip h hcl hgo hfrs (Prod.ext htask.2 htask.1) herr
  | handlerReturns session chunk err hgo herr =>
    exact ⟨_, _, hcall rfl, rfl, fun events client hcl h => progress_returns h hgo herr⟩
  | proceed session owner chunk answered hgo =>
    refine ⟨_, [], changes_set .., rfl, fun events client hcl h => ?_⟩
    rw [append_nil]
    exact progress_proceed h hcl hgo answered
  | release session owner hgo =>
    refine ⟨_, [], changes_set .., rfl, fun events client hcl h => ?_⟩
    rw [append_nil]
    exact progress_release h hgo

/-- Frames that a client adds to its stream. -/
theorem Taken.send (h : Taken c client taken) (more : List ChunkMsg)
    (hfrs : c'.frames = c.frames ++ more.map .chunk) (hress : c'.results = c.results)
    (hsent : client'.sent = client.sent ++ more) (hcomm : client'.committed = client.committed) :
    Taken c' client' taken := by
  obtain ⟨rest, hrest, hleft⟩ := h.frames
  refine ⟨⟨rest ++ more, ?_, ?_⟩, hress.trans h.results, hcomm.trans h.committed⟩
  · rw [hsent, hrest, append_assoc]
  · rw [hfrs, hleft, map_append]

theorem Done.send (h : Done i events c client) (more : List ChunkMsg)
    (hress : c'.results = c.results)
    (hreq : client'.request = client.request) (hsent : client'.sent = client.sent ++ more)
    (hcomm : client'.committed = client.committed) : Done i events c' client' where
  single := hress ▸ h.single
  unread := by
    rw [hress, hcomm]
    exact h.unread
  success := by
    rw [hress, hreq, hsent]
    intro hsuc
    obtain ⟨taken, chunk, hpre, hrest⟩ := h.success hsuc
    exact ⟨taken, chunk, hpre.trans (prefix_append _ _), hrest⟩
  committed := by
    rw [hcomm, hreq]
    exact h.committed

theorem progress_send (h : Progress i events c client) (more : List ChunkMsg)
    (hgo : c'.goroutine = c.goroutine) (hfrs : c'.frames = c.frames ++ more.map .chunk)
    (hress : c'.results = c.results) (hreq : client'.request = client.request)
    (hsent : client'.sent = client.sent ++ more) (hcomm : client'.committed = client.committed) :
    Progress i events c' client' := by
  have hsane {session : Session} {owner : Bool} (h : Sane client session owner) :
      Sane client' session owner := ⟨hreq ▸ h.task, h.message, h.rejected⟩
  rw [Progress] at h ⊢
  rw [hgo]
  split at h
  · obtain ⟨hcon, hemp, hnone, hevs⟩ := h
    refine ⟨?_, hress.trans hemp, hcomm.trans hnone, hevs⟩
    rw [hfrs, hcon, hreq, hsent, map_append, cons_append]
  · obtain ⟨hs, taken, htaken, hevs⟩ := h
    exact ⟨hsane hs, taken, htaken.send more hfrs hress hsent hcomm, hevs⟩
  · obtain ⟨hs, taken, htaken, hevs⟩ := h
    exact ⟨hsane hs, taken, htaken.send more hfrs hress hsent hcomm, hevs⟩
  · obtain ⟨hs, taken, htaken, hevs⟩ := h
    exact ⟨hsane hs, taken, htaken.send more hfrs hress hsent hcomm, hevs⟩
  · exact h.send more hress hreq hsent hcomm
  · exact h.send more hress hreq hsent hcomm

theorem clientInv_send (h : ClientInv client) (hready : client.terminalErr = none)
    (hidle : client.awaiting = false) (herr : chunk.err = "")
    (hend : chunk.commit = true → chunk.isEnd = true) :
    ClientInv { client with sent := client.sent ++ [chunk], awaiting := chunk.commit } := by
  refine ⟨?_, fun _ => hready, fun hcomm _ => ?_⟩
  · intro x hx
    obtain hx | hx := mem_append.1 hx
    · exact h.plain x hx
    · cases mem_singleton.1 hx
      exact ⟨herr, hend⟩
  · obtain ⟨before, last, hsent, hbef, hlast⟩ := h.commits hcomm hready
    rw [if_neg (by simp [hidle])] at hlast
    subst hlast
    rw [append_nil] at hsent
    cases hcom : chunk.commit with
    | true => exact ⟨client.sent, [chunk], rfl, hsent ▸ hbef, chunk, rfl, hcom⟩
    | false =>
      refine ⟨client.sent ++ [chunk], [], (append_nil _).symm, ?_, rfl⟩
      intro x hx
      obtain hx | hx := mem_append.1 hx
      · exact hbef x (hsent ▸ hx)
      · cases mem_singleton.1 hx
        exact hcom

/-- A prefix with a commit at its end is all that was sent. -/
theorem eq_sent_of_commit (h : ClientInv client) (hawa : client.awaiting = true)
    (hcomm : client.committed = none) (hpre : taken ++ [chunk] <+: client.sent)
    (hcom : chunk.commit = true) : taken ++ [chunk] = client.sent := by
  obtain ⟨before, last, hsent, hbef, hlast⟩ := h.commits hcomm (h.waiting hawa)
  rw [if_pos hawa] at hlast
  obtain ⟨final, rfl, _⟩ := hlast
  rw [hsent] at hpre ⊢
  obtain heq | hshort := prefix_concat_iff.1 hpre
  · exact heq
  · have hmem : chunk ∈ before := hshort.subset (mem_append_right _ mem_cons_self)
    exact absurd (hcom.symm.trans (hbef chunk hmem)) nofun

/-- Only a goroutine that is done has answered. -/
theorem Progress.done (h : Progress i events c client) (hress : c.results ≠ []) :
    Done i events c client ∧ ∀ (events' : List Event) (c' : Connection) (client' : Client),
      c'.goroutine = c.goroutine → Done i events' c' client' → Progress i events' c' client' := by
  rw [Progress] at h
  split at h
  · exact absurd h.2.1 hress
  · obtain ⟨_, taken, htaken, _⟩ := h
    exact absurd htaken.results hress
  · obtain ⟨_, taken, htaken, _⟩ := h
    exact absurd htaken.results hress
  · obtain ⟨_, taken, htaken, _⟩ := h
    exact absurd htaken.results hress
  all_goals
    next hgo =>
    refine ⟨h, fun events' c' client' hsame hdone => ?_⟩
    rw [Progress, hsame, hgo]
    exact hdone

theorem Progress.committed (h : Progress i events c client) {frames : List ChunkMsg}
    (hfrs : client.committed = some frames) :
    events = calls i client.request.session.task frames := by
  rw [Progress] at h
  split at h
  · cases h.2.2.1.symm.trans hfrs
  · obtain ⟨_, taken, htaken, _⟩ := h
    cases htaken.committed.symm.trans hfrs
  · obtain ⟨_, taken, htaken, _⟩ := h
    cases htaken.committed.symm.trans hfrs
  · obtain ⟨_, taken, htaken, _⟩ := h
    cases htaken.committed.symm.trans hfrs
  · exact h.committed frames hfrs
  · exact h.committed frames hfrs

theorem progress_receiveResult (h : Progress i events c client) (hcl : ClientInv client)
    {result : String} {rest : List String} (hress : c.results = result :: rest)
    (hawa : client.awaiting = true)
    (hcl' : (receiveResult c client result rest).client = some client') :
    ClientInv client' ∧ Progress i events (receiveResult c client result rest) client' := by
  obtain ⟨hdone, hpro⟩ := h.done (by simp [hress])
  have hrest : rest = [] := by
    have hsin := hdone.single
    rw [hress] at hsin
    exact length_eq_zero_iff.1 (by simpa using hsin)
  have hcomm := hdone.unread (by simp [hress])
  unfold receiveResult at hcl' ⊢
  split at hcl'
  · next hsuc =>
    cases hcl'
    rw [if_pos hsuc]
    obtain ⟨taken, chunk, hpre, hcom, hevs⟩ :=
      hdone.success (by rw [hress, hsuc]; exact mem_cons_self)
    have hall := eq_sent_of_commit hcl hawa hcomm hpre hcom
    refine ⟨⟨hcl.plain, nofun, nofun⟩, hpro _ _ _ rfl ⟨?_, ?_, ?_, ?_⟩⟩
    · simp [hrest]
    · simp [hrest]
    · simp [hrest]
    · intro frames hfrs
      cases hfrs
      rw [hevs, hall]
  · next hfai =>
    cases hcl'
    rw [if_neg hfai]
    exact ⟨⟨hcl.plain, nofun, nofun⟩, hpro _ _ _ rfl (done_unanswered hrest hcomm)⟩

theorem clientStep_progress (hstep : ClientStep c c')
    (h : ∀ client, c.client = some client → ClientInv client ∧ Progress i events c client) :
    ∀ client', c'.client = some client' → ClientInv client' ∧ Progress i events c' client' := by
  intro client' hcl'
  cases hstep with
  | rawWrite frame hraw => cases hraw.symm.trans hcl'
  | send client data opts failure delivered hcl hready hidle hopts =>
    obtain ⟨hinv, hpro⟩ := h client hcl
    have hsent := clientInv_send hinv hready hidle
      (show (ChunkMsg.mk data opts.commit opts.isEnd "").err = "" from rfl) hopts
    unfold Toolstream.send at hcl' ⊢
    cases failure with cases hcl'
    | none => exact ⟨hsent, progress_send hpro [_] rfl rfl rfl rfl rfl rfl⟩
    | some err =>
      cases delivered with
      | true =>
        exact ⟨⟨hsent.plain, fun hwait => absurd (hidle.symm.trans hwait) nofun, nofun⟩,
          progress_send hpro [_] rfl rfl rfl rfl rfl rfl⟩
      | false =>
        exact ⟨⟨hinv.plain, fun hwait => absurd (hidle.symm.trans hwait) nofun, nofun⟩,
          progress_send hpro [] rfl (append_nil _).symm rfl rfl (append_nil _).symm rfl⟩
  | receiveResult client result rest hcl hress hawa =>
    obtain ⟨hinv, hpro⟩ := h client hcl
    exact progress_receiveResult hpro hinv hress hawa hcl'
  | receiveFails client err hcl hawa =>
    obtain ⟨hinv, hpro⟩ := h client hcl
    cases hcl'
    exact ⟨⟨hinv.plain, nofun, nofun⟩,
      progress_send hpro [] rfl (append_nil _).symm rfl rfl (append_nil _).symm rfl⟩

end Acknowledgement

end Huatuo.Toolstream
