import Mathlib.Data.List.Basic
import Huatuo.Node.Lifecycle

/-!
# The lifecycle of one operation

What holds of an operation after any moves of its goroutines and any stop requests, whatever its
executor returns. `Op.Inv` ties the two logs of calls to the phases: `RunInv` for `runOperation`,
`StopInv` for the stop goroutine. `inv_step` and `inv_requestStop` keep it; the manager's runs
are built from these two and `register`.
-/

namespace Huatuo.Node

open List

/-- The order in which statuses are taken. -/
def Status.rank : Status → Nat
  | .pending => 0
  | .running => 1
  | .stopping => 2
  | .terminal => 3

namespace Op

/-! ## The invariant -/

/-- Neither terminal nor released. -/
structure Live (op : Op) (finalizing : Bool) : Prop where
  status : op.status ≠ .terminal
  execution : op.managed.hasExecution = true
  finalizing : op.managed.isFinalizing = finalizing
  initiated : op.stopInitiated = true → op.status = .stopping

/-- After `Start` returned nil, a stop was asked for iff one was prepared. -/
structure Started (op : Op) (finalizing : Bool) : Prop extends Live op finalizing where
  notPending : op.status ≠ .pending
  stopStarted : op.status = .stopping ↔ op.runtime.isStopStarted = true

/-- The calls of a run that got as far as `Finalize`. -/
def finalizeCalls (stopRequested stopStarted : Bool) (waitErr : Option ExecError) : List RunCall :=
  [RunCall.startReturned none, .waitReturned waitErr] ++
    (if stopStarted then [RunCall.stopReceived] else []) ++
    [RunCall.finalizeCalled (finalizeMode stopRequested waitErr)]

/-- How a finished run ended: the launch failed, or the result was finalized. -/
inductive Ended (op : Op) (result : TerminalResult) : Prop
  | launchFailed (err : ExecError) (hcalls : op.runCalls = [.startReturned (some err)])
      (hstop : op.stop = .idle) (houtcome : result.outcome ≠ .completed)
  | finalized (stopRequested : Bool) (waitErr finalizeErr : Option ExecError)
      (hcalls : op.runCalls = finalizeCalls stopRequested op.runtime.isStopStarted waitErr ++
        [.finalizeReturned finalizeErr])
      (hrequested : op.stopInitiated = true → stopRequested = true)
      (hreceived : op.runtime.isStopStarted = true → op.stop = .finished)
      (houtcome : result.outcome = .completed ↔
        finalizeMode stopRequested waitErr = .publish ∧ finalizeErr = none)

/-- What holds while `runOperation` is in a phase. -/
def RunInv (op : Op) : Phase → Prop
  | .created | .launching _ | .starting =>
    Live op false ∧ op.status ≠ .running ∧ op.stop = .idle ∧ op.runCalls = []
  | .startReturned err _ =>
    Live op false ∧ op.status ≠ .running ∧ op.stop = .idle ∧ op.runCalls = [.startReturned err]
  | .waiting =>
    Started op false ∧ op.runCalls = [.startReturned none] ∧
      (op.stop = .finished → op.runtime.stopResultCh.isSome = true)
  | .waitReturned waitErr =>
    Started op false ∧ op.runCalls = [.startReturned none, .waitReturned waitErr] ∧
      (op.stop = .finished → op.runtime.stopResultCh.isSome = true)
  | .collecting stopRequested waitErr stopStarted =>
    Started op true ∧ op.runCalls = [.startReturned none, .waitReturned waitErr] ∧
      (op.stop = .finished → op.runtime.stopResultCh.isSome = true) ∧
      stopRequested = (op.status == .stopping) ∧ stopStarted = op.runtime.isStopStarted
  | .finalizing stopRequested waitErr _ =>
    Started op true ∧ stopRequested = (op.status == .stopping) ∧
      op.runCalls = finalizeCalls stopRequested op.runtime.isStopStarted waitErr ∧
      (op.runtime.isStopStarted = true → op.stop = .finished)
  | .finalized stopRequested waitErr _ finalizeErr _ =>
    Started op true ∧ stopRequested = (op.status == .stopping) ∧
      op.runCalls = finalizeCalls stopRequested op.runtime.isStopStarted waitErr ++
        [.finalizeReturned finalizeErr] ∧
      (op.runtime.isStopStarted = true → op.stop = .finished)
  | .done =>
    op.status = .terminal ∧ op.managed.hasExecution = false ∧
      ∃ result, op.managed.state.terminal = some result ∧ Ended op result

/-- What holds while the stop goroutine is in a phase. -/
def StopInv (op : Op) : StopPhase → Prop
  | .idle =>
    op.runtime.isStopStarted = false ∧ op.stopCalls = [] ∧ op.runtime.stopResultCh = none
  | .prepared =>
    op.runtime.isStopStarted = true ∧ op.stopCalls = [.started] ∧
      op.runtime.stopResultCh = none
  | .calling =>
    op.runtime.isStopStarted = true ∧ op.stopCalls = [.started, .called] ∧
      op.runtime.stopResultCh = none
  | .finished =>
    op.runtime.isStopStarted = true ∧
      ∃ err, op.stopCalls = [.started, .called, .returned err]

structure Inv (op : Op) : Prop where
  run : op.RunInv op.phase
  stop : op.StopInv op.stop

theorem inv_register (requestID : String) (kind : Kind) (now : Time) :
    (register requestID kind now).Inv where
  run := ⟨⟨by simp [register, status], rfl, rfl, by simp [register]⟩,
    by simp [register, status], rfl, rfl⟩
  stop := ⟨rfl, rfl, rfl⟩

/-! ## Stop requests -/

variable {op op' : Op}

/-- A stop request before `Start` returned only marks the operation, and may cancel the
launch. -/
def marked (op : Op) (cancel : Bool) : Op :=
  { op.setStatus .stopping with stopInitiated := true, cancelPending := cancel }

/-- One while the execution runs also hands out the stop action. -/
def stopPrepared (op : Op) : Op :=
  { op.setStatus .stopping with
    stopInitiated := true
    runtime := { op.runtime with isStopStarted := true }
    stop := .prepared
    stopCalls := op.stopCalls ++ [.started] }

theorem idle_of_not_started (h : op.StopInv op.stop) (hs : op.runtime.isStopStarted = false) :
    op.stop = .idle ∧ op.stopCalls = [] ∧ op.runtime.stopResultCh = none := by
  cases hstop : op.stop with rw [hstop] at h
  | idle => exact ⟨rfl, h.2⟩
  | _ => exact absurd (hs.symm.trans h.1) Bool.false_ne_true

/-- A result in the channel was sent by a stop goroutine that has finished. -/
theorem finished_of_sent {err : Option ExecError} (h : op.StopInv op.stop)
    (hsent : op.runtime.stopResultCh = some err) : op.stop = .finished := by
  cases hstop : op.stop with
  | finished => rfl
  | _ =>
    rw [hstop] at h
    rw [h.2.2] at hsent
    cases hsent

/-- An operation that runs and is not being finalized is in `Wait` or just left it. -/
theorem waiting_of_running {phase : Phase} (h : op.RunInv phase) (hsta : op.status = .running)
    (hfina : op.managed.isFinalizing = false) :
    Started op false ∧ (phase = .waiting ∨ ∃ waitErr, phase = .waitReturned waitErr) := by
  cases phase with
  | created | launching | starting | startReturned => exact absurd hsta h.2.1
  | waiting => exact ⟨h.1, Or.inl rfl⟩
  | waitReturned waitErr => exact ⟨h.1, Or.inr ⟨waitErr, rfl⟩⟩
  | collecting | finalizing | finalized =>
    exact absurd (hfina.symm.trans h.1.finalizing) Bool.false_ne_true
  | done => exact absurd (hsta.symm.trans h.1) (by simp)

/-- What a stop request does. -/
theorem requestStop_cases (h : op.Inv) : op.requestStop = (false, op) ∨
    op.status = .pending ∧ (∃ cancel, op.requestStop = (true, op.marked cancel)) ∨
    op.status = .running ∧ op.requestStop = (true, op.stopPrepared) ∧
      op.runtime.isStopStarted = false ∧
      Started op false ∧ (op.phase = .waiting ∨ ∃ waitErr, op.phase = .waitReturned waitErr) := by
  unfold requestStop
  split
  · exact .inl rfl
  rename_i hskip
  simp only [Bool.or_eq_true, not_or, Bool.not_eq_true, beq_eq_false_iff_ne, isTerminal] at hskip
  obtain ⟨⟨hterm, hfina⟩, hsto⟩ := hskip
  cases hsta : op.status with
  | terminal => exact absurd hsta hterm
  | stopping => exact absurd hsta hsto
  | pending =>
    refine .inr (.inl ⟨rfl, ?_⟩)
    dsimp only
    split
    · exact ⟨op.cancelPending, rfl⟩
    · exact ⟨op.runtime.launchCancel, rfl⟩
  | running =>
    obtain ⟨hstar, hph⟩ := waiting_of_running h.run hsta hfina
    have hnot : op.runtime.isStopStarted = false := by
      simp [← Bool.not_eq_true, ← hstar.stopStarted, hsto]
    exact .inr
      (.inr ⟨rfl, by simp [stopPrepared, prepareStop, setStatus, hstar.execution, hnot], hnot,
      hstar, hph⟩)

theorem started_stopPrepared (h : Started op false) : Started op.stopPrepared false where
  status := nofun
  execution := h.execution
  finalizing := h.finalizing
  initiated := fun _ => rfl
  notPending := nofun
  stopStarted := ⟨fun _ => rfl, fun _ => rfl⟩

theorem inv_requestStop (h : op.Inv) : op.requestStop.2.Inv := by
  rcases requestStop_cases h with hreq | ⟨hsta, cancel, hreq⟩ | ⟨-, hreq, hnot, -, hph⟩ <;>
    rw [hreq]
  · exact h
  · obtain ⟨hrun, hstop⟩ := h
    refine ⟨?_, hstop⟩
    show RunInv _ op.phase
    generalize op.phase = phase at hrun
    -- only the phases before `Start` returned nil are pending
    cases phase with
    | created | launching | starting | startReturned =>
      exact ⟨⟨nofun, hrun.1.execution, hrun.1.finalizing, fun _ => rfl⟩, nofun, hrun.2.2.1,
        hrun.2.2.2⟩
    | done => exact absurd (hsta.symm.trans hrun.1) nofun
    | _ => exact absurd hsta hrun.1.notPending
  · obtain ⟨hrun, hstop⟩ := h
    obtain ⟨-, hcs, hemp⟩ := idle_of_not_started hstop hnot
    refine ⟨?_, ⟨rfl, congrArg (· ++ [StopCall.started]) hcs, hemp⟩⟩
    show RunInv _ op.phase
    rcases hph with hph | ⟨waitErr, hph⟩ <;> rw [hph] at hrun ⊢ <;>
      exact ⟨started_stopPrepared hrun.1, hrun.2.1, nofun⟩

/-! ## Moves -/

/-- The record of an operation after `commitTerminalLocked`. -/
structure Committed (state : Operation) (result : TerminalResult) (managed : ManagedOperation) :
    Prop where
  requestID : managed.state.requestID = state.requestID
  kind : managed.state.kind = state.kind
  status : managed.state.status = .terminal
  execution : managed.hasExecution = false
  terminal : managed.state.terminal = some result

theorem commitTerminal_live (policy : LifecyclePolicy) (op : Op) (h : op.status ≠ .terminal)
    (outcome : Outcome) (failure : Option LifecycleFailure) (now : Time) :
    ∃ result managed,
      (result.outcome = outcome ∧ result.reason = failure.map LifecycleFailure.reason) ∧
      Committed op.managed.state result managed ∧
      op.commitTerminal policy outcome failure now = ({ op with managed := managed }, true) := by
  have hlive : isTerminal op.status = false := by simpa [isTerminal] using h
  unfold commitTerminal
  rw [hlive]
  cases failure with
  | none =>
    refine ⟨{ outcome := outcome }, _, ⟨rfl, rfl⟩, ?_, rfl⟩
    exact ⟨rfl, rfl, rfl, rfl, rfl⟩
  | some failure =>
    refine ⟨{ outcome := outcome, reason := some failure.reason, message := failure.message },
      _, ⟨rfl, rfl⟩, ?_, rfl⟩
    exact ⟨rfl, rfl, rfl, rfl, rfl⟩

/-- A launch that was canceled by a stop is stopped; any other failed for a reason. -/
theorem finishStartFailure_live (policy : LifecyclePolicy) (op : Op) (h : op.status ≠ .terminal)
    (startErr : ExecError) (launchContextErr : LaunchContext) (now : Time) :
    ∃ result managed,
      (result.outcome = .stopped ∧ op.status = .stopping ∨
        result.outcome = .failed ∧ result.reason.isSome = true) ∧
      Committed op.managed.state result managed ∧
      op.finishStartFailure policy startErr launchContextErr now =
        ({ op with
            managed := managed, runtime := { op.runtime with launchCancel := false } }, true) := by
  unfold finishStartFailure
  dsimp only
  split
  · rename_i hsto
    obtain ⟨result, managed, hout, hcomm, hcom⟩ :=
      commitTerminal_live policy { op with runtime := { op.runtime with launchCancel := false } }
        h .stopped none now
    simp only [Bool.and_eq_true, beq_iff_eq] at hsto
    exact ⟨result, managed, Or.inl ⟨hout.1, hsto.1.1⟩, hcomm, hcom⟩
  · obtain ⟨result, managed, hout, hcomm, hcom⟩ :=
      commitTerminal_live policy { op with runtime := { op.runtime with launchCancel := false } }
        h .failed (some (startFailure startErr launchContextErr)) now
    exact ⟨result, managed, Or.inr ⟨hout.1, by rw [hout.2]; rfl⟩, hcomm, hcom⟩

/-- A run completes exactly when it publishes and that succeeds. -/
theorem conclude_completed (stopRequested : Bool) (waitErr stopErr finalizeErr : Option ExecError)
    (timedOut : Bool) :
    (conclude stopRequested waitErr stopErr finalizeErr timedOut).2 = .completed ↔
      finalizeMode stopRequested waitErr = .publish ∧ finalizeErr = none := by
  cases stopRequested <;> cases waitErr <;> cases stopErr <;> cases finalizeErr <;>
    simp [conclude, classifyExecution, classifyFinalization, joinFailures, finalizeMode]

theorem Live.congr {finalizing : Bool} (h : Live op finalizing) (hman : op'.managed = op.managed)
    (hini : op'.stopInitiated = op.stopInitiated) : Live op' finalizing where
  status := by rw [Op.status, hman]; exact h.status
  execution := by rw [hman]; exact h.execution
  finalizing := by rw [hman]; exact h.finalizing
  initiated := by rw [Op.status, hman, hini]; exact h.initiated

theorem Started.congr {finalizing : Bool} (h : Started op finalizing)
    (hman : op'.managed = op.managed)
    (hini : op'.stopInitiated = op.stopInitiated)
    (hstar : op'.runtime.isStopStarted = op.runtime.isStopStarted) : Started op' finalizing where
  toLive := h.toLive.congr hman hini
  notPending := by rw [Op.status, hman]; exact h.notPending
  stopStarted := by rw [Op.status, hman, hstar]; exact h.stopStarted

/-- The launch context and pending cancellations are not part of it. -/
theorem inv_launchCtx (h : op.Inv) (ctx : LaunchContext) (cancel : Bool) :
    ({ op with launchCtx := ctx, cancelPending := cancel } : Op).Inv := by
  obtain ⟨hrun, hstop⟩ := h
  refine ⟨?_, hstop⟩
  show RunInv _ op.phase
  generalize op.phase = phase at hrun
  cases phase with
  | created | launching | starting | startReturned => exact ⟨hrun.1.congr rfl rfl, hrun.2⟩
  | waiting | waitReturned | collecting | finalizing | finalized =>
    exact ⟨hrun.1.congr rfl rfl rfl, hrun.2⟩
  | done =>
    obtain ⟨hterm, hexec, result, hres, hended⟩ := hrun
    refine ⟨hterm, hexec, result, hres, ?_⟩
    cases hended with
    | launchFailed err hcs hidle hout => exact .launchFailed err hcs hidle hout
    | finalized sr waitErr finalizeErr hcs hrequ hrec hout =>
      exact .finalized sr waitErr finalizeErr hcs hrequ hrec hout

/-- While the stop goroutine moves, `runOperation` has not read its result. -/
theorem runInv_stopMoves {phase : Phase} (hrun : op.RunInv phase) (hidle : op.stop ≠ .idle)
    (hfin : op.stop ≠ .finished) (hstar : op.runtime.isStopStarted = true)
    (hman : op'.managed = op.managed) (hini : op'.stopInitiated = op.stopInitiated)
    (hcs : op'.runCalls = op.runCalls)
    (hstar' : op'.runtime.isStopStarted = op.runtime.isStopStarted)
    (hsent : op'.stop = .finished → op'.runtime.stopResultCh.isSome = true) : op'.RunInv phase := by
  cases phase with
  | created | launching | starting | startReturned => exact absurd hrun.2.2.1 hidle
  | waiting | waitReturned =>
    exact ⟨hrun.1.congr hman hini hstar', hcs.trans hrun.2.1, hsent⟩
  | collecting sr waitErr ss =>
    obtain ⟨hst, hc, -, hsr, hss⟩ := hrun
    refine ⟨hst.congr hman hini hstar', hcs.trans hc, hsent, ?_, ?_⟩
    · rw [hsr, status, status, hman]
    · rw [hss, hstar']
  | finalizing | finalized => exact absurd (hrun.2.2.2 hstar) hfin
  | done =>
    obtain ⟨-, -, result, -, hended⟩ := hrun
    cases hended with
    | launchFailed err hcs hidle' hout => exact absurd hidle' hidle
    | finalized sr waitErr finalizeErr hcs hrequ hrec hout =>
      exact absurd (hrec hstar) hfin

/-- The operation runs. -/
def started (op : Op) (now : Time) : Op :=
  { op with
    runtime := { op.runtime with launchCancel := false }
    managed := { op.managed with
      state := { op.managed.state with startedAt := some now, status := .running } }
    phase := .waiting }

/-- The operation runs, and is stopped. -/
def startedStopping (op : Op) (now : Time) : Op :=
  { op with
    runtime := { op.runtime with launchCancel := false, isStopStarted := true }
    managed := { op.managed with state := { op.managed.state with startedAt := some now } }
    phase := .waiting
    stop := .prepared
    stopCalls := op.stopCalls ++ [.started] }

variable {ctx : LaunchContext}

/-- `Start` returned nil. -/
theorem markStarted_cases (h : op.Inv) (hph : op.phase = .startReturned none ctx) (now : Time) :
    op.status = .pending ∧ op.markStarted now = op.started now ∨
      op.status = .stopping ∧ op.markStarted now = op.startedStopping now := by
  obtain ⟨hrun, hstop⟩ := h
  rw [hph] at hrun
  obtain ⟨hlive, hrunn, hidle, -⟩ := hrun
  rw [hidle] at hstop
  cases hsta : op.status with
  | terminal => exact absurd hsta hlive.status
  | running => exact absurd hsta hrunn
  | pending =>
    have hs : op.managed.state.status = .pending := hsta
    exact .inl ⟨rfl, by simp [markStarted, started, status, setStatus, hs]⟩
  | stopping =>
    have hs : op.managed.state.status = .stopping := hsta
    exact .inr ⟨rfl, by
      simp [markStarted, startedStopping, status, prepareStop, hs, hlive.execution, hstop.1]⟩

theorem inv_markStarted (h : op.Inv) (hph : op.phase = .startReturned none ctx) (now : Time) :
    (op.markStarted now).Inv := by
  obtain ⟨hrun, hstop⟩ := id h
  rw [hph] at hrun
  obtain ⟨hlive, -, hidle, hcs⟩ := hrun
  rw [hidle] at hstop
  obtain ⟨hnot, hstopCalls, hemp⟩ := hstop
  rcases markStarted_cases h hph now with ⟨hsta, hmark⟩ | ⟨hsta, hmark⟩ <;> rw [hmark]
  · have hini : op.stopInitiated ≠ true := fun h =>
      absurd (hsta.symm.trans (hlive.initiated h)) nofun
    refine ⟨⟨⟨⟨nofun, hlive.execution, hlive.finalizing, fun h => absurd h hini⟩, nofun, nofun, ?_⟩,
      hcs, ?_⟩, ?_⟩
    · exact fun h => absurd (hnot.symm.trans h) nofun
    · exact fun h => absurd (hidle.symm.trans h) nofun
    · show StopInv _ op.stop
      rw [hidle]
      exact ⟨hnot, hstopCalls, hemp⟩
  · refine ⟨⟨⟨⟨hlive.status, hlive.execution, hlive.finalizing, fun _ => hsta⟩, ?_, fun _ => rfl,
      fun _ => hsta⟩, hcs, nofun⟩, ⟨rfl, congrArg (· ++ [StopCall.started]) hstopCalls, hemp⟩⟩
    exact fun h => absurd (hsta.symm.trans h) nofun

variable {stopRequested : Bool} {waitErr : Option ExecError}

/-- The end of `runOperation` after `Finalize` returned. -/
theorem inv_finish {stopErr finalizeErr : Option ExecError} {timedOut : Bool}
    (hrun : op.RunInv (.finalized stopRequested waitErr stopErr finalizeErr timedOut))
    (hstop : op.StopInv op.stop) (policy : LifecyclePolicy) (now : Time) :
    (({ op with phase := .done }.commitTerminal policy
      (conclude stopRequested waitErr stopErr finalizeErr timedOut).2
      (conclude stopRequested waitErr stopErr finalizeErr timedOut).1 now).1 : Op).Inv := by
  obtain ⟨hst, hsr, hcs, hrec⟩ := hrun
  obtain ⟨result, managed, hout, hcomm, hcom⟩ :=
    commitTerminal_live policy { op with phase := .done } hst.status
      (conclude stopRequested waitErr stopErr finalizeErr timedOut).2
      (conclude stopRequested waitErr stopErr finalizeErr timedOut).1 now
  rw [hcom]
  refine ⟨⟨hcomm.status, hcomm.execution, result, hcomm.terminal, ?_⟩, hstop⟩
  refine .finalized stopRequested waitErr finalizeErr hcs (fun h => ?_) hrec ?_
  · rw [hsr, hst.initiated h]
    rfl
  · rw [hout.1]
    exact conclude_completed _ _ _ _ _

/-- **Every move keeps the invariant.** -/
theorem inv_step {policy : LifecyclePolicy} {action : Action} {released : Bool} (h : op.Inv)
    (hstep : op.step policy action = some (op', released)) : op'.Inv := by
  obtain ⟨hrun, hstop⟩ := h
  cases action with simp only [step] at hstep
  | install | callStart =>
    split at hstep <;> cases hstep
    rename_i hph
    rw [hph] at hrun
    exact ⟨⟨hrun.1.congr rfl rfl, hrun.2⟩, hstop⟩
  | launchTimeout =>
    split at hstep <;> cases hstep
    exact inv_launchCtx ⟨hrun, hstop⟩ .deadlineExceeded op.cancelPending
  | cancelLaunch =>
    split at hstep <;> cases hstep
    exact inv_launchCtx ⟨hrun, hstop⟩ op.launchCtx.cancel false
  | startReturns err =>
    split at hstep <;> cases hstep
    rename_i hph
    rw [hph] at hrun
    obtain ⟨hlive, hrunn, hidle, hcs⟩ := hrun
    exact ⟨⟨hlive.congr rfl rfl, hrunn, hidle, by simp [hcs]⟩, hstop⟩
  | afterStart now =>
    split at hstep
    · rename_i err launchContextErr hph
      rw [hph] at hrun
      obtain ⟨hlive, hrunn, hidle, hcs⟩ := hrun
      obtain ⟨result, managed, hout, hcomm, hcom⟩ :=
        finishStartFailure_live policy { op with phase := .done } hlive.status err
          launchContextErr now
      have hnot : result.outcome ≠ .completed := by
        rcases hout with ⟨hout, -⟩ | ⟨hout, -⟩ <;> rw [hout] <;> decide
      rw [hcom] at hstep
      cases hstep
      exact ⟨⟨hcomm.status, hcomm.execution, result, hcomm.terminal,
        .launchFailed err hcs hidle hnot⟩, hstop⟩
    · rename_i launchContextErr hph
      cases hstep
      exact inv_markStarted ⟨hrun, hstop⟩ hph now
    · cases hstep
  | callStop =>
    split at hstep <;> cases hstep
    rename_i hpre
    rw [hpre] at hstop
    refine ⟨runInv_stopMoves hrun (by simp [hpre]) (by simp [hpre]) hstop.1 rfl rfl
      rfl rfl (by simp), ?_⟩
    exact ⟨hstop.1, by rw [hstop.2.1]; rfl, hstop.2.2⟩
  | stopReturns err =>
    split at hstep <;> cases hstep
    rename_i hcal
    rw [hcal] at hstop
    refine ⟨runInv_stopMoves hrun (by simp [hcal]) (by simp [hcal]) hstop.1 rfl rfl
      rfl rfl (fun _ => rfl), ?_⟩
    exact ⟨hstop.1, err, by rw [hstop.2.1]; rfl⟩
  | waitReturns err =>
    split at hstep <;> cases hstep
    rename_i hph
    rw [hph] at hrun
    obtain ⟨hst, hcs, hsent⟩ := hrun
    exact ⟨⟨hst.congr rfl rfl rfl, by simp [hcs], hsent⟩, hstop⟩
  | beginFinalize =>
    split at hstep <;> cases hstep
    rename_i waitErr hph
    rw [hph] at hrun
    obtain ⟨hst, hcs, hsent⟩ := hrun
    refine ⟨⟨⟨⟨hst.status, hst.execution, rfl, hst.initiated⟩, hst.notPending,
      hst.stopStarted⟩, hcs, hsent, rfl, rfl⟩, hstop⟩
  | callFinalize =>
    split at hstep
    · rename_i sr waitErr hph
      rw [hph] at hrun
      obtain ⟨hst, hcs, -, hsr, hss⟩ := hrun
      split at hstep <;> cases hstep
      rename_i stopErr hsent
      have hfin := finished_of_sent hstop hsent
      refine ⟨⟨hst.congr rfl rfl rfl, hsr, ?_, fun _ => hfin⟩, ?_⟩
      · simp [finalizeCalls, ← hss, hcs]
      · show StopInv _ op.stop
        rw [hfin] at hstop ⊢
        exact hstop
    · rename_i sr waitErr hph
      rw [hph] at hrun
      obtain ⟨hst, hcs, -, hsr, hss⟩ := hrun
      cases hstep
      refine ⟨⟨hst.congr rfl rfl rfl, hsr, ?_, fun h => ?_⟩, hstop⟩
      · simp [finalizeCalls, ← hss, hcs]
      · exact absurd (hss.trans h) Bool.false_ne_true
    · cases hstep
  | finalizeReturns err timedOut =>
    split at hstep <;> cases hstep
    rename_i sr waitErr stopErr hph
    rw [hph] at hrun
    obtain ⟨hst, hsr, hcs, hrec⟩ := hrun
    exact ⟨⟨hst.congr rfl rfl rfl, hsr, by simp [hcs], hrec⟩, hstop⟩
  | finish now =>
    split at hstep
    · rename_i sr waitErr stopErr finalizeErr timedOut hph
      rw [hph] at hrun
      have hfini := inv_finish hrun hstop policy now
      simpa [Option.some.inj hstep] using hfini
    · cases hstep

/-! ## What a move may change -/

structure Advances (op op' : Op) : Prop where
  requestID : op'.managed.state.requestID = op.managed.state.requestID
  kind : op'.managed.state.kind = op.managed.state.kind
  status : op.status.rank ≤ op'.status.rank
  terminal : op.status = .terminal → op'.managed = op.managed
  initiated : op.stopInitiated = true → op'.stopInitiated = true

theorem Advances.refl (op : Op) : Advances op op :=
  ⟨rfl, rfl, Nat.le_refl _, fun _ => rfl, id⟩

theorem Advances.trans {op'' : Op} (h : Advances op op') (h' : Advances op' op'') :
    Advances op op'' where
  requestID := h'.requestID.trans h.requestID
  kind := h'.kind.trans h.kind
  status := Nat.le_trans h.status h'.status
  terminal := fun ht => by
    have hsame := h.terminal ht
    have ht' : op'.status = .terminal := by rw [Op.status, hsame]; exact ht
    exact (h'.terminal ht').trans hsame
  initiated := fun hi => h'.initiated (h.initiated hi)

theorem advances_of_managed (h : op'.managed = op.managed)
    (hini : op'.stopInitiated = op.stopInitiated) :
    Advances op op' where
  requestID := by rw [h]
  kind := by rw [h]
  status := Nat.le_of_eq (by rw [Op.status, Op.status, h])
  terminal := fun _ => h
  initiated := fun hi => hini.trans hi

theorem rank_le_terminal (status : Status) : status.rank ≤ Status.terminal.rank := by
  cases status <;> decide

theorem advances_requestStop (h : op.Inv) :
    Advances op op.requestStop.2 ∧
      (op.requestStop.2.status = .terminal ↔ op.status = .terminal) ∧
      (op.requestStop.1 = true → op.requestStop.2.stopInitiated = true) := by
  rcases requestStop_cases h with hreq | ⟨hsta, cancel, hreq⟩ | ⟨hsta, hreq, -⟩ <;> rw [hreq]
  · exact ⟨.refl op, Iff.rfl, nofun⟩
  · refine ⟨⟨rfl, rfl, ?_, fun ht => absurd (hsta.symm.trans ht) nofun, fun _ => rfl⟩, ?_,
      fun _ => rfl⟩
    · rw [hsta]
      exact Nat.zero_le _
    · rw [hsta]
      exact ⟨nofun, nofun⟩
  · refine ⟨⟨rfl, rfl, ?_, fun ht => absurd (hsta.symm.trans ht) nofun, fun _ => rfl⟩, ?_,
      fun _ => rfl⟩
    · rw [hsta]
      show Status.running.rank ≤ Status.stopping.rank
      decide
    · rw [hsta]
      exact ⟨nofun, nofun⟩

theorem advances_markStarted (h : op.Inv) (hph : op.phase = .startReturned none ctx) (now : Time) :
    Advances op (op.markStarted now) ∧ (op.markStarted now).status ≠ .terminal := by
  rcases markStarted_cases h hph now with ⟨hsta, hmark⟩ | ⟨hsta, hmark⟩ <;> rw [hmark]
  · refine ⟨⟨rfl, rfl, ?_, fun ht => absurd (hsta.symm.trans ht) nofun, id⟩, nofun⟩
    rw [hsta]
    exact Nat.zero_le _
  · have hlive : op.status ≠ .terminal := fun ht => absurd (hsta.symm.trans ht) nofun
    exact ⟨⟨rfl, rfl, Nat.le_refl _, fun ht => absurd ht hlive, id⟩, hlive⟩

theorem advances_of_committed {result : TerminalResult} (hlive : op.status ≠ .terminal)
    (h : Committed op.managed.state result op'.managed)
    (hini : op'.stopInitiated = op.stopInitiated) :
    Advances op op' ∧ (true = true ↔ op.status ≠ .terminal ∧ op'.status = .terminal) := by
  have hsta : op'.status = .terminal := h.status
  refine ⟨⟨h.requestID, h.kind, ?_, fun ht => absurd ht hlive, fun hi => hini.trans hi⟩,
    fun _ => ⟨hlive, hsta⟩, fun _ => rfl⟩
  rw [hsta]
  exact rank_le_terminal _

/-- **What a move changes**, and that a place is released exactly when the operation becomes
terminal. -/
theorem advances_step {policy : LifecyclePolicy} {action : Action} {released : Bool} (h : op.Inv)
    (hstep : op.step policy action = some (op', released)) :
    Advances op op' ∧ (released = true ↔ op.status ≠ .terminal ∧ op'.status = .terminal) := by
  obtain ⟨hrun, hstop⟩ := h
  -- most moves leave the record alone
  have hkeep : op'.managed = op.managed → op'.stopInitiated = op.stopInitiated →
      released = false → Advances op op' ∧
        (released = true ↔ op.status ≠ .terminal ∧ op'.status = .terminal) := by
    rintro hman hini rfl
    refine ⟨advances_of_managed hman hini, ?_⟩
    rw [show op'.status = op.status by rw [status, status, hman]]
    simp
  cases action with simp only [step] at hstep
  | afterStart now =>
    split at hstep
    · rename_i err launchContextErr hph
      rw [hph] at hrun
      obtain ⟨result, managed, -, hcomm, hcom⟩ :=
        finishStartFailure_live policy { op with phase := .done } hrun.1.status err
          launchContextErr now
      rw [hcom] at hstep
      cases hstep
      exact advances_of_committed hrun.1.status hcomm rfl
    · rename_i launchContextErr hph
      cases hstep
      obtain ⟨hadv, hlive⟩ := advances_markStarted ⟨hrun, hstop⟩ hph now
      exact ⟨hadv, by simp [hlive]⟩
    · cases hstep
  | beginFinalize =>
    split at hstep <;> cases hstep
    rename_i waitErr hph
    rw [hph] at hrun
    have hlive : op.status ≠ .terminal := hrun.1.status
    refine ⟨⟨rfl, rfl, Nat.le_refl _, fun ht => absurd ht hlive, id⟩, ?_⟩
    simp only [Bool.false_eq_true, false_iff, not_and]
    exact fun h => h
  | finish now =>
    split at hstep
    · rename_i sr waitErr stopErr finalizeErr timedOut hph
      rw [hph] at hrun
      obtain ⟨result, managed, -, hcomm, hcom⟩ :=
        commitTerminal_live policy { op with phase := .done } hrun.1.status
          (conclude sr waitErr stopErr finalizeErr timedOut).2
          (conclude sr waitErr stopErr finalizeErr timedOut).1 now
      rw [hcom] at hstep
      cases hstep
      exact advances_of_committed hrun.1.status hcomm rfl
    · cases hstep
  | callFinalize =>
    split at hstep
    · split at hstep <;> cases hstep
      exact hkeep rfl rfl rfl
    · cases hstep
      exact hkeep rfl rfl rfl
    · cases hstep
  | _ =>
    split at hstep <;> cases hstep
    exact hkeep rfl rfl rfl

/-! ## Progress -/

/-- The moves `runOperation` has left. -/
def phaseLeft : Phase → Nat
  | .created => 9
  | .launching _ => 8
  | .starting => 7
  | .startReturned .. => 6
  | .waiting => 5
  | .waitReturned _ => 4
  | .collecting .. => 3
  | .finalizing .. => 2
  | .finalized .. => 1
  | .done => 0

/-- The moves the stop goroutine has left. -/
def stopLeft : StopPhase → Nat
  | .prepared => 2
  | .calling => 1
  | .idle | .finished => 0

/-- Every move of the two goroutines brings this down; starting the stop goroutine is paid for by
the move of `runOperation` that does it. -/
def remaining (op : Op) : Nat := 3 * phaseLeft op.phase + stopLeft op.stop

theorem remaining_markStarted (h : op.Inv) (hph : op.phase = .startReturned none ctx) (now : Time) :
    (op.markStarted now).remaining < op.remaining := by
  rcases markStarted_cases h hph now with ⟨-, hmark⟩ | ⟨-, hmark⟩ <;>
    rw [hmark, remaining, remaining, hph]
  · simp [started, phaseLeft]
  · simp only [startedStopping, phaseLeft, stopLeft]
    omega

/-- **No phase blocks.** Until `runOperation` is done, it or its stop goroutine has a move; in
particular a result it waits for is there or is coming. -/
theorem exists_step (h : op.Inv) (policy : LifecyclePolicy) (hdone : op.phase ≠ .done) :
    ∃ action moved, op.step policy action = some moved ∧ moved.1.remaining < op.remaining := by
  obtain ⟨hrun, hstop⟩ := h
  cases hph : op.phase with
  | created =>
    refine ⟨.install, _, by simp only [step, hph]; rfl, ?_⟩
    simp [remaining, hph, phaseLeft]
  | launching sr =>
    refine ⟨.callStart, _, by simp only [step, hph]; rfl, ?_⟩
    simp [remaining, hph, phaseLeft]
  | starting =>
    refine ⟨.startReturns none, _, by simp only [step, hph]; rfl, ?_⟩
    simp [remaining, hph, phaseLeft]
  | startReturned startErr ctx =>
    cases startErr with
    | none =>
      refine ⟨.afterStart 0, _, by simp only [step, hph]; rfl, ?_⟩
      exact remaining_markStarted ⟨hrun, hstop⟩ hph 0
    | some err =>
      rw [hph] at hrun
      obtain ⟨result, managed, -, -, hcom⟩ :=
        finishStartFailure_live policy { op with phase := .done } hrun.1.status err ctx 0
      refine ⟨.afterStart 0, _, by simp only [step, hph]; exact congrArg some hcom, ?_⟩
      simp [remaining, hph, phaseLeft]
  | waiting =>
    refine ⟨.waitReturns none, _, by simp only [step, hph]; rfl, ?_⟩
    simp [remaining, hph, phaseLeft]
  | waitReturned waitErr =>
    refine ⟨.beginFinalize, _, by simp only [step, hph]; rfl, ?_⟩
    simp [remaining, hph, phaseLeft]
  | collecting sr waitErr ss =>
    rw [hph] at hrun
    obtain ⟨-, -, hsent, -, hss⟩ := hrun
    cases ss with
    | false =>
      refine ⟨.callFinalize, _, by simp only [step, hph]; rfl, ?_⟩
      simp [remaining, hph, phaseLeft]
    | true =>
      -- the stop goroutine is on its way, or its result is in the channel
      cases hs : op.stop with
      | idle =>
        rw [hs] at hstop
        exact absurd (hss.trans hstop.1) (by simp)
      | prepared =>
        refine ⟨.callStop, _, by simp only [step, hs]; rfl, ?_⟩
        simp [remaining, hs, stopLeft]
      | calling =>
        refine ⟨.stopReturns none, _, by simp only [step, hs]; rfl, ?_⟩
        simp [remaining, hs, stopLeft]
      | finished =>
        obtain ⟨err, hch⟩ := Option.isSome_iff_exists.1 (hsent hs)
        refine ⟨.callFinalize, _, by simp only [step, hph, hch]; rfl, ?_⟩
        simp [remaining, hph, phaseLeft]
  | finalizing sr waitErr stopErr =>
    refine ⟨.finalizeReturns none false, _, by simp only [step, hph]; rfl, ?_⟩
    simp [remaining, hph, phaseLeft]
  | finalized sr waitErr stopErr finalizeErr timedOut =>
    rw [hph] at hrun
    obtain ⟨result, managed, -, -, hcom⟩ :=
      commitTerminal_live policy { op with phase := .done } hrun.1.status
        (conclude sr waitErr stopErr finalizeErr timedOut).2
        (conclude sr waitErr stopErr finalizeErr timedOut).1 0
    refine ⟨.finish 0, _, by simp only [step, hph]; exact congrArg some hcom, ?_⟩
    simp [remaining, hph, phaseLeft]
  | done => exact absurd hph hdone

/-! ## Discipline -/

/-- The modes `Finalize` was called with. -/
def finalizeModes (op : Op) : List FinalizeMode :=
  op.runCalls.filterMap fun
    | .finalizeCalled mode => some mode
    | _ => none

/-- What the calls made for an operation look like, at any time. -/
structure Disciplined (op : Op) : Prop where
  /-- `Stop` is called at most once, and only after `Start` returned nil. -/
  stopOnce : op.stopCalls.count .called ≤ 1
  stopAfterStart : .called ∈ op.stopCalls → .startReturned none ∈ op.runCalls
  /-- `Finalize` is called exactly once if `Start` returned nil, and never otherwise. -/
  finalizeOnce : op.finalizeModes.length ≤ 1
  finalizeAfterStart : op.finalizeModes ≠ [] → .startReturned none ∈ op.runCalls
  finalizeReached : op.phase = .done → .startReturned none ∈ op.runCalls →
    op.finalizeModes.length = 1
  /-- A stop that was initiated is never published. -/
  discarded : op.stopInitiated = true → .publish ∉ op.finalizeModes
  /-- A stop result is received iff exactly one stop was started. -/
  received : op.phase = .done ∨ op.finalizeModes ≠ [] →
    (.stopReceived ∈ op.runCalls ↔ op.stopCalls.count .started = 1)
  receivedOnce : op.runCalls.count .stopReceived ≤ op.stopCalls.count .called
  /-- The outcome is completed iff the result was published, and that returned nil. -/
  completed : op.phase = .done → ∃ result, op.managed.state.terminal = some result ∧
    (result.outcome = .completed ↔
      .publish ∈ op.finalizeModes ∧ .finalizeReturned none ∈ op.runCalls)

theorem stopCalls_counts (h : op.StopInv op.stop) :
    op.stopCalls.count .called ≤ 1 ∧
    op.stopCalls.count .started = (if op.runtime.isStopStarted then 1 else 0) ∧
    (op.stop = .finished → op.stopCalls.count .called = 1) ∧
    (op.stop = .idle → op.stopCalls = []) := by
  cases hstop : op.stop with rw [hstop] at h
  | idle | prepared | calling => simp [h.1, h.2.1]
  | finished =>
    obtain ⟨hstar, err, hcs⟩ := h
    simp [hstar, hcs]

/-- Before `Start` returned nil: neither stopped nor finalized. -/
theorem disciplined_of_idle (hstop : op.StopInv op.stop) (hidle : op.stop = .idle)
    (hcs : op.runCalls = [] ∨ ∃ err, op.runCalls = [.startReturned err])
    (hdone : op.phase = .done → ∃ err result, op.runCalls = [.startReturned (some err)] ∧
      op.managed.state.terminal = some result ∧ result.outcome ≠ .completed) : op.Disciplined := by
  have hemp := (stopCalls_counts hstop).2.2.2 hidle
  have hmodes : op.finalizeModes = [] := by
    rcases hcs with hcs | ⟨err, hcs⟩ <;> simp [finalizeModes, hcs]
  have hrec : RunCall.stopReceived ∉ op.runCalls := by
    rcases hcs with hcs | ⟨err, hcs⟩ <;> simp [hcs]
  refine ⟨by simp [hemp], by simp [hemp], by simp [hmodes], by simp [hmodes], ?_,
    by simp [hmodes], ?_, ?_, ?_⟩
  · intro hph hnil
    obtain ⟨err, -, hcs, -⟩ := hdone hph
    simp [hcs] at hnil
  · intro _
    simp [hrec, hemp]
  · rw [count_eq_zero_of_not_mem hrec]
    exact Nat.zero_le _
  · intro hph
    obtain ⟨err, result, -, hres, hout⟩ := hdone hph
    exact ⟨result, hres, by simp [hout, hmodes]⟩

/-- While the execution runs. -/
theorem disciplined_of_running (hstop : op.StopInv op.stop)
    (hcs : op.runCalls = [.startReturned none] ∨
      ∃ waitErr, op.runCalls = [.startReturned none, .waitReturned waitErr])
    (hdone : op.phase ≠ .done) : op.Disciplined := by
  have hnil : RunCall.startReturned none ∈ op.runCalls := by
    rcases hcs with hcs | ⟨waitErr, hcs⟩ <;> simp [hcs]
  have hmodes : op.finalizeModes = [] := by
    rcases hcs with hcs | ⟨waitErr, hcs⟩ <;> simp [finalizeModes, hcs]
  have hrec : RunCall.stopReceived ∉ op.runCalls := by
    rcases hcs with hcs | ⟨waitErr, hcs⟩ <;> simp [hcs]
  refine ⟨(stopCalls_counts hstop).1, fun _ => hnil, by simp [hmodes], fun _ => hnil,
    fun hph => absurd hph hdone, by simp [hmodes], ?_, ?_, fun hph => absurd hph hdone⟩
  · rintro (hph | hne)
    · exact absurd hph hdone
    · exact absurd hmodes hne
  · rw [count_eq_zero_of_not_mem hrec]
    exact Nat.zero_le _

/-- From the call of `Finalize` on. -/
theorem disciplined_of_finalized {later : List RunCall} (hstop : op.StopInv op.stop)
    (hcs : op.runCalls = finalizeCalls stopRequested op.runtime.isStopStarted waitErr ++ later)
    (hlater : later = [] ∨ ∃ err, later = [.finalizeReturned err])
    (hrequ : op.stopInitiated = true → stopRequested = true)
    (hfin : op.runtime.isStopStarted = true → op.stop = .finished)
    (hdone : op.phase = .done → ∃ finalizeErr result, later = [.finalizeReturned finalizeErr] ∧
      op.managed.state.terminal = some result ∧
      (result.outcome = .completed ↔
        finalizeMode stopRequested waitErr = .publish ∧ finalizeErr = none)) : op.Disciplined := by
  obtain ⟨honce, hstar, hcall, -⟩ := stopCalls_counts hstop
  have hnil : RunCall.startReturned none ∈ op.runCalls := by simp [hcs, finalizeCalls]
  have hmodes : op.finalizeModes = [finalizeMode stopRequested waitErr] := by
    rcases hlater with rfl | ⟨err, rfl⟩ <;> cases hs : op.runtime.isStopStarted <;>
      simp [finalizeModes, hcs, finalizeCalls, hs]
  have hrec : op.runCalls.count .stopReceived =
      (if op.runtime.isStopStarted then 1 else 0) := by
    rcases hlater with rfl | ⟨err, rfl⟩ <;> cases hs : op.runtime.isStopStarted <;>
      simp [hcs, finalizeCalls, hs]
  refine ⟨honce, fun _ => hnil, by simp [hmodes], fun _ => hnil, fun _ _ => by simp [hmodes], ?_,
    ?_, ?_, ?_⟩
  · intro hini
    simp [hmodes, finalizeMode, hrequ hini]
  · intro _
    rw [← count_pos_iff, hrec, hstar]
    split <;> simp
  · rw [hrec]
    split
    · rename_i hs
      exact Nat.le_of_eq (hcall (hfin hs)).symm
    · exact Nat.zero_le _
  · intro hph
    obtain ⟨finalizeErr, result, rfl, hres, hout⟩ := hdone hph
    refine ⟨result, hres, hout.trans ?_⟩
    have hret : RunCall.finalizeReturned none ∈ op.runCalls ↔ finalizeErr = none := by
      cases hs : op.runtime.isStopStarted <;> cases finalizeErr <;>
        simp [hcs, finalizeCalls, hs]
    rw [hmodes, mem_singleton, hret, eq_comm]

theorem disciplined_of_inv (h : op.Inv) : op.Disciplined := by
  obtain ⟨hrun, hstop⟩ := h
  have hrequ : ∀ {finalizing sr}, Started op finalizing → sr = (op.status == .stopping) →
      op.stopInitiated = true → sr = true := by
    rintro finalizing sr hst rfl hini
    rw [hst.initiated hini]
    rfl
  cases hph : op.phase with rw [hph] at hrun
  | created | launching | starting =>
    exact disciplined_of_idle hstop hrun.2.2.1 (Or.inl hrun.2.2.2) (by simp [hph])
  | startReturned err =>
    exact disciplined_of_idle hstop hrun.2.2.1 (Or.inr ⟨err, hrun.2.2.2⟩) (by simp [hph])
  | waiting => exact disciplined_of_running hstop (Or.inl hrun.2.1) (by simp [hph])
  | waitReturned waitErr | collecting sr waitErr =>
    exact disciplined_of_running hstop (Or.inr ⟨waitErr, hrun.2.1⟩) (by simp [hph])
  | finalizing sr waitErr =>
    obtain ⟨hst, hsr, hcs, hfin⟩ := hrun
    exact disciplined_of_finalized hstop (hcs.trans (append_nil _).symm) (Or.inl rfl)
      (hrequ hst hsr) hfin (by simp [hph])
  | finalized sr waitErr stopErr finalizeErr =>
    obtain ⟨hst, hsr, hcs, hfin⟩ := hrun
    exact disciplined_of_finalized hstop hcs (Or.inr ⟨finalizeErr, rfl⟩)
      (hrequ hst hsr) hfin (by simp [hph])
  | done =>
    obtain ⟨-, -, result, hres, hended⟩ := hrun
    cases hended with
    | launchFailed err hcs hidle hout =>
      exact disciplined_of_idle hstop hidle (Or.inr ⟨some err, hcs⟩)
        fun _ => ⟨err, result, hcs, hres, hout⟩
    | finalized sr waitErr finalizeErr hcs hrequ hrec hout =>
      exact disciplined_of_finalized hstop hcs (Or.inr ⟨finalizeErr, rfl⟩) hrequ
        hrec fun _ => ⟨finalizeErr, result, rfl, hres, hout⟩

/-- The execution is released exactly by becoming terminal. -/
theorem hasExecution_iff (h : op.Inv) :
    op.managed.hasExecution = false ↔ op.status = .terminal := by
  have hlive : ∀ {finalizing}, Live op finalizing →
      (op.managed.hasExecution = false ↔ op.status = .terminal) := by
    intro finalizing hl
    simp [hl.execution, hl.status]
  have hrun := h.run
  cases hph : op.phase with rw [hph] at hrun
  | created | launching | starting | startReturned => exact hlive hrun.1
  | waiting | waitReturned | collecting | finalizing | finalized => exact hlive hrun.1.toLive
  | done => simp [hrun.1, hrun.2.1]

end Op

end Huatuo.Node
