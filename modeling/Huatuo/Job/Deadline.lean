import Huatuo.Job.RuntimeProof

/-!
# Deadlines of a supervised Job

`nextSupervisionDelay` (`internal/job/runtime.go`): a supervisor waits for the poll interval, or
less if a deadline of its Job comes first. Once the deadline has passed it does not wait at all, so
a deadline that nothing acts on is a busy loop.

`deadline_progress` — whatever the Node answers from then on changes the Job: it ends, its status
advances, or the deadline of an unavailable Node is cleared or set.
-/

namespace Huatuo.Job

open NodeApi (NodeError)

/-- The switch of `nextSupervisionDelay`. Unavailability takes precedence because the other
deadlines cannot be acted on until the Node answers. -/
def nextDeadline (current : Job) : Time :=
  if ¬ current.nodeUnavailableDeadline.isZero then current.nodeUnavailableDeadline
  else
    match current.status with
    | .pending => current.pendingDeadline
    | .running => current.executionDeadline
    | .stopping => current.stopDeadline
    | _ => Time.zero

/-- `nextSupervisionDelay`; `failed` if `superviseOnce` returned an error. -/
def nextSupervisionDelay (policy : RuntimePolicy) (current : Job) (now : Time) (failed : Bool) :
    Duration :=
  if failed then policy.statusPollInterval
  else if isTerminal current.status then 0
  else
    let deadline := current.nextDeadline
    let delay :=
      if ¬ deadline.isZero then min policy.statusPollInterval (deadline - now : Int)
      else policy.statusPollInterval
    max delay 0

/-- `pendingDeadline` has been saved, if the operation is still to start. -/
def StartSaved (job : Job) : Prop := job.status = .pending → job.pendingDeadline ≠ 0

/-- A Job in a status it can be in, with the deadline of that status. -/
def Dated (job : Job) : Prop :=
  match job.status with
  | .pending | .terminal => True
  | .running => job.executionDeadline ≠ 0
  | .stopping => job.stopDeadline ≠ 0
  | .unsupported _ => False

/-- A Job that ended or whose status is later. -/
def Advances (job job' : Job) : Prop :=
  job'.status = .terminal ∨ job.status.rank < job'.status.rank

theorem isTerminal_eq_false {status : Status} (h : status ≠ .terminal) :
    isTerminal status = false := by
  simpa [isTerminal] using h

/-! ## Delays -/

variable {job : Job}

theorem nextDeadline_ne_zero (hdated : Dated job) (hlive : job.status ≠ .terminal)
    (hsaved : StartSaved job) : job.nextDeadline ≠ 0 := by
  unfold nextDeadline
  split
  · rename_i hdown
    simpa using hdown
  · unfold Dated at hdated
    cases hst : job.status with
    | pending => exact hsaved hst
    | running | stopping =>
      simpa [hst] using hdated
    | terminal => exact absurd hst hlive
    | unsupported raw =>
      rw [hst] at hdated
      exact hdated.elim

theorem max_min_sub_eq_zero {poll : Int} {deadline now : Nat} (h : 0 < poll) :
    max (min poll (deadline - now : Int)) 0 = 0 ↔ deadline ≤ now := by
  omega

/-- The supervisor does not wait exactly if the deadline has been reached. -/
theorem nextSupervisionDelay_eq_zero {policy : RuntimePolicy} {now : Time}
    (hlive : job.status ≠ .terminal) (hdea : job.nextDeadline ≠ 0) :
    nextSupervisionDelay policy job now false = 0 ↔ job.nextDeadline ≤ now := by
  have hpoll := policy.statusPollInterval_pos
  have hterm := isTerminal_eq_false hlive
  simp only [nextSupervisionDelay, hterm, Bool.false_eq_true, if_false,
    Time.isZero_iff, hdea, not_false_eq_true, if_true]
  exact max_min_sub_eq_zero hpoll

/-! ## Snapshots -/

section Operation

variable {policy : RuntimePolicy} {operation : NodeApi.Operation} {current updated followed : Job}
  {now : Time} {changed : Bool}

theorem enforceStop_status :
    (enforceStop operation updated changed now).updated.status = .terminal ∨
      (enforceStop operation updated changed now).updated.status = updated.status := by
  unfold enforceStop
  split
  · split
    · exact .inl rfl
    · exact .inr rfl
  · exact .inr rfl

theorem enforceStop_changed (h : changed = true) :
    (enforceStop operation updated changed now).changed = true := by
  unfold enforceStop
  split
  · split
    · rfl
    · exact h
  · exact h

theorem enforceStop_nodeUnavailableDeadline :
    (enforceStop operation updated changed now).updated.nodeUnavailableDeadline =
      updated.nodeUnavailableDeadline := by
  unfold enforceStop
  (repeat' split) <;> rfl

theorem enforceStop_advances (h : Advances current updated) :
    Advances current (enforceStop operation updated changed now).updated := by
  rcases enforceStop_status with hst | hst
  · exact .inl hst
  · rw [Advances, hst]
    exact h

/-- The stop deadline is enforced whatever the status of an active operation. -/
theorem enforceStop_due (hst : updated.status = .stopping) (hact : isActive operation = true)
    (hdue : updated.stopDeadline ≤ now) :
    (enforceStop operation updated changed now).updated.status = .terminal ∧
      (enforceStop operation updated changed now).changed = true := by
  have hnow : ¬ now.before updated.stopDeadline = true := by simpa using hdue
  simp only [enforceStop, hst, hact, and_self, if_true, hnow]
  exact ⟨rfl, rfl⟩

/-- Once the stop deadline has passed, every answer of the Node ends a stopping Job. -/
theorem stopping_due (hst : current.status = .stopping) (hdue : current.stopDeadline ≤ now) :
    let followed := followOperation policy operation current current now
    let reconciliation := enforceStop operation (followed.getD current) followed.isSome now
    reconciliation.changed = true ∧ Advances current reconciliation.updated := by
  have hnow : now.before current.stopDeadline = false := by simpa using hdue
  cases hopn : operation.status with
  | pending | running =>
    have hfol : followOperation policy operation current current now = none := by
      simp [followOperation, hopn, hst]
    have hact : isActive operation = true := by simp [isActive, hopn]
    rw [hfol]
    exact ⟨(enforceStop_due hst hact hdue).2, .inl (enforceStop_due hst hact hdue).1⟩
  | stopping | terminal | unsupported raw =>
    simp [followOperation, hopn, hst, hnow, enforceStop, setTerminal, Advances]

theorem followOperation_nodeUnavailableDeadline
    (h : followOperation policy operation current updated now = some followed) :
    followed.nodeUnavailableDeadline = updated.nodeUnavailableDeadline := by
  unfold followOperation at h
  split at h
  · split at h
    · cases h
      rfl
    · split at h <;> cases h
      rfl
  · split at h
    · cases h
      rfl
    · split at h <;> cases h
      rfl
  · split at h
    · cases h
      rfl
    · split at h <;> cases h
      rfl
  · cases h
    rfl
  · cases h
    rfl

/-- Before a stop, a due deadline makes every status of the operation count. -/
theorem followOperation_due (hrank : current.status = .pending ∧ current.pendingDeadline ≤ now ∨
      current.status = .running ∧ current.executionDeadline ≤ now) :
    ∃ followed, followOperation policy operation current updated now = some followed ∧
      Advances current followed := by
  cases hopn : operation.status with
  | pending =>
    rcases hrank with ⟨hst, hdue⟩ | ⟨hst, hdue⟩
    · refine ⟨_, by simp [followOperation, hopn, hst, hdue]; rfl, .inr ?_⟩
      rw [hst]
      exact Nat.zero_lt_two
    · exact ⟨_, by simp [followOperation, hopn, hst]; rfl, .inl rfl⟩
  | running =>
    rcases hrank with ⟨hst, hdue⟩ | ⟨hst, hdue⟩
    · refine ⟨_, by simp [followOperation, hopn, hst]; rfl, .inr ?_⟩
      rw [hst]
      exact Nat.zero_lt_one
    · refine ⟨_, by simp [followOperation, hopn, hst, hdue]; rfl, .inr ?_⟩
      rw [hst]
      exact Nat.one_lt_two
  | stopping =>
    have hst : current.status ≠ .stopping := by
      rcases hrank with ⟨h, -⟩ | ⟨h, -⟩ <;> rw [h] <;> decide
    exact ⟨_, by simp [followOperation, hopn, hst]; rfl, .inl rfl⟩
  | terminal | unsupported raw => exact ⟨_, by simp [followOperation, hopn]; rfl, .inl rfl⟩

variable (policy operation) in
/-- A due deadline of a Job whose Node is available, and an answer of the Node. -/
theorem enforceStop_followOperation_due (hdated : Dated current)
    (hlive : current.status ≠ .terminal)
    (hdown : current.nodeUnavailableDeadline = 0) (hdue : current.nextDeadline ≤ now) :
    let followed := followOperation policy operation current current now
    let reconciliation := enforceStop operation (followed.getD current) followed.isSome now
    reconciliation.changed = true ∧ Advances current reconciliation.updated := by
  have hnext : current.nextDeadline = _ := if_neg (by simpa using hdown)
  rw [hnext] at hdue
  have hfol (hrank : current.status = .pending ∧ current.pendingDeadline ≤ now ∨
      current.status = .running ∧ current.executionDeadline ≤ now) :
      let followed := followOperation policy operation current current now
      let reconciliation := enforceStop operation (followed.getD current) followed.isSome now
      reconciliation.changed = true ∧ Advances current reconciliation.updated := by
    obtain ⟨followed, h, hadv⟩ := followOperation_due hrank
    rw [h]
    exact ⟨enforceStop_changed rfl, enforceStop_advances hadv⟩
  cases hst : current.status with rw [hst] at hdue
  | pending => exact hfol (.inl ⟨hst, hdue⟩)
  | running => exact hfol (.inr ⟨hst, hdue⟩)
  | stopping => exact stopping_due hst hdue
  | terminal => exact absurd hst hlive
  | unsupported raw =>
    rw [Dated, hst] at hdated
    exact hdated.elim

variable (policy operation) in
/-- A due deadline, and an answer of the Node. -/
theorem operation_progress (hdated : Dated current) (hlive : current.status ≠ .terminal)
    (hdue : current.nextDeadline ≤ now) :
    ∃ updated, (Transition.operation operation).apply policy current now = some updated ∧
      (Advances current updated ∨
        current.nodeUnavailableDeadline ≠ 0 ∧ updated.nodeUnavailableDeadline = 0) := by
  simp only [Transition.apply, reconcileJobWithOperation, isTerminal_eq_false hlive,
    Bool.false_eq_true, if_false, Option.bind_some]
  by_cases hdown : current.nodeUnavailableDeadline = 0
  · have hcle : clearUnavailable current now = current := by simp [clearUnavailable, hdown]
    obtain ⟨hcha, hadv⟩ :=
      enforceStop_followOperation_due policy operation hdated hlive hdown hdue
    have hzero : (!current.nodeUnavailableDeadline.isZero) = false := by
      rw [hdown]
      rfl
    rw [hcle, hzero, Bool.false_or]
    exact ⟨_, if_pos hcha, .inl hadv⟩
  · refine ⟨_, if_pos (enforceStop_changed (by simp [hdown])), .inr ⟨hdown, ?_⟩⟩
    rw [enforceStop_nodeUnavailableDeadline]
    have hcle : (clearUnavailable current now).nodeUnavailableDeadline = 0 := by
      simp [clearUnavailable, hdown, Time.zero]
    cases hfol : followOperation policy operation current (clearUnavailable current now) now with
    | none => exact hcle
    | some followed => exact (followOperation_nodeUnavailableDeadline hfol).trans hcle

end Operation

/-! ## Errors -/

/-- A due deadline, and an error of the Node. -/
theorem error_progress (policy : RuntimePolicy) (nodeErr : NodeError) {current : Job} {now : Time}
    (hlive : current.status ≠ .terminal) (hnow : now ≠ 0) (hdue : current.nextDeadline ≤ now) :
    ∃ updated, (Transition.error nodeErr).apply policy current now = some updated ∧
      (Advances current updated ∨
        classifyError nodeErr current = none ∧ current.nodeUnavailableDeadline = 0 ∧
          updated.nodeUnavailableDeadline ≠ 0) := by
  simp only [Transition.apply, reconcileJobWithError, isTerminal_eq_false hlive,
    Bool.false_eq_true, if_false]
  cases hclass : classifyError nodeErr current with
  | some result => exact ⟨_, rfl, .inl (.inl rfl)⟩
  | none =>
    by_cases hdown : current.nodeUnavailableDeadline = 0
    · have hgrace := policy.nodeUnavailableGracePeriod_pos
      refine ⟨_, if_pos (by simpa using hdown), .inr ⟨rfl, hdown, ?_⟩⟩
      exact Time.add_ne_zero hnow (Int.le_of_lt hgrace)
    · have hnext : current.nextDeadline = _ := if_pos (by simpa using hdown)
      rw [hnext] at hdue
      rw [if_neg (by simpa using hdown), if_pos (by simpa using hdue)]
      exact ⟨_, rfl, .inl (.inl rfl)⟩

/-! ## Supervised Jobs -/

theorem ValidState.dated (h : ValidState job) : Dated job := by
  unfold Dated
  split
  · trivial
  · trivial
  · rename_i hst
    exact (h.running hst).2
  · rename_i hst
    exact (h.stopping hst).2
  · rename_i hst
    have hvalid := h.status
    rw [hst] at hvalid
    cases hvalid

theorem World.Inv.dated {w : World} (hi : w.Inv) {i : Nat} {r : Runtime}
    (hr : w.runtimes i = some r) : Dated r.job := by
  rcases (hi.runtimes i r hr).known with hmem | ⟨-, j, hiss⟩
  · exact (stored_of_mem (hi.legal r.id) hmem).1.state.dated
  · simp [Dated, (hi.issued r.id j r.job hiss).status]

/-- **Deadlines make progress.** The supervisor of a Job that is past its start does not wait
exactly if the next deadline has been reached. Every snapshot and every error of the Node then leads
to a new version, and once that is saved the Job has ended, its status is later, or the deadline of
an unavailable Node was cleared (by a snapshot) or set (by an error that says so). -/
theorem deadline_progress {w : World} (hw : Runs.Reachable World.step {} w) {i : Nat} {r : Runtime}
    (hr : w.runtimes i = some r) (hlive : r.job.status ≠ .terminal) (hsaved : StartSaved r.job)
    (now : Time) :
    (nextSupervisionDelay r.policy r.job now false = 0 ↔ r.job.nextDeadline ≤ now) ∧
    (r.job.nextDeadline ≤ now →
      (∀ snapshot, ∃ updated,
        (Transition.operation snapshot).apply r.policy r.job now = some updated ∧
        ∀ table table' persisted, save table updated = .ok (persisted, table') →
          persisted.status = .terminal ∨ r.job.status.rank < persisted.status.rank ∨
          r.job.nodeUnavailableDeadline ≠ 0 ∧ persisted.nodeUnavailableDeadline = 0) ∧
      ∀ nodeErr, ∃ updated,
        (Transition.error nodeErr).apply r.policy r.job now = some updated ∧
        ∀ table table' persisted, save table updated = .ok (persisted, table') →
          persisted.status = .terminal ∨ r.job.status.rank < persisted.status.rank ∨
          classifyError nodeErr r.job = none ∧ r.job.nodeUnavailableDeadline = 0 ∧
            persisted.nodeUnavailableDeadline ≠ 0) := by
  have hdated := (World.inv_of_reachable hw).dated hr
  have hdeadline := nextDeadline_ne_zero hdated hlive hsaved
  refine ⟨nextSupervisionDelay_eq_zero hlive hdeadline, fun hdue => ⟨fun snapshot => ?_,
    fun nodeErr => ?_⟩⟩
  · obtain ⟨updated, happly, hprogress⟩ := operation_progress r.policy snapshot hdated hlive hdue
    refine ⟨updated, happly, fun table table' persisted hsave => ?_⟩
    obtain ⟨rfl, -⟩ := save_eq_ok hsave
    exact or_assoc.1 hprogress
  · have hnow : now ≠ 0 := fun h => hdeadline (Nat.le_zero.1 (h ▸ hdue))
    obtain ⟨updated, happly, hprogress⟩ := error_progress r.policy nodeErr hlive hnow hdue
    refine ⟨updated, happly, fun table table' persisted hsave => ?_⟩
    obtain ⟨rfl, -⟩ := save_eq_ok hsave
    exact or_assoc.1 hprogress

/-- The start of the sample Job is never answered, and its pending deadline passes. -/
theorem deadline_progress_pending :
    ∃ w r, Runs.run World.step {} (World.sampleRun.take 8) = some w ∧
    w.runtimes 0 = some r ∧ nextSupervisionDelay r.policy r.job 2000000000 false = 0 ∧
    ∀ snapshot, ∃ updated,
      (Transition.operation snapshot).apply r.policy r.job 2000000000 = some updated := by
  have hrun : ∃ w r, Runs.run World.step {} (World.sampleRun.take 8) = some w ∧
      w.runtimes 0 = some r ∧ r.job.status ≠ .terminal ∧ r.job.pendingDeadline ≠ 0 ∧
      r.job.nextDeadline ≤ 2000000000 :=
    ⟨_, _, rfl, rfl, by decide, by decide, by decide⟩
  obtain ⟨w, r, hw, hr, hlive, hsaved, hdue⟩ := hrun
  obtain ⟨hzero, hprogress⟩ :=
    deadline_progress ⟨World.sampleRun.take 8, hw⟩ hr hlive (fun _ => hsaved) 2000000000
  refine ⟨w, r, hw, hr, hzero.2 hdue, fun snapshot => ?_⟩
  obtain ⟨updated, happly, -⟩ := (hprogress hdue).1 snapshot
  exact ⟨updated, happly⟩

end Huatuo.Job
