import Huatuo.Job.Transition

/-!
# What every transition keeps

`Progress` is what a transition may do to a Job, as a relation that composes: the parts of
`reconcileJobWithOperation` (clear the unavailability, follow the operation, enforce the stop) are
shown to be `Progress` one by one. `apply_progress` is the statement for whole transitions: they
start from a Job that is not terminal, keep what identifies it, never move its status back and
never make a valid Job invalid.
-/

namespace Huatuo.Job

/-! ## Validity -/

/-- What `validateState` accepts. -/
structure ValidState (j : Job) : Prop where
  status : isValidStatus j.status = true
  terminal : j.status = .terminal ↔ j.terminal.isSome = true
  result : validateTerminal j.terminal = .ok ()
  ended : j.status = .terminal ↔ j.endedAt ≠ 0
  stopReason : isValidStopReason j.stopReason = true
  running : j.status = .running → j.startedAt ≠ 0 ∧ j.executionDeadline ≠ 0
  stopping : j.status = .stopping → j.stopReason ≠ .none ∧ j.stopDeadline ≠ 0

variable {j j' current updated : Job} {now : Time} {policy : RuntimePolicy}

theorem validateState_eq_ok : j.validateState = .ok () ↔ ValidState j := by
  unfold validateState
  split
  · rename_i hst
    exact ⟨nofun, fun h => absurd h.status hst⟩
  · rename_i hst
    split
    · rename_i hterm
      refine ⟨nofun, fun h => absurd ?_ hterm⟩
      rw [Bool.eq_iff_iff, decide_eq_true_eq]
      exact h.terminal
    · rename_i hterm
      split
      · rename_i err hres
        exact ⟨nofun, fun h => by rw [h.result] at hres; cases hres⟩
      · rename_i hres
        split
        · rename_i hended
          refine ⟨nofun, fun h => absurd ?_ hended⟩
          rw [Bool.eq_iff_iff]
          simp [isTerminal, h.ended]
        · rename_i hended
          split
          · rename_i hrea
            exact ⟨nofun, fun h => absurd h.stopReason hrea⟩
          · rename_i hrea
            split
            · rename_i hrun
              refine ⟨nofun, fun h => ?_⟩
              obtain ⟨hsta, hdea⟩ := h.running hrun.1
              simp [hsta, hdea] at hrun
            · rename_i hrun
              split
              · rename_i hsto
                refine ⟨nofun, fun h => ?_⟩
                obtain ⟨hnone, hdea⟩ := h.stopping hsto.1
                simp [hnone, hdea] at hsto
              · rename_i hsto
                refine ⟨fun _ => ?_, fun _ => rfl⟩
                simp only [ne_eq, Decidable.not_not] at hst hterm hended hrea
                refine ⟨hst, ?_, hres, ?_, hrea, ?_, ?_⟩
                · rw [← hterm, decide_eq_true_eq]
                · rw [Bool.eq_iff_iff] at hended
                  simpa [isTerminal] using hended
                · intro hs
                  simpa [hs] using hrun
                · intro hs
                  simpa [hs] using hsto

/-- What `validateStored` accepts. -/
structure Stored (j : Job) : Prop where
  id : j.id ≠ ""
  revision : 0 < j.revision
  request : validateRequest j.userID j.hostname j.duration j.scope j.containerID j.spec j.kind =
    .ok ()
  createdAt : j.createdAt ≠ 0
  updatedAt : j.updatedAt ≠ 0
  state : ValidState j

theorem validateStored_eq_ok : j.validateStored = .ok () ↔ Stored j := by
  unfold validateStored
  split
  · rename_i hid
    exact ⟨nofun, fun h => absurd hid h.id⟩
  · rename_i hid
    split
    · rename_i hrev
      exact ⟨nofun, fun h => absurd h.revision (not_lt.2 hrev)⟩
    · rename_i hrev
      split
      · rename_i err hreq
        exact ⟨nofun, fun h => by rw [h.request] at hreq; cases hreq⟩
      · rename_i hreq
        split
        · rename_i htimes
          refine ⟨nofun, fun h => ?_⟩
          simp [h.createdAt, h.updatedAt] at htimes
        · rename_i htimes
          simp only [Time.isZero_iff, not_or] at htimes
          rw [validateState_eq_ok]
          exact ⟨fun h => ⟨hid, not_le.1 hrev, hreq, htimes.1, htimes.2, h⟩,
            fun h => h.state⟩

theorem Stored.duration_pos (h : Stored j) : 0 < j.duration := by
  have hreq := h.request
  unfold validateRequest at hreq
  split at hreq
  · cases hreq
  split at hreq
  · cases hreq
  split at hreq
  · cases hreq
  · rename_i hdur
    exact not_le.1 (not_or.1 hdur).1

/-! ## Progress -/

def Status.rank : Status → Nat
  | .pending => 0
  | .running => 1
  | .stopping => 2
  | .terminal => 3
  | .unsupported _ => 0

/-- What identifies a Job and what it asks for. -/
structure SameIdentity (j j' : Job) : Prop where
  id : j'.id = j.id
  kind : j'.kind = j.kind
  userID : j'.userID = j.userID
  hostname : j'.hostname = j.hostname
  duration : j'.duration = j.duration
  scope : j'.scope = j.scope
  containerID : j'.containerID = j.containerID
  spec : j'.spec = j.spec
  createdAt : j'.createdAt = j.createdAt

theorem SameIdentity.refl (j : Job) : SameIdentity j j :=
  ⟨rfl, rfl, rfl, rfl, rfl, rfl, rfl, rfl, rfl⟩

variable {j'' : Job}

theorem SameIdentity.trans (h : SameIdentity j j') (h' : SameIdentity j' j'') :
    SameIdentity j j'' :=
  ⟨h'.id.trans h.id, h'.kind.trans h.kind, h'.userID.trans h.userID,
    h'.hostname.trans h.hostname, h'.duration.trans h.duration, h'.scope.trans h.scope,
    h'.containerID.trans h.containerID, h'.spec.trans h.spec, h'.createdAt.trans h.createdAt⟩

/-- What a transition at `now` may do. -/
structure Progress (now : Time) (j j' : Job) : Prop where
  identity : SameIdentity j j'
  revision : j'.revision = j.revision
  status : j.status.rank ≤ j'.status.rank
  pendingDeadline : j.pendingDeadline ≠ 0 → j'.pendingDeadline = j.pendingDeadline
  stored : now ≠ 0 → Stored j → Stored j'

theorem Progress.refl (now : Time) (j : Job) : Progress now j j :=
  ⟨.refl j, rfl, Nat.le_refl _, fun _ => rfl, fun _ h => h⟩

theorem Progress.trans (h : Progress now j j') (h' : Progress now j' j'') : Progress now j j'' where
  identity := h.identity.trans h'.identity
  revision := h'.revision.trans h.revision
  status := Nat.le_trans h.status h'.status
  pendingDeadline := fun hne => by
    have hsame := h.pendingDeadline hne
    rw [h'.pendingDeadline (by rw [hsame]; exact hne), hsame]
  stored := fun hnow hj => h'.stored hnow (h.stored hnow hj)

theorem Status.rank_le (status : Status) : status.rank ≤ 3 := by
  cases status <;> simp [rank]

/-- Only the state is left to check when a transition touched the Job. -/
theorem Stored.touched (h : Stored j) (hnow : now ≠ 0) (hiden : SameIdentity j j')
    (hrev : j'.revision = j.revision) (hupd : j'.updatedAt = now) (hstt : ValidState j') :
    Stored j' where
  id := by rw [hiden.id]; exact h.id
  revision := by rw [hrev]; exact h.revision
  request := by
    rw [hiden.userID, hiden.hostname, hiden.duration, hiden.scope,
      hiden.containerID, hiden.spec, hiden.kind]
    exact h.request
  createdAt := by rw [hiden.createdAt]; exact h.createdAt
  updatedAt := by rw [hupd]; exact hnow
  state := hstt

/-- A result that `validateState` accepts. -/
def ValidResult (result : TerminalResult) : Prop := validateTerminal (some result) = .ok ()

theorem validResult_failedWith {reason : FailureReason} (h : isValidFailureReason reason = true)
    (message : String) : ValidResult (failedWith reason message) := by
  simp [ValidResult, validateTerminal, failedWith, isValidOutcome, h]

variable {result : TerminalResult}

theorem progress_setTerminal (j : Job) (hres : ValidResult result) :
    Progress now j (setTerminal j result now) where
  identity := ⟨rfl, rfl, rfl, rfl, rfl, rfl, rfl, rfl, rfl⟩
  revision := rfl
  status := j.status.rank_le
  pendingDeadline := fun _ => rfl
  stored := fun hnow hj => by
    refine hj.touched hnow ⟨rfl, rfl, rfl, rfl, rfl, rfl, rfl, rfl, rfl⟩ rfl rfl
      ⟨rfl, by simp [setTerminal], hres, ?_, hj.state.stopReason, nofun, nofun⟩
    -- a timestamp that was set before is not zero either
    refine ⟨fun _ => ?_, fun _ => rfl⟩
    show (if j.endedAt.isZero then now else j.endedAt) ≠ 0
    split
    · exact hnow
    · rename_i hended
      simpa using hended

theorem progress_setStopping {reason : StopReason} {gracePeriod : Duration} (j : Job)
    (hlive : j.status ≠ .terminal) (hgrace : 0 < gracePeriod)
    (hnone : reason ≠ .none) (hrea : isValidStopReason reason = true) :
    Progress now j (setStopping j reason now gracePeriod) where
  identity := ⟨rfl, rfl, rfl, rfl, rfl, rfl, rfl, rfl, rfl⟩
  revision := rfl
  status := by
    show j.status.rank ≤ 2
    cases hst : j.status with
    | terminal => exact absurd hst hlive
    | pending | running | stopping | unsupported _ => simp [Status.rank]
  pendingDeadline := fun _ => rfl
  stored := fun hnow hj => by
    have hterm : j.terminal.isSome = false := by
      simpa [hlive] using hj.state.terminal
    have hended : ¬ j.endedAt ≠ 0 := fun h => hlive (hj.state.ended.2 h)
    refine hj.touched hnow ⟨rfl, rfl, rfl, rfl, rfl, rfl, rfl, rfl, rfl⟩ rfl rfl
      ⟨rfl, ?_, hj.state.result, ?_, hrea, nofun, fun _ => ⟨hnone, ?_⟩⟩
    · simp [setStopping, hterm]
    · exact ⟨nofun, fun h => absurd h hended⟩
    · exact Time.add_ne_zero hnow (le_of_lt hgrace)

/-! ## Node operations -/

theorem validResult_mapOperationFailure (failure : NodeApi.OperationTerminal) :
    ValidResult (mapOperationFailure failure) := by
  unfold mapOperationFailure
  split
  · exact validResult_failedWith rfl _
  split
  · exact validResult_failedWith rfl _
  · dsimp only
    (repeat' split) <;> exact validResult_failedWith rfl _

theorem validResult_terminalResultForStop (reason : StopReason) :
    ValidResult (terminalResultForStop reason) := by
  cases reason with
  | user => rfl
  | startTimeout | executionTimeout | none | unsupported _ => exact validResult_failedWith rfl _

theorem validResult_terminalResult (current : Job) (terminal : Option NodeApi.OperationTerminal) :
    ValidResult (terminalResult current terminal) := by
  cases terminal with
  | none => exact validResult_failedWith rfl _
  | some terminal =>
    unfold terminalResult
    dsimp only
    split
    · rfl
    · exact validResult_mapOperationFailure terminal
    · exact validResult_terminalResultForStop _
    · exact validResult_failedWith rfl _

theorem clearUnavailable_status (current : Job) (now : Time) :
    (clearUnavailable current now).status = current.status := by
  unfold clearUnavailable
  split <;> rfl

/-- A transition that sets a deadline. -/
theorem progress_deadline (j : Job) {pendingDeadline : Time} (nodeUnavailableDeadline : Time)
    (hpend : j.pendingDeadline ≠ 0 → pendingDeadline = j.pendingDeadline) :
    Progress now j { j with pendingDeadline, nodeUnavailableDeadline, updatedAt := now } where
  identity := ⟨rfl, rfl, rfl, rfl, rfl, rfl, rfl, rfl, rfl⟩
  revision := rfl
  status := Nat.le_refl _
  pendingDeadline := hpend
  stored := fun hnow hj => by
    obtain ⟨hst, hterm, hres, hended, hrea, hrun, hsto⟩ := hj.state
    exact hj.touched hnow ⟨rfl, rfl, rfl, rfl, rfl, rfl, rfl, rfl, rfl⟩ rfl rfl
      ⟨hst, hterm, hres, hended, hrea, hrun, hsto⟩

theorem progress_clearUnavailable (current : Job) (now : Time) :
    Progress now current (clearUnavailable current now) := by
  unfold clearUnavailable
  split
  · exact .refl now current
  · exact progress_deadline current Time.zero fun _ => rfl

/-- A pending Job whose operation runs. -/
theorem progress_running (j : Job) (hpend : j.status = .pending) :
    Progress now j { j with
      status := .running
      startedAt := now
      executionDeadline := Time.add (now.add j.duration) policy.completionGracePeriod
      updatedAt := now } where
  identity := ⟨rfl, rfl, rfl, rfl, rfl, rfl, rfl, rfl, rfl⟩
  revision := rfl
  status := by rw [hpend]; exact Nat.zero_le _
  pendingDeadline := fun _ => rfl
  stored := fun hnow hj => by
    have hdea : Time.add (now.add j.duration) policy.completionGracePeriod ≠ 0 :=
      Time.add_ne_zero (Time.add_ne_zero hnow (le_of_lt hj.duration_pos))
        (le_of_lt policy.completionGracePeriod_pos)
    have hterm : j.terminal.isSome = false := by
      simpa [hpend] using hj.state.terminal
    have hended : ¬ j.endedAt ≠ 0 := fun h => by
      have := hj.state.ended.2 h
      simp [hpend] at this
    refine hj.touched hnow ⟨rfl, rfl, rfl, rfl, rfl, rfl, rfl, rfl, rfl⟩ rfl rfl
      ⟨rfl, ?_, hj.state.result, ?_, hj.state.stopReason, fun _ => ⟨hnow, hdea⟩, nofun⟩
    · simp [hterm]
    · exact ⟨nofun, fun h => absurd h hended⟩

variable {operation : NodeApi.Operation}

theorem progress_followOperation {followed : Job} (hst : updated.status = current.status)
    (hdur : updated.duration = current.duration) (hlive : updated.status ≠ .terminal)
    (h : followOperation policy operation current updated now = some followed) :
    Progress now updated followed := by
  have hgrace := policy.completionGracePeriod_pos
  unfold followOperation at h
  split at h
  · split at h
    · cases h
      exact progress_setTerminal _ (validResult_failedWith rfl _)
    · split at h <;> cases h
      exact progress_setStopping _ hlive hgrace nofun rfl
  · split at h
    · rename_i hpend
      cases h
      rw [← hdur]
      exact progress_running updated (hst.trans hpend)
    · split at h <;> cases h
      exact progress_setStopping _ hlive hgrace nofun rfl
  · split at h
    · cases h
      exact progress_setTerminal _ (validResult_failedWith rfl _)
    · split at h <;> cases h
      exact progress_setTerminal _ (validResult_failedWith rfl _)
  · cases h
    exact progress_setTerminal _ (validResult_terminalResult current operation.terminal)
  · cases h
    exact progress_setTerminal _ (validResult_failedWith rfl _)

theorem progress_enforceStop (operation : NodeApi.Operation) (updated : Job) (changed : Bool)
    (now : Time) : Progress now updated (enforceStop operation updated changed now).updated := by
  unfold enforceStop
  split
  · split
    · exact progress_setTerminal _ (validResult_failedWith rfl _)
    · exact .refl now updated
  · exact .refl now updated

theorem progress_reconcileJobWithOperation {reconciliation : Reconciliation}
    (h : reconcileJobWithOperation policy operation current now = some reconciliation) :
    current.status ≠ .terminal ∧ Progress now current reconciliation.updated := by
  unfold reconcileJobWithOperation at h
  split at h
  · cases h
  rename_i hlive
  have hlive : current.status ≠ .terminal := by simpa [isTerminal] using hlive
  cases h
  have hclear := progress_clearUnavailable current now
  refine ⟨hlive, hclear.trans ?_⟩
  refine Progress.trans ?_ (progress_enforceStop _ _ _ now)
  cases hfol : followOperation policy operation current (clearUnavailable current now) now with
  | none => exact .refl now _
  | some followed =>
    have hst := clearUnavailable_status current now
    exact progress_followOperation hst hclear.identity.duration (by rw [hst]; exact hlive)
      hfol

/-! ## Node errors -/

variable {nodeErr : NodeApi.NodeError}

theorem validResult_classifyError (h : classifyError nodeErr current = some result) :
    ValidResult result := by
  unfold classifyError at h
  split at h <;> try split at h
  all_goals first
    | cases h; exact validResult_failedWith rfl _
    | cases h; rfl
    | cases h

theorem progress_reconcileJobWithError
    (h : reconcileJobWithError policy nodeErr current now = some updated) :
    current.status ≠ .terminal ∧ Progress now current updated := by
  unfold reconcileJobWithError at h
  split at h
  · cases h
  rename_i hlive
  refine ⟨by simpa [isTerminal] using hlive, ?_⟩
  split at h
  · rename_i result hres
    cases h
    exact progress_setTerminal _ (validResult_classifyError hres)
  · split at h
    · cases h
      exact progress_deadline current _ fun _ => rfl
    · split at h <;> cases h
      exact progress_setTerminal _ (validResult_failedWith rfl _)

/-! ## Transitions -/

theorem progress_startDeadline (h : startDeadline policy current now = some updated) :
    current.status = .pending ∧ current.pendingDeadline = 0 ∧
      updated.pendingDeadline = now.add policy.pendingTimeout ∧ Progress now current updated := by
  unfold startDeadline at h
  split at h
  · cases h
  rename_i hready
  simp only [not_or, ne_eq, Decidable.not_not, Time.isZero_iff] at hready
  obtain ⟨hpend, hzero⟩ := hready
  cases h
  exact ⟨hpend, hzero, rfl, progress_deadline current _ fun hne => absurd hzero hne⟩

theorem progress_stop (h : stop policy current now = some updated) :
    current.status ≠ .terminal ∧ Progress now current updated := by
  unfold stop at h
  split at h
  · cases h
  rename_i hlive
  have hlive : current.status ≠ .terminal := by simpa [isTerminal] using (not_or.1 hlive).1
  refine ⟨hlive, ?_⟩
  split at h <;> cases h
  · -- the reason does not matter for a pending Job, and `setTerminal` does the rest
    refine Progress.trans ?_ (progress_setTerminal _ rfl)
    rename_i hpend
    refine ⟨⟨rfl, rfl, rfl, rfl, rfl, rfl, rfl, rfl, rfl⟩, rfl, Nat.le_refl _, fun _ => rfl, ?_⟩
    intro _ hj
    obtain ⟨hst, hterm, hres, hended, -, hrun, hsto⟩ := hj.state
    refine ⟨hj.id, hj.revision, hj.request, hj.createdAt, hj.updatedAt,
      ⟨hst, hterm, hres, hended, rfl, hrun, ?_⟩⟩
    intro hs
    exact absurd (hpend.1.symm.trans hs) nofun
  · exact progress_setStopping _ hlive policy.completionGracePeriod_pos nofun rfl

/-- **Every transition is progress of a Job that is not terminal.** -/
theorem apply_progress {transition : Transition}
    (h : transition.apply policy current now = some updated) :
    current.status ≠ .terminal ∧ Progress now current updated := by
  cases transition with
  | startDeadline =>
    obtain ⟨hpend, -, -, hpro⟩ := progress_startDeadline h
    exact ⟨by rw [hpend]; nofun, hpro⟩
  | operation snapshot =>
    obtain ⟨reconciliation, hrec, hcha⟩ := Option.bind_eq_some_iff.1 h
    obtain ⟨hlive, hpro⟩ := progress_reconcileJobWithOperation hrec
    split at hcha <;> cases hcha
    exact ⟨hlive, hpro⟩
  | error nodeErr => exact progress_reconcileJobWithError h
  | stop => exact progress_stop h

end Huatuo.Job
