import Huatuo.Job.History

/-!
# Every run writes legal histories

Whatever runtimes, stops, failed saves, crashes and recoveries are interleaved, the trace of every
Job is justified: `inv_step` is the step, `legal_of_reachable` the run. What that means for the
persisted versions (`versions_chain`) and for the requests sent (`write_ahead_intent`) follows from
the trace alone.

`RuntimeInv` is what a runtime may rely on: its cached Job is a persisted version; a version it is
about to save is a transition of it; a start it is about to send has an intent that it wrote itself.
As a save succeeds only while the row has the cached revision, and a revision determines the
version, a version is always written over the very version it was computed from.
-/

namespace Huatuo.Job

open Function List Option
open Trace (Justified justified_concat justified_nil justified_of_append)

/-! ## Runtimes -/

/-- Persisted, or about to be the first version. -/
def Known (t : List Event) (issued : Option (Nat × Job)) (job : Job) : Prop :=
  job ∈ versions t ∨ versions t = [] ∧ ∃ i, issued = some (i, job)

/-- Runtime `i` wrote the intent to start, and no start was sent. -/
def Ticket (t : List Event) (i : Nat) : Prop :=
  (∃ now job, .saved i .startDeadline now job ∈ t) ∧ .sent .start ∉ t

def StopIntent (t : List Event) : Prop :=
  ∃ v ∈ versions t, v.status = .stopping ∧ v.stopReason ≠ .none

/-- What the owner of the gate relies on when it saves. -/
def Owner.Saves (transition : Transition) (updated : Job) : Owner → Prop
  | .stop => updated.status ≠ .running
  | .startDeadline => transition = .startDeadline
  | .operation true => updated.status = .stopping
  | _ => True

/-- What the owner of the gate relies on once it has saved. -/
def Owner.Saved (t : List Event) (i : Nat) (persisted : Job) : Owner → Prop
  | .stop => persisted.status ≠ .running
  | .startDeadline => Ticket t i
  | .operation true => persisted.status = .stopping
  | _ => True

def Gate.Inv (t : List Event) (i : Nat) (policy : RuntimePolicy) (job : Job) : Gate → Prop
  | .free => True
  | .saving owner transition now updated =>
    now ≠ 0 ∧ transition.apply policy job now = some updated ∧ owner.Saves transition updated
  | .returning owner (.ok persisted) =>
    persisted ∈ versions t ∧ job.status.rank ≤ persisted.status.rank ∧ owner.Saved t i persisted
  | .returning _ (.error _) => True

def Phase.Inv (t : List Event) (issued : Option (Nat × Job)) (i : Nat) (job : Job) : Phase → Prop
  | .creating => versions t = [] ∧ ∃ job, issued = some (i, job)
  | .ready .start => Ticket t i
  | .ready .stop => StopIntent t ∧ Status.stopping.rank ≤ job.status.rank
  | _ => True

/-- Whether the supervisor holds the gate. -/
def Gate.isSupervised : Gate → Bool
  | .free => false
  | .saving owner _ _ _ | .returning owner _ => owner != .stop

structure RuntimeInv (id : String) (t : List Event) (issued : Option (Nat × Job)) (i : Nat)
    (r : Runtime) : Prop where
  id : r.id = id
  known : Known t issued r.job
  gate : r.gate.Inv t i r.policy r.job
  phase : r.phase.Inv t issued i r.job
  exclusive : r.gate.isSupervised = true → r.phase = .transitioning

/-- A Job as `Create` makes it. -/
structure Fresh (id : String) (job : Job) : Prop where
  id : job.id = id
  revision : job.revision = 1
  status : job.status = .pending

variable {id : String} {t : List Event} {issued : Option (Nat × Job)} {i : Nat} {r r' : Runtime}
  {job : Job}
  {e : Event} {policy : RuntimePolicy} {now : Time}

theorem Known.id_eq (h : Known t issued job) (ht : Justified (Legal id) t)
    (hiss : ∀ i job, issued = some (i, job) → Fresh id job) : job.id = id := by
  rcases h with h | ⟨-, i, h⟩
  · exact (stored_of_mem ht h).2
  · exact (hiss i job h).id

/-- A stopping Job that is known has been persisted with its reason. -/
theorem Known.stopIntent (h : Known t issued job) (ht : Justified (Legal id) t)
    (hiss : ∀ i job, issued = some (i, job) → Fresh id job) (hst : job.status = .stopping) :
    StopIntent t := by
  rcases h with h | ⟨-, i, h⟩
  · exact ⟨job, h, hst, ((stored_of_mem ht h).1.state.stopping hst).1⟩
  · have hpend := (hiss i job h).status
    simp [hst] at hpend

/-! ## Moves -/

theorem Phase.Inv.mono {job job' : Job} {phase : Phase} (h : phase.Inv t issued i job)
    (hrank : job.status.rank ≤ job'.status.rank) : phase.Inv t issued i job' := by
  cases phase with
  | ready request =>
    cases request with
    | start | get => exact h
    | stop => exact ⟨h.1, Nat.le_trans h.2 hrank⟩
  | _ => exact h

variable {current : Job}

/-- If `StopOperation` is to follow, the Job is stopping. -/
theorem stopping_of_shouldStop {snapshot : NodeApi.Operation} {reconciliation : Reconciliation}
    (h : reconcileJobWithOperation policy snapshot current now = some reconciliation)
    (hstop : reconciliation.shouldStop = true) :
    reconciliation.updated.status = .stopping ∧
      (reconciliation.changed = false → current.status = .stopping) := by
  unfold reconcileJobWithOperation at h
  split at h
  · cases h
  dsimp only at h
  cases h
  unfold enforceStop at hstop ⊢
  split at hstop
  · rename_i hsto
    split at hstop
    · cases hstop
    rename_i hbef
    simp only [hsto, hbef, and_self, if_true, if_false, true_and]
    intro hunc
    rw [Bool.or_eq_false_iff, isSome_eq_false_iff, isNone_iff_eq_none] at hunc
    rw [hunc.2] at hsto
    rw [← clearUnavailable_status current now]
    exact hsto.1
  · cases hstop

theorem RuntimeInv.setPhase (h : RuntimeInv id t issued i r) (hfree : r.phase ≠ .transitioning)
    {phase : Phase} (hph : phase.Inv t issued i r.job) :
    RuntimeInv id t issued i { r with phase := phase } :=
  ⟨h.id, h.known, h.gate, hph, fun hs => absurd (h.exclusive hs) hfree⟩

variable {updated : Job}

/-- The supervisor takes the gate. -/
theorem RuntimeInv.acquire {transition : Transition} {owner : Owner}
    (h : RuntimeInv id t issued i r) (hnow : now ≠ 0)
    (happly : transition.apply r.policy r.job now = some updated)
    (hown : owner.Saves transition updated) :
    RuntimeInv id t issued i
      { r with gate := .saving owner transition now updated, phase := .transitioning } :=
  ⟨h.id, h.known, ⟨hnow, happly, hown⟩, trivial, fun _ => rfl⟩

theorem stop_status (h : Job.stop policy current now = some updated) :
    updated.status ≠ .running := by
  unfold Job.stop at h
  (repeat' split at h) <;> cases h <;> nofun

theorem stop_inv (h : RuntimeInv id t issued i r) (hnow : now ≠ 0) :
    RuntimeInv id t issued i (r.stop now) := by
  unfold Runtime.stop
  split
  · exact h
  · rename_i updated hstop
    exact ⟨h.id, h.known, ⟨hnow, hstop, stop_status hstop⟩, h.phase, nofun⟩

theorem supervise_inv (h : RuntimeInv id t issued i r) (hph : r.phase = .idle) :
    RuntimeInv id t issued i r.supervise := by
  have hfree : r.phase ≠ .transitioning := by rw [hph]; nofun
  unfold Runtime.supervise
  (repeat' split) <;> exact h.setPhase hfree trivial

theorem startDeadline_inv (h : RuntimeInv id t issued i r) (hph : r.phase = .startDecided)
    (hnow : now ≠ 0) : RuntimeInv id t issued i (r.startDeadline now) := by
  unfold Runtime.startDeadline
  split
  · exact h.setPhase (by rw [hph]; nofun) trivial
  · rename_i updated hsta
    exact h.acquire hnow hsta rfl

theorem reconcileOperation_inv (ht : Justified (Legal id) t)
    (hiss : ∀ i job, issued = some (i, job) → Fresh id job) (h : RuntimeInv id t issued i r)
    (hfree : r.phase ≠ .transitioning) (request : Request) (snapshot : NodeApi.Operation)
    (hnow : now ≠ 0) : RuntimeInv id t issued i (r.reconcileOperation request snapshot now) := by
  unfold Runtime.reconcileOperation
  split
  · exact h.setPhase hfree trivial
  rename_i reconciliation hrec
  have hsto : Runtime.sendsStop request reconciliation = true →
      reconciliation.updated.status = .stopping ∧
        (reconciliation.changed = false → r.job.status = .stopping) := by
    intro hsends
    rw [Runtime.sendsStop, Bool.and_eq_true] at hsends
    exact stopping_of_shouldStop hrec hsends.2
  dsimp only
  split
  · rename_i hcha
    refine h.acquire hnow ?_ ?_
    · simp only [Transition.apply, hrec, bind_some, hcha, if_true]
    · cases hsends : Runtime.sendsStop request reconciliation with
      | false => trivial
      | true => exact (hsto hsends).1
  · rename_i hcha
    refine h.setPhase hfree ?_
    split
    · rename_i hsends
      have hst := (hsto hsends).2 (Bool.eq_false_iff.2 hcha)
      exact ⟨h.known.stopIntent ht hiss hst, Nat.le_of_eq (by rw [hst])⟩
    · trivial

theorem reconcileError_inv (h : RuntimeInv id t issued i r) (hfree : r.phase ≠ .transitioning)
    (nodeErr : NodeApi.NodeError) (hnow : now ≠ 0) :
    RuntimeInv id t issued i (r.reconcileError nodeErr now) := by
  unfold Runtime.reconcileError
  split
  · refine h.setPhase hfree ?_
    split <;> trivial
  · rename_i updated herror
    exact h.acquire hnow herror trivial

/-- After a save that returned nil, the version is the cached one. -/
theorem saved_inv (ht : Justified (Legal id) t) (h : RuntimeInv id t issued i r) {owner : Owner}
    {persisted : Job} (hgate : r.gate = .returning owner (.ok persisted)) :
    RuntimeInv id t issued i (r.saved owner persisted) := by
  have hinv := h.gate
  rw [hgate] at hinv
  obtain ⟨hmem, hrank, hown⟩ := hinv
  have hknown : Known t issued persisted := Or.inl hmem
  cases owner with
  | stop => exact ⟨h.id, hknown, trivial, h.phase.mono hrank, nofun⟩
  | startDeadline => exact ⟨h.id, hknown, trivial, hown, nofun⟩
  | operation shouldStop =>
    unfold Runtime.saved
    dsimp only
    split
    · exact ⟨h.id, hknown, trivial, trivial, nofun⟩
    refine ⟨h.id, hknown, trivial, ?_, nofun⟩
    cases shouldStop with
    | false => trivial
    | true =>
      refine ⟨⟨persisted, hmem, hown, ?_⟩, Nat.le_of_eq (by rw [hown])⟩
      exact ((stored_of_mem ht hmem).1.state.stopping hown).1
  | error =>
    refine ⟨h.id, hknown, trivial, ?_, nofun⟩
    unfold Runtime.saved
    dsimp only
    split <;> trivial

theorem unsaved_inv (h : RuntimeInv id t issued i r) (owner : Owner) (err : StoreError) :
    RuntimeInv id t issued i (r.unsaved owner err) := by
  cases owner with
  | stop => exact ⟨h.id, h.known, trivial, h.phase, nofun⟩
  | startDeadline | operation _ | error =>
    refine ⟨h.id, h.known, trivial, ?_, nofun⟩
    unfold Runtime.unsaved
    dsimp only
    split <;> trivial

/-- **A move inside a runtime keeps its invariant.** -/
theorem move_inv {move : Runtime.Move} (ht : Justified (Legal id) t)
    (hiss : ∀ i job, issued = some (i, job) → Fresh id job) (h : RuntimeInv id t issued i r)
    (hmove : r.move move = some r') : RuntimeInv id t issued i r' := by
  cases move with simp only [Runtime.move] at hmove
  | leave =>
    split at hmove <;> cases hmove
    rename_i hfree
    exact h.setPhase hfree trivial
  | createReturns failed =>
    split at hmove
    · rename_i hph
      split at hmove <;> cases hmove
      exact h.setPhase (by rw [hph]; nofun) trivial
    · rename_i hph
      cases hmove
      refine h.setPhase (by rw [hph]; nofun) ?_
      split <;> trivial
    · cases hmove
  | stop now =>
    (repeat' split at hmove) <;> cases hmove
    rename_i hnow
    exact stop_inv h hnow
  | supervise =>
    split at hmove <;> cases hmove
    rename_i hph
    exact supervise_inv h hph
  | startDeadline now =>
    split at hmove
    · rename_i hph hgate
      split at hmove <;> cases hmove
      rename_i hnow
      exact startDeadline_inv h hph hnow
    · cases hmove
  | reply reply =>
    split at hmove <;> cases hmove
    rename_i request hph
    exact h.setPhase (by rw [hph]; nofun) trivial
  | reconcile now =>
    split at hmove
    · rename_i request reply hph hgate
      have hfree : r.phase ≠ .transitioning := by rw [hph]; nofun
      split at hmove
      · cases hmove
      rename_i hnow
      split at hmove <;> cases hmove
      · exact reconcileOperation_inv ht hiss h hfree request _ hnow
      · exact reconcileError_inv h hfree _ hnow
      · exact h.setPhase hfree trivial
    · cases hmove
  | saveFails =>
    split at hmove <;> cases hmove
    rename_i owner transition now updated hgate
    have hexc := h.exclusive
    rw [hgate] at hexc
    exact ⟨h.id, h.known, trivial, h.phase, hexc⟩
  | saveReturns failed =>
    split at hmove
    · rename_i owner result hgate
      split at hmove <;> cases hmove
      · exact saved_inv ht h hgate
      · exact unsaved_inv h owner _
      · exact unsaved_inv h owner _
    · cases hmove

/-! ## Events -/

theorem ticket_concat (h : Ticket t i) (he : e ≠ .sent .start) : Ticket (t ++ [e]) i := by
  obtain ⟨⟨now, job, hmem⟩, hsent⟩ := h
  refine ⟨⟨now, job, mem_append_left _ hmem⟩, ?_⟩
  simp [hsent, he.symm]

theorem mem_versions_concat {v : Job} (h : v ∈ versions t) (e : Event) :
    v ∈ versions (t ++ [e]) := by
  rw [versions_concat]
  exact mem_append_left _ h

/-- A legal event is no concern of a runtime, unless it takes its ticket or creates its Job. -/
theorem RuntimeInv.extend (h : RuntimeInv id t issued i r) (he : Legal id t e)
    (hcre : ∀ job, e = .created job → ∃ k, issued = some (k, job) ∧ (k = i → r.phase ≠ .creating))
    (hsta : e = .sent .start → Ticket t i → r.gate.isSupervised = false ∧ r.phase ≠ .ready .start) :
    RuntimeInv id (t ++ [e]) issued i r := by
  refine ⟨h.id, ?_, ?_, ?_, h.exclusive⟩
  · rcases h.known with hmem | ⟨hnil, k, hiss⟩
    · exact Or.inl (mem_versions_concat hmem e)
    · cases e with
      | sent _ => exact Or.inr ⟨by rw [versions_concat, hnil]; rfl, k, hiss⟩
      | created job =>
        obtain ⟨k', hiss', -⟩ := hcre job rfl
        rw [hiss] at hiss'
        cases hiss'
        exact Or.inl (version_mem (mem_append_right _ (mem_singleton_self _)) rfl)
      | saved _ _ _ _ =>
        obtain ⟨-, -, previous, -, hlast, -⟩ := he
        simp [hnil] at hlast
  · have hgate := h.gate
    generalize r.gate = gate at hgate hsta ⊢
    cases gate with
    | free => trivial
    | saving _ _ _ _ => exact hgate
    | returning owner result =>
      cases result with
      | error _ => trivial
      | ok persisted =>
        refine ⟨mem_versions_concat hgate.1 e, hgate.2.1, ?_⟩
        have hown := hgate.2.2
        cases owner with
        | startDeadline =>
          exact ticket_concat hown fun hsent => nomatch (hsta hsent hown).1
        | operation shouldStop => cases shouldStop <;> exact hown
        | stop => exact hown
        | error => trivial
  · have hph := h.phase
    generalize r.phase = phase at hph hcre hsta ⊢
    cases phase with
    | creating =>
      obtain ⟨hnil, job, hiss⟩ := hph
      refine ⟨?_, job, hiss⟩
      cases e with
      | sent _ => rw [versions_concat, hnil]; rfl
      | created job' =>
        obtain ⟨k, hiss', hne⟩ := hcre job' rfl
        rw [hiss] at hiss'
        cases hiss'
        exact absurd rfl (hne rfl)
      | saved _ _ _ _ =>
        obtain ⟨-, -, previous, -, hlast, -⟩ := he
        simp [hnil] at hlast
    | ready request =>
      cases request with
      | start => exact ticket_concat hph fun hsent => (hsta hsent hph).2 rfl
      | get => trivial
      | stop =>
        obtain ⟨⟨v, hmem, hv⟩, hrank⟩ := hph
        exact ⟨⟨v, mem_versions_concat hmem e, hv⟩, hrank⟩
    | created | idle | startDecided | awaiting _ | replied _ _ | transitioning | conflicted
    | exited => trivial

/-! ## Worlds -/

namespace World

structure Inv (w : World) : Prop where
  legal : ∀ id, Justified (Legal id) (w.trace id)
  table : ∀ id row, w.table id = some row →
    ∃ v, (versions (w.trace id)).getLast? = some v ∧ Job.record v = .ok row
  issued : ∀ id i job, w.issued id = some (i, job) → Fresh id job
  unissued : ∀ id, w.issued id = none → versions (w.trace id) = []
  runtimes : ∀ i r, w.runtimes i = some r → RuntimeInv r.id (w.trace r.id) (w.issued r.id) i r

variable {w w' : World}

theorem inv_empty : Inv {} := by
  refine ⟨fun _ => justified_nil, ?_, ?_, fun _ _ => rfl, ?_⟩
  · intro id row hrow
    cases hrow
  · intro id i job hjob
    cases hjob
  · intro i r hr
    cases hr

theorem setRuntime_self (w : World) (i : Nat) (r : Runtime) :
    (w.setRuntime i r).runtimes i = some r := update_self ..

theorem setRuntime_of_ne {j : Nat} (h : j ≠ i) (w : World) (r : Runtime) :
    (w.setRuntime i r).runtimes j = w.runtimes j := update_of_ne h _ _

theorem Inv.setRuntime (hi : Inv w) (hr : RuntimeInv r.id (w.trace r.id) (w.issued r.id) i r) :
    Inv (w.setRuntime i r) := by
  refine ⟨hi.legal, hi.table, hi.issued, hi.unissued, ?_⟩
  intro j r' hj
  by_cases hji : j = i
  · subst hji
    rw [setRuntime_self] at hj
    cases hj
    exact hr
  · rw [setRuntime_of_ne hji] at hj
    exact hi.runtimes j r' hj

/-- A runtime makes an event happen. -/
theorem Inv.record (hi : Inv w) {table : Table} (he : Legal id (w.trace id) e)
    (hr : RuntimeInv id (w.trace id ++ [e]) (w.issued id) i r)
    (hcre : ∀ job, e = .created job → w.issued id = some (i, job))
    (hsta : e = .sent .start → ∀ j, j ≠ i → ¬ Ticket (w.trace id) j)
    (htable : ∀ row, table id = some row →
      ∃ v, (versions (w.trace id ++ [e])).getLast? = some v ∧ Job.record v = .ok row)
    (hoth : ∀ id', id' ≠ id → table id' = w.table id')
    (hiss : e.version? ≠ none → w.issued id ≠ none) :
    Inv (({ w with table := table }.setRuntime i r).record id e) := by
  have htrace : ∀ id', id' ≠ id →
      (({ w with table := table }.setRuntime i r).record id e).trace id' = w.trace id' :=
    fun id' hne => update_of_ne hne _ _
  have hself : (({ w with table := table }.setRuntime i r).record id e).trace id =
      w.trace id ++ [e] := update_self ..
  refine ⟨?_, ?_, hi.issued, ?_, ?_⟩
  · intro id'
    by_cases hid : id' = id
    · subst hid
      rw [hself]
      exact justified_concat.2 ⟨hi.legal id', he⟩
    · rw [htrace id' hid]
      exact hi.legal id'
  · intro id' row hrow
    by_cases hid : id' = id
    · subst hid
      rw [hself]
      exact htable row hrow
    · rw [htrace id' hid]
      exact hi.table id' row ((hoth id' hid).symm.trans hrow)
  · intro id' hnone
    by_cases hid : id' = id
    · subst hid
      rw [hself, versions_concat, hi.unissued id' hnone]
      cases hv : e.version? with
      | none => rfl
      | some v => exact absurd hnone (hiss (by rw [hv]; nofun))
    · rw [htrace id' hid]
      exact hi.unissued id' hnone
  · intro j r' hj
    by_cases hji : j = i
    · subst hji
      obtain rfl : r = r' := Option.some.inj ((setRuntime_self ..).symm.trans hj)
      rw [hr.id, hself]
      exact hr
    · have hj : w.runtimes j = some r' := (setRuntime_of_ne hji ..).symm.trans hj
      have hinv := hi.runtimes j r' hj
      by_cases hid : r'.id = id
      · rw [hid] at hinv ⊢
        rw [hself]
        refine hinv.extend he ?_ ?_
        · intro job hjob
          exact ⟨i, hcre job hjob, fun h => absurd h.symm hji⟩
        · intro hsent
          exact fun htic => absurd htic (hsta hsent j hji)
      · rw [htrace _ hid]
        exact hinv

/-! ## Steps -/

/-- What the store returns is the last version. -/
theorem Inv.get {stored : Job} (hi : Inv w) (h : Job.get w.table id = .ok stored) :
    (versions (w.trace id)).getLast? = some stored ∧ stored.id = id := by
  cases htable : w.table id with
  | none =>
    simp [Job.get, htable] at h
  | some row =>
    obtain ⟨v, hlast, hrow⟩ := hi.table id row htable
    obtain rfl : v.id = id := (stored_of_mem (hi.legal id) (mem_of_getLast? hlast)).2
    rw [get_of_record hrow htable] at h
    cases h
    exact ⟨hlast, rfl⟩

theorem create_inv (hi : Inv w) (hiss : w.issued id = none) (request : CreateRequest) (now : Time)
    (policy : RuntimePolicy) :
    Inv { w.setRuntime i (newRuntime (request.newJob id now) policy .creating) with
      issued := update w.issued id (some (i, request.newJob id now)) } := by
  have hnil := hi.unissued id hiss
  refine ⟨hi.legal, hi.table, ?_, ?_, ?_⟩
  · intro id' i' job hjob
    by_cases hid : id' = id
    · subst hid
      obtain ⟨rfl, rfl⟩ : i = i' ∧ request.newJob id' now = job := by simpa using hjob
      exact ⟨rfl, rfl, rfl⟩
    · exact hi.issued id' i' job ((update_of_ne hid _ _).symm.trans hjob)
  · intro id' hnone
    by_cases hid : id' = id
    · subst hid
      exact hnil
    · exact hi.unissued id' ((update_of_ne hid _ _).symm.trans hnone)
  · intro j r hj
    dsimp only at hj ⊢
    by_cases hji : j = i
    · subst hji
      rw [setRuntime_self] at hj
      cases hj
      have hself := update_self id (some (j, request.newJob id now)) w.issued
      exact ⟨rfl, Or.inr ⟨hnil, j, hself⟩, trivial, ⟨hnil, _, hself⟩, nofun⟩
    · rw [setRuntime_of_ne hji] at hj
      have hinv := hi.runtimes j r hj
      -- no runtime knows a Job whose ID has not been issued
      have hid : r.id ≠ id := by
        intro hid
        rcases hinv.known with hmem | ⟨-, k, hsome⟩
        · rw [hid, hnil] at hmem
          exact absurd hmem not_mem_nil
        · simp [hid, hiss] at hsome
      rw [update_of_ne hid]
      exact hinv

theorem createRuns_inv (hi : Inv w) (hr : w.runtimes i = some r) (h : w.createRuns i r = some w') :
    Inv w' := by
  have hinv := hi.runtimes i r hr
  unfold createRuns at h
  split at h
  · rename_i k job hph hiss
    split at h
    · cases h
      exact hi.setRuntime (hinv.setPhase (by rw [hph]; nofun) trivial)
    · rename_i table hcrt
      cases h
      obtain ⟨hrev, -, row, hrow, rfl⟩ := create_eq_ok hcrt
      have hfresh := hi.issued r.id k job hiss
      have hcrea := hinv.phase
      rw [hph] at hcrea
      obtain ⟨hnil, job', hiss'⟩ := hcrea
      rw [hiss] at hiss'
      cases hiss'
      have hlegal : Legal r.id (w.trace r.id) (.created job) :=
        ⟨hnil, hfresh.id, hrev, hfresh.status, stored_of_record hrow⟩
      have hlater : RuntimeInv r.id (w.trace r.id) (w.issued r.id) i { r with phase := .created } :=
        hinv.setPhase (by rw [hph]; nofun) trivial
      rw [hfresh.id]
      refine hi.record hlegal (hlater.extend hlegal ?_ nofun) ?_ nofun ?_ ?_ ?_
      · rintro _ ⟨⟩
        exact ⟨i, hiss, nofun⟩
      · rintro _ ⟨⟩
        exact hiss
      · intro row' hrow'
        rw [update_self] at hrow'
        cases hrow'
        exact ⟨job, by rw [versions_concat, hnil]; rfl, hrow⟩
      · intro id hne
        exact update_of_ne hne _ _
      · intro _
        rw [hiss]
        nofun
  · cases h

/-- **A version is written over the version it was computed from**: the row is the last version, and
its revision is that of the cached Job. -/
theorem Inv.last_eq_job {row : Record} (hi : Inv w) (hr : w.runtimes i = some r)
    (hrow : w.table r.id = some row) (hrev : row.revision = r.job.revision) :
    (versions (w.trace r.id)).getLast? = some r.job := by
  obtain ⟨last, hlast, hreco⟩ := hi.table r.id row hrow
  have hmem := mem_of_getLast? hlast
  rcases (hi.runtimes i r hr).known with hknown | ⟨hnil, -⟩
  · have hsame : last = r.job := by
      refine eq_of_revision (hi.legal r.id) hmem hknown ?_
      rw [← hrev, revision_of_record hreco]
    rw [← hsame]
    exact hlast
  · rw [hnil] at hmem
    exact absurd hmem not_mem_nil

variable {v : Job} {updated : Job}

/-- A start that was sent had its intent persisted, so that no second one follows. -/
theorem not_sent_of_startDeadline (ht : Justified (Legal id) t)
    (hlast : (versions t).getLast? = some v) (happly : startDeadline policy v now = some updated) :
    .sent .start ∉ t := by
  intro hsent
  obtain ⟨pre, post, hsplit, -, writer, now', v', hsta⟩ := legal_of_mem ht hsent
  have hmem : .saved writer .startDeadline now' v' ∈ t := by
    rw [hsplit]
    exact mem_append_left _ hsta
  exact pendingDeadline_last ht hmem hlast (progress_startDeadline happly).2.1

theorem saved_event {owner : Owner} {transition : Transition} (ht : Justified (Legal id) t)
    (hinv : RuntimeInv id t issued i r) (hgate : r.gate = .saving owner transition now updated)
    (hlast : (versions t).getLast? = some r.job) :
    Legal id t (.saved i transition now updated.nextRevision) ∧
      RuntimeInv id (t ++ [.saved i transition now updated.nextRevision]) issued i
        { r with gate := .returning owner (.ok updated.nextRevision) } := by
  have hsav := hinv.gate
  have hexc := hinv.exclusive
  rw [hgate] at hsav hexc
  obtain ⟨hnow, happly, hown⟩ := hsav
  have hlegal : Legal id t (.saved i transition now updated.nextRevision) :=
    ⟨hnow, r.policy, r.job, updated, hlast, happly, rfl⟩
  have hext := hinv.extend hlegal (fun _ h => by cases h) (fun h => by cases h)
  have hlastEvent := mem_append_right t
    (mem_singleton_self (Event.saved i transition now updated.nextRevision))
  have hrank : r.job.status.rank ≤ updated.nextRevision.status.rank :=
    (apply_progress happly).2.status
  refine ⟨hlegal, hinv.id, hext.known, ⟨version_mem hlastEvent rfl, hrank, ?_⟩, hext.phase,
    hexc⟩
  cases owner with
  | startDeadline =>
    obtain rfl : transition = .startDeadline := hown
    refine ⟨⟨now, _, hlastEvent⟩, ?_⟩
    have hsent := not_sent_of_startDeadline ht hlast happly
    simp [hsent]
  | operation shouldStop => cases shouldStop <;> exact hown
  | stop => exact hown
  | error => trivial

theorem saveRuns_inv (hi : Inv w) (hr : w.runtimes i = some r) (h : w.saveRuns i r = some w') :
    Inv w' := by
  have hinv := hi.runtimes i r hr
  unfold saveRuns at h
  split at h
  · rename_i owner transition now updated hgate
    split at h
    · cases h
      have hexc := hinv.exclusive
      rw [hgate] at hexc
      exact hi.setRuntime ⟨hinv.id, hinv.known, trivial, hinv.phase, hexc⟩
    · rename_i persisted table hsave
      cases h
      obtain ⟨rfl, current, row, hcur, hrev, hrow, rfl⟩ := save_eq_ok hsave
      have hsav := hinv.gate
      rw [hgate] at hsav
      have hpro := (apply_progress hsav.2.1).2
      have hid : updated.id = r.id :=
        hpro.identity.id.trans (hinv.known.id_eq (hi.legal r.id) (hi.issued r.id))
      rw [hid] at hcur ⊢
      rw [hpro.revision] at hrev
      have hlast := hi.last_eq_job hr hcur hrev
      obtain ⟨hlegal, hlater⟩ := saved_event (hi.legal r.id) hinv hgate hlast
      refine hi.record hlegal hlater (fun _ h => by cases h) (fun h => by cases h) ?_ ?_ ?_
      · intro row' hrow'
        rw [update_self] at hrow'
        cases hrow'
        refine ⟨updated.nextRevision, ?_, hrow⟩
        rw [versions_concat]
        exact List.getLast?_concat ..
      · intro id hne
        exact update_of_ne hne _ _
      · intro _ hnone
        simp [hi.unissued r.id hnone] at hlast
  · cases h

theorem reload_inv {failed : Bool} (hi : Inv w) (hr : w.runtimes i = some r)
    (h : w.reload i r failed = some w') : Inv w' := by
  have hinv := hi.runtimes i r hr
  unfold reload at h
  split at h
  · rename_i hph hgate
    have hfree : r.phase ≠ .transitioning := by rw [hph]; nofun
    split at h
    · rename_i stored hget
      split at h <;> cases h
      · exact hi.setRuntime (hinv.setPhase hfree trivial)
      · have hlast := (hi.get hget).1
        refine hi.setRuntime ⟨rfl, Or.inl (mem_of_getLast? hlast), ?_, ?_, ?_⟩
        · show r.gate.Inv _ _ _ _
          rw [hgate]
          trivial
        · dsimp only
          split <;> trivial
        · show r.gate.isSupervised = true → _
          rw [hgate]
          nofun
    · cases h
      exact hi.setRuntime (hinv.setPhase hfree trivial)
  · cases h

/-- A request is justified when it leaves, and a start takes the only ticket. -/
theorem send_inv (hi : Inv w) (hr : w.runtimes i = some r) (h : w.send i r = some w') : Inv w' := by
  have hinv := hi.runtimes i r hr
  unfold send at h
  split at h <;> cases h
  rename_i request hph
  have hready := hinv.phase
  rw [hph] at hready
  have hlegal : Legal r.id (w.trace r.id) (.sent request) := by
    cases request with
    | start => exact ⟨hready.2, i, hready.1⟩
    | get => trivial
    | stop => exact hready.1
  have hlater : RuntimeInv r.id (w.trace r.id) (w.issued r.id) i
      { r with phase := .awaiting request } :=
    hinv.setPhase (by rw [hph]; nofun) trivial
  have huni : request = .start → ∀ j, Ticket (w.trace r.id) j → j = i := by
    rintro rfl j ⟨⟨now, job, hj⟩, -⟩
    obtain ⟨⟨now', job', hi'⟩, -⟩ := hready
    exact writer_unique (hi.legal r.id) hj hi'
  have hgate : r.gate.isSupervised = false := by
    rw [← Bool.not_eq_true]
    intro hs
    exact absurd (hinv.exclusive hs) (by rw [hph]; nofun)
  refine hi.record hlegal ?_ (fun _ h => by cases h) ?_ ?_ (fun _ _ => rfl) ?_
  · refine hlater.extend hlegal (fun _ h => by cases h) ?_
    intro _ _
    exact ⟨hgate, nofun⟩
  · intro hsent j hji htic
    cases hsent
    exact hji (huni rfl j htic)
  · intro row hrow
    rw [versions_concat]
    show ∃ v, (versions (w.trace r.id) ++ []).getLast? = some v ∧ _
    rw [append_nil]
    exact hi.table r.id row hrow
  · intro hnone
    exact absurd rfl hnone

variable {action : Action}

/-- **Every step keeps the invariant.** -/
theorem inv_step (hi : Inv w) (h : w.step action = some w') : Inv w' := by
  cases action with
  | create i request id now policy =>
    simp only [step] at h
    split at h <;> cases h
    rename_i hiss _
    exact create_inv hi hiss request now policy
  | recover i id policy =>
    simp only [step] at h
    split at h
    · rename_i stored _ hget
      split at h <;> cases h
      obtain ⟨hlast, rfl⟩ := hi.get hget
      exact hi.setRuntime ⟨rfl, Or.inl (mem_of_getLast? hlast), trivial, trivial, nofun⟩
    · cases h
  | crash i =>
    cases h
    refine ⟨hi.legal, hi.table, hi.issued, hi.unissued, ?_⟩
    intro j r hj
    by_cases hji : j = i
    · subst hji
      dsimp only at hj
      rw [update_self] at hj
      cases hj
    · exact hi.runtimes j r ((update_of_ne hji _ _).symm.trans hj)
  | cleanup id =>
    simp only [step] at h
    (repeat' split at h) <;> cases h
    refine ⟨hi.legal, ?_, hi.issued, hi.unissued, hi.runtimes⟩
    intro id' row hrow
    by_cases hid : id' = id
    · subst hid
      dsimp only at hrow
      rw [update_self] at hrow
      cases hrow
    · exact hi.table id' row ((update_of_ne hid _ _).symm.trans hrow)
  | createRuns i =>
    obtain ⟨r, hr, h⟩ := bind_eq_some_iff.1 h
    exact createRuns_inv hi hr h
  | saveRuns i =>
    obtain ⟨r, hr, h⟩ := bind_eq_some_iff.1 h
    exact saveRuns_inv hi hr h
  | reload i failed =>
    obtain ⟨r, hr, h⟩ := bind_eq_some_iff.1 h
    exact reload_inv hi hr h
  | send i =>
    obtain ⟨r, hr, h⟩ := bind_eq_some_iff.1 h
    exact send_inv hi hr h
  | move i move =>
    obtain ⟨r, hr, h⟩ := bind_eq_some_iff.1 h
    obtain ⟨r', hmove, rfl⟩ := map_eq_some_iff.1 h
    have hr' := move_inv (hi.legal r.id) (hi.issued r.id) (hi.runtimes i r hr) hmove
    refine hi.setRuntime ?_
    rw [hr'.id]
    exact hr'

theorem record_trace (w : World) (id : String) (e : Event) (id' : String) :
    w.trace id' <+: (w.record id e).trace id' := by
  by_cases hid : id' = id
  · subst hid
    rw [show (w.record id' e).trace id' = w.trace id' ++ [e] from update_self ..]
    exact prefix_append _ _
  · exact ⟨[], (append_nil _).trans (update_of_ne hid _ _).symm⟩

/-- Nothing that happened is undone. -/
theorem step_trace (h : w.step action = some w') (id : String) : w.trace id <+: w'.trace id := by
  cases action with
  | create i request id' now policy =>
    simp only [step] at h
    split at h <;> cases h
    exact prefix_refl _
  | recover i id' policy | cleanup id' =>
    simp only [step] at h
    (repeat' split at h) <;> cases h
    exact prefix_refl _
  | crash i =>
    cases h
    exact prefix_refl _
  | createRuns i =>
    obtain ⟨r, -, h⟩ := bind_eq_some_iff.1 h
    unfold createRuns at h
    split at h
    · split at h <;> cases h
      · exact prefix_refl _
      · exact record_trace _ _ _ id
    · cases h
  | saveRuns i =>
    obtain ⟨r, -, h⟩ := bind_eq_some_iff.1 h
    unfold saveRuns at h
    split at h
    · split at h <;> cases h
      · exact prefix_refl _
      · exact record_trace _ _ _ id
    · cases h
  | reload i failed =>
    obtain ⟨r, -, h⟩ := bind_eq_some_iff.1 h
    unfold reload at h
    (repeat' split at h) <;> cases h <;> exact prefix_refl _
  | send i =>
    obtain ⟨r, -, h⟩ := bind_eq_some_iff.1 h
    unfold send at h
    split at h <;> cases h
    exact record_trace _ _ _ id
  | move i move =>
    obtain ⟨r, -, h⟩ := bind_eq_some_iff.1 h
    obtain ⟨r', -, rfl⟩ := map_eq_some_iff.1 h
    exact prefix_refl _

theorem trace_prefix (h : Runs.Reachable step w w') (id : String) : w.trace id <+: w'.trace id := by
  refine Runs.run_rel (R := fun u u' : World => u.trace id <+: u'.trace id)
    (fun u => prefix_refl _) (fun _ _ _ h h' => h.trans h') ?_ (Runs.Reachable.refl w) h
  intro u action u' _ hstep
  exact step_trace hstep id

theorem inv_of_reachable (hw : Runs.Reachable step {} w) : Inv w :=
  hw.invariant inv_empty fun _ _ _ _ hi h => inv_step hi h

/-! ## Versions -/

/-- A prefix of a list with a last element that cannot be followed is the list. -/
theorem eq_of_terminal {t' : List Event} (ht : Justified (Legal id) t') (hpre : t <+: t')
    (hlast : (versions t).getLast? = some v) (hterm : v.status = .terminal) :
    versions t' = versions t := by
  obtain ⟨later, rfl⟩ := hpre
  have hpai := versions_pairwise ht
  rw [versions, filterMap_append] at hpai ⊢
  cases hlater : later.filterMap Event.version? with
  | nil => rw [append_nil]; rfl
  | cons v' _ =>
    have hbef := (pairwise_append.1 hpai).2.2 v (mem_of_getLast? hlast) v'
      (by rw [hlater]; exact mem_cons_self)
    exact absurd hterm hbef.live

/-- **The persisted versions of a Job form one chain.** Each version is one transition of the one
before it, with the next revision. What identifies the Job never changes and its status never moves
back; the store holds the last version until that is cleaned up; later versions only follow, and
none follows a terminal one. -/
theorem versions_chain {w : World} (hw : Runs.Reachable step {} w) (id : String) :
    (∀ (n : Nat) (v v' : Job), (versions (w.trace id))[n]? = some v →
      (versions (w.trace id))[n + 1]? = some v' →
      (∃ policy transition now updated, Transition.apply policy v now transition = some updated ∧
        v' = updated.nextRevision) ∧ v'.revision = v.revision + 1) ∧
    (versions (w.trace id)).Pairwise (fun v v' =>
      SameIdentity v v' ∧ v.status.rank ≤ v'.status.rank) ∧
    (w.table id = none ∨ ∃ v, (versions (w.trace id)).getLast? = some v ∧
      Job.get w.table id = .ok v) ∧
    ∀ w', Runs.Reachable step w w' → versions (w.trace id) <+: versions (w'.trace id) ∧
      ∀ v, (versions (w.trace id)).getLast? = some v → v.status = .terminal →
        versions (w'.trace id) = versions (w.trace id) := by
  have hi := inv_of_reachable hw
  have hlegal := hi.legal id
  refine ⟨?_, ?_, ?_, ?_⟩
  · intro n v v' hv hv'
    refine ⟨exists_transition hlegal hv hv', ?_⟩
    rw [revision_eq hlegal hv, revision_eq hlegal hv']
    push_cast
    rfl
  · exact (versions_pairwise hlegal).imp fun hbefore => ⟨hbefore.identity, hbefore.status⟩
  · cases htable : w.table id with
    | none => exact Or.inl rfl
    | some row =>
      obtain ⟨v, hlast, hrow⟩ := hi.table id row htable
      obtain rfl := (stored_of_mem hlegal (mem_of_getLast? hlast)).2
      exact Or.inr ⟨v, hlast, get_of_record hrow htable⟩
  · intro w' hw'
    have hpre := trace_prefix hw' id
    refine ⟨hpre.filterMap _, ?_⟩
    intro v hlast hterminal
    exact eq_of_terminal ((inv_of_reachable (hw.trans hw')).legal id) hpre hlast hterminal

def sampleRequest : CreateRequest where
  userID := "user"
  hostname := "node"
  duration := Duration.second
  scope := .host
  containerID := ""
  spec := { profiling := some { type := .cpu, language := .go, mode := .onCPU } }

/-- A Job is created and started; then its user stops it. -/
def sampleRun : List Action :=
  [.create 0 sampleRequest "job" 1 samplePolicy, .createRuns 0, .move 0 (.createReturns false),
    .move 0 .supervise, .move 0 (.startDeadline 2), .saveRuns 0, .move 0 (.saveReturns false),
    .send 0, .move 0 (.stop 3), .saveRuns 0, .move 0 (.saveReturns false)]

theorem versions_chain_stopped : ∃ w, Runs.run step {} sampleRun = some w ∧
    (versions (w.trace "job")).length = 3 ∧
    (versions (w.trace "job")).Pairwise (fun v v' =>
      SameIdentity v v' ∧ v.status.rank ≤ v'.status.rank) := by
  refine ⟨_, rfl, rfl, ?_⟩
  exact (versions_chain ⟨sampleRun, rfl⟩ "job").2.1

/-! ## Requests -/

/-- **Write-ahead intent.** At most one start is ever sent for a Job, after a version with a pending
deadline was persisted. A stop is sent only after a stopping version with a reason was persisted. A
Job that a user's stop made terminal at once is never started. -/
theorem write_ahead_intent {w : World} (hw : Runs.Reachable step {} w) (id : String) :
    (w.trace id).count (.sent .start) ≤ 1 ∧
    (∀ pre post, w.trace id = pre ++ .sent .start :: post →
      ∃ v ∈ versions pre, v.pendingDeadline ≠ Time.zero) ∧
    (∀ pre post, w.trace id = pre ++ .sent .stop :: post →
      ∃ v ∈ versions pre, v.status = .stopping ∧ v.stopReason ≠ .none) ∧
    ∀ i now v, .saved i .stop now v ∈ w.trace id → v.status = .terminal →
      .sent .start ∉ w.trace id := by
  have hlegal := (inv_of_reachable hw).legal id
  refine ⟨count_sent_start_le hlegal, ?_, ?_, ?_⟩
  · intro pre post ht
    obtain ⟨-, writer, now, v, hstart⟩ := hlegal pre _ post ht
    have hpre : Justified (Legal id) pre := justified_of_append (by rw [← ht]; exact hlegal)
    exact ⟨v, version_mem hstart rfl, pendingDeadline_of_start hpre hstart⟩
  · intro pre post ht
    exact hlegal pre _ post ht
  · intro i now v hstop hterminal
    exact not_sent_start_of_stopped hlegal hstop hterminal

theorem write_ahead_intent_started : ∃ w, Runs.run step {} sampleRun = some w ∧
    .sent .start ∈ w.trace "job" ∧ (w.trace "job").count (.sent .start) ≤ 1 := by
  refine ⟨_, rfl, by decide, ?_⟩
  exact (write_ahead_intent ⟨sampleRun, rfl⟩ "job").1

end World

end Huatuo.Job
