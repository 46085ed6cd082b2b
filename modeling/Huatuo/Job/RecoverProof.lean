import Huatuo.Job.ListPageProof
import Huatuo.Job.ManagerProof

/-!
# The Job manager: recovery

`recover_once` — `recover` registers one runtime for every Job that was pending, running or
stopping when it began, and it ends. It reads the store in batches of 1000 by ascending ID, and
the runtimes of earlier batches change the rows of their own Jobs meanwhile. Those rows are not
behind the last ID that was read, so the rows still to be read are what they were (`Recovery`).
A runtime that was registered is active and runs until its `run` returns (`Registered`).
-/

namespace Huatuo.Job

open List

/-! ## Recovery -/

/-- What a runtime is registered with. -/
structure Identity where
  id : String
  kind : Kind
  hostname : String
  deriving DecidableEq, Repr

def identity (job : Job) : Identity := ⟨job.id, job.kind, job.hostname⟩

def Supervised.identity (s : Supervised) : Identity := ⟨s.id, s.kind, s.hostname⟩

namespace Manager

/-- No runtime was made for the Job. -/
def isUnread (m : Manager) (job : Job) : Bool := m.made.all fun s => s.id ≠ job.id

/-- The store answers, and only the rows of Jobs that have a runtime change. -/
def ownRows (m : Manager) : Action → Bool
  | .store rows => decide ((rows.1.filter m.isUnread).Perm (m.rows.1.filter m.isUnread))
  | .list failed => !failed
  | _ => true

/-- A manager whose store is changed by its own runtimes only. -/
def ownStep : Manager → Action → Option Manager := Runs.restrict ownRows step

/-- The Jobs to be recovered. -/
def recoverable (rows : List Job) : List Job := rows.filter fun job => isRecoverable job.status

/-- How much of the store has been read: everything up to `lastReadID` is registered or in the
batch, and with the last batch that is all. -/
def Read (initial : List Job) (made : List Supervised) : Startup → Prop
  | .recovering lastReadID batch isLast =>
    (∀ s ∈ made, s.recovered = true) ∧
    (∀ job ∈ batch, job ∈ recoverable initial) ∧
    ∀ job ∈ recoverable initial,
      isLast = true ∨ (lastReadID ≠ "" ∧ job.id ≤ lastReadID) →
        job ∈ batch ∨ ∃ s ∈ made, s.identity = identity job
  | .serving =>
    ∀ job ∈ recoverable initial, ∃ s ∈ made, s.recovered = true ∧ s.identity = identity job
  | .failed => True

/-- The state of a recovery that began with the rows `initial`. -/
structure Recovery (initial : List Job) (m : Manager) : Prop where
  unread : ∀ job, m.isUnread job = true → (job ∈ m.rows.1 ↔ job ∈ initial)
  nodup : (m.made.map Supervised.id).Nodup
  origin : ∀ s ∈ m.made, s.recovered = true → ∃ job ∈ recoverable initial, identity job = s.identity
  read : Read initial m.made m.startup

variable {config : ManagerConfig} {initial : List Job} {job : Job} {lastReadID : String}
  {m m' : Manager} {isLast : Bool} {a : Action}

theorem mem_recoverable {rows : List Job} :
    job ∈ recoverable rows ↔ job ∈ rows ∧ isRecoverable job.status = true := mem_filter

theorem mem_listRecoverable {rows : List Job} :
    job ∈ (rows.filter fun job =>
      isRecoverable job.status ∧ (lastReadID = "" ∨ lastReadID < job.id)).mergeSort
        (fun a b => a.id ≤ b.id) ↔
      job ∈ recoverable rows ∧ (lastReadID = "" ∨ lastReadID < job.id) := by
  simp [mem_recoverable, and_assoc]

/-- A step that makes no runtime and does not touch the store. -/
theorem Recovery.frame (h : Recovery initial m)
    (hrows : ∀ job, m.isUnread job = true → (job ∈ m'.rows.1 ↔ job ∈ m.rows.1))
    (hmade : m'.made = m.made) (hread : Read initial m'.made m'.startup) : Recovery initial m' := by
  refine ⟨?_, by rw [hmade]; exact h.nodup, by rw [hmade]; exact h.origin, hread⟩
  intro job hjob
  rw [isUnread, hmade] at hjob
  exact (hrows job hjob).trans (h.unread job hjob)

/-- A row behind the last ID that was read has no runtime yet. -/
theorem isUnread_of_lt {batch : List Job} (hi : Inv config m)
    (hsup : m.startup = .recovering lastReadID batch isLast)
    (hlt : lastReadID = "" ∨ lastReadID < job.id) : m.isUnread job = true := by
  have hread := hi.startup
  rw [hsup] at hread
  obtain ⟨-, -, hmade, -, hemp⟩ := hread
  refine all_eq_true.2 fun s hs => ?_
  rw [decide_eq_true_eq]
  rcases hlt with hnone | hlt
  · rw [(hemp hnone).1] at hs
    exact absurd hs not_mem_nil
  · exact ne_of_lt (lt_of_le_of_lt (hmade s hs) hlt)

theorem listBatch_recovery (hi : Inv config m) (h : Recovery initial m)
    (hsup : m.startup = .recovering lastReadID [] isLast) :
    Recovery initial (m.listBatch lastReadID) := by
  have hread := h.read
  rw [hsup] at hread
  obtain ⟨hmade, -, hcovered⟩ := hread
  -- what is behind the last ID is what it was when recovery began
  have hfresh : ∀ job, (lastReadID = "" ∨ lastReadID < job.id) →
      (job ∈ recoverable m.rows.1 ↔ job ∈ recoverable initial) := by
    intro job hlt
    rw [mem_recoverable, mem_recoverable, h.unread job (isUnread_of_lt hi hsup hlt)]
  have hbef : ∀ job ∈ recoverable initial, ¬ (lastReadID = "" ∨ lastReadID < job.id) →
      ∃ s ∈ m.made, s.identity = identity job := by
    intro job hjob hnot
    rw [not_or, not_lt] at hnot
    exact (hcovered job hjob (.inr hnot)).resolve_left not_mem_nil
  have hbehind : ∀ job ∈ recoverable initial, (lastReadID = "" ∨ lastReadID < job.id) →
      job ∈ (m.rows.1.filter fun job =>
        isRecoverable job.status ∧ (lastReadID = "" ∨ lastReadID < job.id)).mergeSort
          (fun a b => a.id ≤ b.id) := fun job hjob hlt =>
    mem_listRecoverable.2 ⟨(hfresh job hlt).2 hjob, hlt⟩
  unfold listBatch
  dsimp only
  split
  · exact h.frame (fun _ _ => Iff.rfl) rfl trivial
  split
  · rename_i hnone
    refine h.frame (fun _ _ => Iff.rfl) rfl fun job hjob => ?_
    by_cases hlt : lastReadID = "" ∨ lastReadID < job.id
    · have hnil := List.getLast?_eq_none_iff.1 hnone
      rw [listRecoverable, take_eq_nil_iff] at hnil
      have hmem := hbehind job hjob hlt
      rw [hnil.resolve_left (by decide)] at hmem
      exact absurd hmem not_mem_nil
    · obtain ⟨s, hs, hiden⟩ := hbef job hjob hlt
      exact ⟨s, hs, hmade s hs, hiden⟩
  · rename_i last hlast
    refine h.frame (fun _ _ => Iff.rfl) rfl ⟨hmade, fun job hjob => ?_, fun job hjob hupTo => ?_⟩
    · obtain ⟨hrecover, hlt⟩ := mem_listRecoverable.1 (mem_of_mem_take hjob)
      exact (hfresh job hlt).1 hrecover
    · by_cases hlt : lastReadID = "" ∨ lastReadID < job.id
      · left
        have hmem := hbehind job hjob hlt
        rcases hupTo with hall | ⟨-, hle⟩
        · rw [listRecoverable, Pages.take_eq_self_of_length_lt (of_decide_eq_true hall)]
          exact hmem
        · refine Pages.mem_take_of_le (mergeSort_id_sorted ?_) hlast hmem hle
          exact m.rows.2.sublist (filter_sublist.map _)
      · exact .inr (hbef job hjob hlt)

variable {storedJob : Job} {rest : List Job} {s : Supervised}

/-- The runtimes so far are for Jobs with lower IDs than the next one. -/
theorem made_lt (hi : Inv config m)
    (hsup : m.startup = .recovering lastReadID (storedJob :: rest) isLast) (hs : s ∈ m.made) :
    s.id < storedJob.id := by
  have horder := hi.startup
  rw [hsup] at horder
  obtain ⟨-, hafter, -⟩ := horder
  exact hafter s hs storedJob mem_cons_self

/-- A step that makes a runtime. -/
theorem Recovery.make (h : Recovery initial m) (hrows : m'.rows = m.rows)
    (hmade : m'.made = m.made ++ [s]) (hid : ∀ s' ∈ m.made, s'.id ≠ s.id)
    (horigin : s.recovered = true → ∃ job ∈ recoverable initial, identity job = s.identity)
    (hread : Read initial (m.made ++ [s]) m'.startup) : Recovery initial m' := by
  refine ⟨fun job hjob => ?_, ?_, fun s' hs' hrec => ?_, by rw [hmade]; exact hread⟩
  · rw [isUnread, hmade, all_append, Bool.and_eq_true] at hjob
    rw [hrows]
    exact h.unread job hjob.1
  · rw [hmade, map_append, nodup_append]
    refine ⟨h.nodup, nodup_singleton _, ?_⟩
    rintro id hmem _ hs rfl
    obtain ⟨s', hs', rfl⟩ := mem_map.1 hmem
    exact hid s' hs' (mem_singleton.1 hs)
  · rw [hmade] at hs'
    rcases mem_append.1 hs' with hs' | hs'
    · exact h.origin s' hs' hrec
    · obtain rfl := mem_singleton.1 hs'
      exact horigin hrec

theorem recoverJob_recovery (hi : Inv config m) (h : Recovery initial m)
    (hsup : m.startup = .recovering lastReadID (storedJob :: rest) isLast) :
    Recovery initial (m.recoverJob lastReadID storedJob rest isLast) := by
  have hread := h.read
  rw [hsup] at hread
  obtain ⟨hmade, hbatch, hcovered⟩ := hread
  unfold recoverJob
  split
  · exact h.frame (fun _ _ => Iff.rfl) rfl trivial
  -- the runtime of the first Job of the batch
  have hcovered' : ∀ job ∈ recoverable initial,
      isLast = true ∨ (lastReadID ≠ "" ∧ job.id ≤ lastReadID) →
      job ∈ rest ∨ ∃ s ∈ m.made ++ [m.newRuntime storedJob true], s.identity = identity job := by
    intro job hjob hupTo
    rcases hcovered job hjob hupTo with hmem | ⟨s, hs, hiden⟩
    · rcases mem_cons.1 hmem with rfl | hmem
      · exact .inr ⟨_, mem_append_right _ (mem_singleton_self _), rfl⟩
      · exact .inl hmem
    · exact .inr ⟨s, mem_append_left _ hs, hiden⟩
  have hmade' : ∀ s ∈ m.made ++ [m.newRuntime storedJob true], s.recovered = true := by
    intro s hs
    rcases mem_append.1 hs with hs | hs
    · exact hmade s hs
    · rw [mem_singleton.1 hs]
      rfl
  refine h.make rfl rfl (fun s hs => ne_of_lt (made_lt hi hsup hs))
    (fun _ => ⟨storedJob, hbatch storedJob mem_cons_self, rfl⟩) ?_
  dsimp only
  split
  · rename_i hend
    intro job hjob
    obtain ⟨s, hs, hiden⟩ := (hcovered' job hjob (.inl hend.2)).resolve_left (hend.1 ▸ not_mem_nil)
    exact ⟨s, hs, hmade' s hs, hiden⟩
  · exact ⟨hmade', fun job hjob => hbatch job (mem_cons_of_mem _ hjob), hcovered'⟩

theorem unregister_frame (m : Manager) (s : Supervised) :
    (m.unregister s).rows = m.rows ∧ (m.unregister s).made = m.made ∧
      (m.unregister s).startup = m.startup ∧ (m.unregister s).running = m.running ∧
      (m.unregister s).creating = m.creating := by
  unfold unregister
  (repeat' split) <;> exact ⟨rfl, rfl, rfl, rfl, rfl⟩

theorem create_recovery (h : Recovery initial m) (hserving : m.startup = .serving)
    {request : CreateRequest} {id : String} {now : Time} (hid : ∀ s ∈ m.made, s.id ≠ id)
    (hcreate : m.create request id now = .ok m') : Recovery initial m' := by
  obtain ⟨s, rfl, hcreated, -, -, rfl⟩ := create_eq_ok hcreate
  refine h.make rfl rfl hid (fun hrec => absurd (hcreated.symm.trans hrec) Bool.false_ne_true) ?_
  have hread := h.read
  rw [hserving] at hread
  have hsup : (m.register s).startup = .serving := hserving
  dsimp only
  rw [hsup]
  intro job hjob
  obtain ⟨s', hs', hiden⟩ := hread job hjob
  exact ⟨s', mem_append_left _ hs', hiden⟩

/-- The steps of `recover`. -/
def isRecoverAction : Action → Bool
  | .list _ | .recoverJob => true
  | _ => false

/-- What a step can be here: `recover` lists a batch or takes up a Job, a Job is created, or
something happens that recovery does not see. -/
theorem ownStep_cases (hstep : ownStep m a = some m') :
    (∃ lastReadID isLast, a = .list false ∧ m.startup = .recovering lastReadID [] isLast ∧
      m' = m.listBatch lastReadID) ∨
    (∃ lastReadID storedJob rest isLast, a = .recoverJob ∧
      m.startup = .recovering lastReadID (storedJob :: rest) isLast ∧
      m' = m.recoverJob lastReadID storedJob rest isLast) ∨
    (∃ request id now, a = .create request id now ∧ m.startup = .serving ∧
      (∀ s ∈ m.made, s.id ≠ id) ∧ m.create request id now = .ok m') ∨
    (isRecoverAction a = false ∧ m'.made = m.made ∧ m'.startup = m.startup ∧
      ∀ job, m.isUnread job = true → (job ∈ m'.rows.1 ↔ job ∈ m.rows.1)) := by
  obtain ⟨hown, hstep⟩ := Runs.restrict_eq_some.1 hstep
  cases a with
  | store rows =>
    cases hstep
    refine .inr (.inr (.inr ⟨rfl, rfl, rfl, fun job hjob => ?_⟩))
    have hmem := (of_decide_eq_true hown : List.Perm _ _).mem_iff (a := job)
    simp only [mem_filter] at hmem
    exact ⟨fun hrow => (hmem.1 ⟨hrow, hjob⟩).1, fun hrow => (hmem.2 ⟨hrow, hjob⟩).1⟩
  | list failed =>
    obtain rfl : failed = false := by simpa [ownRows] using hown
    simp only [step] at hstep
    split at hstep <;> cases hstep
    rename_i lastReadID isLast hsup
    exact .inl ⟨lastReadID, isLast, rfl, hsup, rfl⟩
  | recoverJob =>
    simp only [step] at hstep
    split at hstep <;> cases hstep
    rename_i lastReadID storedJob rest isLast hsup
    exact .inr (.inl ⟨lastReadID, storedJob, rest, isLast, rfl, hsup, rfl⟩)
  | create request id now =>
    obtain ⟨hserving, rfl | ⟨hfresh, hcreate⟩⟩ := step_create hstep
    · exact .inr (.inr (.inr ⟨rfl, rfl, rfl, fun _ _ => Iff.rfl⟩))
    · exact .inr (.inr (.inl ⟨request, id, now, rfl, hserving, hfresh, hcreate⟩))
  | createReturns runtime failed =>
    simp only [step] at hstep
    split at hstep <;> cases hstep
    split
    · obtain ⟨hrows, hmade, hsup, -⟩ := unregister_frame
        { m with creating := m.creating.erase runtime } runtime
      exact .inr (.inr (.inr ⟨rfl, hmade, hsup, fun _ _ => by rw [hrows]⟩))
    · exact .inr (.inr (.inr ⟨rfl, rfl, rfl, fun _ _ => Iff.rfl⟩))
  | runReturns runtime =>
    simp only [step] at hstep
    split at hstep <;> cases hstep
    obtain ⟨hrows, hmade, hsup, -⟩ := unregister_frame
      { m with running := m.running.erase runtime } runtime
    exact .inr (.inr (.inr ⟨rfl, hmade, hsup, fun _ _ => by rw [hrows]⟩))
  | shutdown =>
    simp only [step] at hstep
    split at hstep <;> cases hstep
    exact .inr (.inr (.inr ⟨rfl, rfl, rfl, fun _ _ => Iff.rfl⟩))

theorem recovery_step (hi : Inv config m) (h : Recovery initial m) (hstep : ownStep m a = some m') :
    Recovery initial m' := by
  rcases ownStep_cases hstep with ⟨lastReadID, isLast, -, hsup, rfl⟩ |
    ⟨lastReadID, storedJob, rest, isLast, -, hsup, rfl⟩ |
    ⟨request, id, now, -, hserving, hfresh, hcreate⟩ | ⟨-, hmade, hsup, hrows⟩
  · exact listBatch_recovery hi h hsup
  · exact recoverJob_recovery hi h hsup
  · exact create_recovery h hserving hfresh hcreate
  · exact h.frame hrows hmade (by rw [hmade, hsup]; exact h.read)

/-! ## Registration -/

/-- The runtimes that have returned. -/
def returned (as : List Action) : List Supervised :=
  as.filterMap fun
    | .runReturns runtime => some runtime
    | _ => none

/-- A recovered runtime is active and its goroutine runs, or it has returned: of each there is one
fewer in `active` and in `running` for every time it returned. -/
structure Registered (as : List Action) (m : Manager) : Prop where
  creating : ∀ s ∈ m.creating, s.recovered = false
  made : ∀ s, s.recovered = true → m.made.count s = m.active.count s + (returned as).count s
  running : ∀ s, s.recovered = true → m.active.count s = m.running.count s

theorem returned_concat (as : List Action) (a : Action) :
    returned (as ++ [a]) = returned as ++ returned [a] := filterMap_append

/-- `unregisterLocked` removes the runtime itself, if it is active. -/
theorem active_unregister (hkeys : (m.active.map Supervised.id).Nodup) (s : Supervised) :
    (m.unregister s).active = m.active.erase s := by
  have hnodup : m.active.Nodup := hkeys.of_map
  have hsame : ∀ s' ∈ m.active, s ∈ m.active → s'.id = s.id → s' = s :=
    fun s' hs' hs => inj_on_of_nodup_map hkeys hs' hs
  unfold unregister
  split
  · rename_i hnone
    have hs : s ∉ m.active := fun hs => by simpa using find?_eq_none.1 hnone s hs
    rw [erase_of_not_mem hs]
  rename_i current hfind
  have hcurrent := mem_of_find?_eq_some hfind
  have hid : current.id = s.id := by simpa using find?_some hfind
  split
  · rename_i hne
    rw [erase_of_not_mem fun hs => hne (hsame current hcurrent hs hid)]
  · rename_i heq
    obtain rfl : current = s := Decidable.not_not.1 heq
    rw [hnodup.erase_eq_filter]
    refine filter_congr fun s' hs' => ?_
    have hiff : s'.id = current.id ↔ s' = current :=
      ⟨hsame s' hs' hcurrent, congrArg Supervised.id⟩
    rw [Bool.eq_iff_iff]
    simp [hiff]

variable {as : List Action}

theorem Registered.frame (h : Registered as m) (hactive : m'.active = m.active)
    (hmade : m'.made = m.made) (hrunning : m'.running = m.running)
    (hcreating : m'.creating = m.creating) (ha : returned [a] = []) :
    Registered (as ++ [a]) m' where
  creating := by rw [hcreating]; exact h.creating
  made := by rw [hmade, hactive, returned_concat, ha, append_nil]; exact h.made
  running := by rw [hactive, hrunning]; exact h.running

section

variable {runtime : Supervised} (hi : Inv config m) (h : Registered as m)
include hi h

theorem recoverJob_registered
    (hsup : m.startup = .recovering lastReadID (storedJob :: rest) isLast) :
    Registered (as ++ [.recoverJob]) (m.recoverJob lastReadID storedJob rest isLast) := by
  have hactive := active_register (s := m.newRuntime storedJob true) hi fun s' hs' =>
    ne_of_lt (made_lt hi hsup hs')
  unfold recoverJob
  split
  · exact h.frame rfl rfl rfl rfl rfl
  refine ⟨h.creating, fun s hs => ?_, fun s hs => ?_⟩
  · have hmade := h.made s hs
    simp only [hactive, returned_concat, count_append, hmade]
    simp [returned]
    omega
  · simp only [hactive, count_append, h.running s hs]

theorem create_registered {request : CreateRequest} {id : String} {now : Time}
    (hid : ∀ s ∈ m.made, s.id ≠ id) (hcreate : m.create request id now = .ok m') :
    Registered (as ++ [.create request id now]) m' := by
  obtain ⟨s, rfl, hcreated, -, -, rfl⟩ := create_eq_ok hcreate
  have hactive := active_register hi hid
  have hother : ∀ s', s'.recovered = true → count s' [s] = 0 := by
    intro s' hs'
    refine count_eq_zero_of_not_mem fun hmem => ?_
    rw [mem_singleton.1 hmem, hcreated] at hs'
    cases hs'
  refine ⟨?_, fun s' hs' => ?_, fun s' hs' => ?_⟩
  · intro s' hs'
    rcases mem_append.1 hs' with hs' | hs'
    · exact h.creating s' hs'
    · rw [mem_singleton.1 hs', hcreated]
  · have hmade := h.made s' hs'
    simp only [hactive, returned_concat, count_append, hmade, hother s' hs']
    simp [returned]
  · simp only [hactive, count_append, hother s' hs', Nat.add_zero]
    exact h.running s' hs'

theorem createReturns_registered {failed : Bool}
    (hstep : m.step (.createReturns runtime failed) = some m') :
    Registered (as ++ [.createReturns runtime failed]) m' := by
  simp only [step] at hstep
  split at hstep <;> cases hstep
  rename_i hmem
  have hcreated := h.creating runtime hmem
  -- it is not a recovered runtime that the counts are about
  have hne : ∀ s, s.recovered = true → runtime ≠ s := by
    rintro s hs rfl
    rw [hcreated] at hs
    cases hs
  split
  · obtain ⟨-, hmade, -, hrunning, hcreating⟩ := unregister_frame
      { m with creating := m.creating.erase runtime } runtime
    have hactive := active_unregister
      (m := { m with creating := m.creating.erase runtime }) hi.keys runtime
    refine ⟨?_, fun s hs => ?_, fun s hs => ?_⟩
    · rw [hcreating]
      exact fun s hs => h.creating s (mem_of_mem_erase hs)
    · rw [hactive, hmade, count_erase_of_ne (hne s hs).symm, returned_concat, count_append]
      exact h.made s hs
    · rw [hactive, hrunning, count_erase_of_ne (hne s hs).symm]
      exact h.running s hs
  · refine ⟨fun s hs => h.creating s (mem_of_mem_erase hs), fun s hs => ?_, fun s hs => ?_⟩
    · rw [returned_concat, count_append]
      exact h.made s hs
    · rw [count_append, count_singleton, if_neg (by simpa using hne s hs)]
      exact h.running s hs

theorem runReturns_registered (hstep : m.step (.runReturns runtime) = some m') :
    Registered (as ++ [.runReturns runtime]) m' := by
  simp only [step] at hstep
  split at hstep <;> cases hstep
  rename_i hmem
  obtain ⟨-, hmade, -, hrunning, hcreating⟩ := unregister_frame
    { m with running := m.running.erase runtime } runtime
  have hactive := active_unregister
    (m := { m with running := m.running.erase runtime }) hi.keys runtime
  refine ⟨by rw [hcreating]; exact h.creating, fun s hs => ?_, fun s hs => ?_⟩
  · have hreturned : returned [.runReturns runtime] = [runtime] := rfl
    rw [hactive, hmade, returned_concat, hreturned, count_append, count_singleton, count_erase]
    have hmade := h.made s hs
    have hrunning := h.running s hs
    by_cases heq : runtime = s
    · subst heq
      have hpos := count_pos_iff.2 hmem
      simp only [beq_self_eq_true, if_true]
      omega
    · simpa [heq] using hmade
  · rw [hactive, hrunning, count_erase, count_erase]
    exact congrArg (· - _) (h.running s hs)

theorem registered_step (hstep : m.step a = some m') : Registered (as ++ [a]) m' := by
  cases a with simp only [step] at hstep
  | store rows =>
    cases hstep
    exact h.frame rfl rfl rfl rfl rfl
  | list failed =>
    split at hstep <;> cases hstep
    split
    · exact h.frame rfl rfl rfl rfl rfl
    · unfold listBatch
      dsimp only
      (repeat' split) <;> exact h.frame rfl rfl rfl rfl rfl
  | recoverJob =>
    split at hstep <;> cases hstep
    rename_i hsup
    exact recoverJob_registered hi h hsup
  | create request id now =>
    obtain ⟨-, rfl | ⟨hfresh, hcreate⟩⟩ := step_create hstep
    · exact h.frame rfl rfl rfl rfl rfl
    · exact create_registered hi h hfresh hcreate
  | createReturns => exact createReturns_registered hi h hstep
  | runReturns => exact runReturns_registered hi h hstep
  | shutdown =>
    split at hstep <;> cases hstep
    exact h.frame rfl rfl rfl rfl rfl

end

theorem registered_run {prior : List Action} (hi : Inv config m) (h : Registered prior m)
    (hrun : Runs.run ownStep m as = some m') : Registered (prior ++ as) m' := by
  induction as generalizing m prior with
  | nil =>
    cases hrun
    rwa [append_nil]
  | cons a as ih =>
    obtain ⟨m₁, hstep, hrest⟩ := Runs.run_cons_eq_some.1 hrun
    have hstep := (Runs.restrict_eq_some.1 hstep).2
    have hlater := ih (inv_step hi hstep) (registered_step hi h hstep) hrest
    rwa [append_assoc] at hlater

/-- Lists that hold every recovered runtime equally often. -/
theorem perm_recovered {l l' : List Supervised}
    (h : ∀ s, s.recovered = true → l.count s = l'.count s) :
    (l.filter Supervised.recovered).Perm (l'.filter Supervised.recovered) := by
  refine perm_iff_count.2 fun s => ?_
  by_cases hs : s.recovered = true
  · rw [count_filter hs, count_filter hs, h s hs]
  · rw [count_eq_zero_of_not_mem fun hmem => hs (mem_filter.1 hmem).2,
      count_eq_zero_of_not_mem fun hmem => hs (mem_filter.1 hmem).2]

/-! ## The end of recovery -/

/-- How many more steps `recover` can take: one for each Job, and one for each batch. -/
def stepsLeft (initial : List Job) (m : Manager) : Nat :=
  match m.startup with
  | .recovering _ batch _ =>
    2 * ((recoverable initial).length - m.made.length) + if batch = [] then 1 else 0
  | _ => 0

/-- While a batch is taken up, there are Jobs without a runtime. -/
theorem made_length_lt (hi : Inv config m) (h : Recovery initial m)
    (hsup : m.startup = .recovering lastReadID (storedJob :: rest) isLast) :
    m.made.length < (recoverable initial).length := by
  have hread := h.read
  rw [hsup] at hread
  obtain ⟨hmade, hbatch, -⟩ := hread
  have hnd : (storedJob.id :: m.made.map Supervised.id).Nodup := by
    refine nodup_cons.2 ⟨fun hmem => ?_, h.nodup⟩
    obtain ⟨s, hs, hid⟩ := mem_map.1 hmem
    exact ne_of_lt (made_lt hi hsup hs) hid
  have hsub : storedJob.id :: m.made.map Supervised.id ⊆ (recoverable initial).map Job.id := by
    intro id hid
    rcases mem_cons.1 hid with rfl | hid
    · exact mem_map_of_mem (hbatch storedJob mem_cons_self)
    · obtain ⟨s, hs, rfl⟩ := mem_map.1 hid
      obtain ⟨job, hjob, hiden⟩ := h.origin s hs (hmade s hs)
      exact mem_map.2 ⟨job, hjob, congrArg Identity.id hiden⟩
  have hlen := (subperm_of_subset hnd hsub).length_le
  simpa [Nat.succ_le_iff] using hlen

theorem stepsLeft_step (hi : Inv config m) (h : Recovery initial m)
    (hstep : ownStep m a = some m') :
    m'.stepsLeft initial + (if isRecoverAction a then 1 else 0) ≤ m.stepsLeft initial := by
  rcases ownStep_cases hstep with ⟨lastReadID, isLast, rfl, hsup, rfl⟩ |
    ⟨lastReadID, storedJob, rest, isLast, rfl, hsup, rfl⟩ |
    ⟨request, id, now, rfl, hserving, -, hcreate⟩ | ⟨hother, hmade, hsup, -⟩
  · have hbef : m.stepsLeft initial =
        2 * ((recoverable initial).length - m.made.length) + 1 := by
      rw [stepsLeft, hsup]
      rfl
    rw [hbef]
    unfold listBatch
    dsimp only
    split
    · exact Nat.le_add_left _ _
    split
    · exact Nat.le_add_left _ _
    rename_i last hlast
    have hne : listRecoverable m.rows.1 lastReadID ≠ [] := by
      intro hnil
      simp [hnil] at hlast
    simp [stepsLeft, hne, isRecoverAction]
  · have hlt := made_length_lt hi h hsup
    have hbef : m.stepsLeft initial = 2 * ((recoverable initial).length - m.made.length) := by
      rw [stepsLeft, hsup]
      rfl
    rw [hbef]
    unfold recoverJob
    split
    · simp only [stepsLeft, isRecoverAction, if_true]
      omega
    · simp only [stepsLeft, isRecoverAction, if_true, length_append, length_singleton]
      split
      · rename_i hcase
        split at hcase <;> cases hcase
        split <;> omega
      · omega
  · obtain ⟨s, -, -, -, -, rfl⟩ := create_eq_ok hcreate
    have hsup : (m.register s).startup = .serving := hserving
    simp only [stepsLeft, hsup, isRecoverAction, Bool.false_eq_true, if_false]
    exact Nat.zero_le _
  · rw [stepsLeft, stepsLeft, hmade, hsup, hother]
    exact Nat.le_refl _

/-! ## Recovery does not fail -/

/-- There is a policy for the kind of every stored Job. -/
theorem policy_of_stored (config : ManagerConfig) (h : Stored job) :
    ∃ policy, config.policy job.kind = some policy := by
  have hreq := h.request
  cases hkind : job.kind with
  | profiling | tracing => exact ⟨_, rfl⟩
  | unsupported raw =>
    rw [hkind] at hreq
    unfold validateRequest at hreq
    simp only [Spec.validate] at hreq
    repeat' split at hreq
    all_goals cases hreq

theorem not_failed_step (hi : Inv config m) (h : Recovery initial m)
    (hstored : ∀ job ∈ recoverable initial, job.validateStored = .ok ()) (hok : m.startup ≠ .failed)
    (hstep : ownStep m a = some m') : m'.startup ≠ .failed := by
  rcases ownStep_cases hstep with ⟨lastReadID, isLast, -, hsup, rfl⟩ |
    ⟨lastReadID, storedJob, rest, isLast, -, hsup, rfl⟩ |
    ⟨request, id, now, -, hserving, -, hcreate⟩ | ⟨-, -, hsup, -⟩
  · have hvalid : (listRecoverable m.rows.1 lastReadID).any
        (fun job => job.validateStored ≠ .ok ()) = false := by
      refine any_eq_false.2 fun job hjob => ?_
      obtain ⟨hrecover, hlt⟩ := mem_listRecoverable.1 (mem_of_mem_take hjob)
      have hinitial := (h.unread job (isUnread_of_lt hi hsup hlt)).1 (mem_recoverable.1 hrecover).1
      simp [hstored job (mem_recoverable.2 ⟨hinitial, (mem_recoverable.1 hrecover).2⟩)]
    unfold listBatch
    simp only [hvalid, Bool.false_eq_true, if_false]
    split <;> exact nofun
  · have hread := h.read
    rw [hsup] at hread
    have hjob := hread.2.1 storedJob mem_cons_self
    obtain ⟨policy, hpolicy⟩ := policy_of_stored config
      (validateStored_eq_ok.1 (hstored storedJob hjob))
    rw [recoverJob, hi.config_eq, hpolicy]
    dsimp only
    split <;> exact nofun
  · obtain ⟨s, -, -, -, -, rfl⟩ := create_eq_ok hcreate
    exact hok
  · rw [hsup]
    exact hok

/-! ## Runs -/

theorem recovery_new {rows : { rows : List Job // (rows.map Job.id).Nodup }}
    (hnew : new config rows = .ok m) :
    Recovery rows.1 m ∧ m.startup = .recovering "" [] false ∧ m.made = [] ∧ Registered [] m := by
  unfold new at hnew
  split at hnew <;> cases hnew
  refine ⟨⟨fun _ _ => Iff.rfl, nodup_nil, fun s hs => absurd hs not_mem_nil, ?_⟩, rfl, rfl,
    ⟨fun s hs => absurd hs not_mem_nil, fun _ _ => rfl, fun _ _ => rfl⟩⟩
  refine ⟨fun s hs => absurd hs not_mem_nil, fun job hjob => absurd hjob not_mem_nil, ?_⟩
  rintro job - (hlast | ⟨hne, -⟩)
  · cases hlast
  · exact absurd rfl hne

/-- The invariants of a run in which only own rows change. -/
structure Recovering (config : ManagerConfig) (initial : List Job) (m : Manager) : Prop where
  inv : Inv config m
  recovery : Recovery initial m
  ok : m.startup ≠ .failed

theorem Recovering.step (h : Recovering config initial m)
    (hstored : ∀ job ∈ recoverable initial, job.validateStored = .ok ())
    (hstep : ownStep m a = some m') :
    Recovering config initial m' where
  inv := inv_step h.inv (Runs.restrict_eq_some.1 hstep).2
  recovery := recovery_step h.inv h.recovery hstep
  ok := not_failed_step h.inv h.recovery hstored h.ok hstep

/-- By induction on the run: every step of `recover` uses up one of those that are left. -/
theorem Recovering.run (h : Recovering config initial m)
    (hstored : ∀ job ∈ recoverable initial, job.validateStored = .ok ())
    (hrun : Runs.run ownStep m as = some m') :
    Recovering config initial m' ∧
      m'.stepsLeft initial + as.countP isRecoverAction ≤ m.stepsLeft initial := by
  induction as generalizing m with
  | nil =>
    cases hrun
    exact ⟨h, Nat.le_refl _⟩
  | cons a as ih =>
    obtain ⟨m₁, hstep, hrest⟩ := Runs.run_cons_eq_some.1 hrun
    obtain ⟨h', hle⟩ := ih (h.step hstored hstep) hrest
    have hle' := stepsLeft_step h.inv h.recovery hstep
    refine ⟨h', ?_⟩
    rw [countP_cons]
    omega

/-- `recover` goes on until it is done. -/
theorem Recovering.enabled (h : Recovering config initial m) :
    m.startup = .serving ∨ ∃ a, isRecoverAction a = true ∧ (ownStep m a).isSome = true := by
  cases hsup : m.startup with
  | serving => exact .inl rfl
  | failed => exact absurd hsup h.ok
  | recovering lastReadID batch isLast =>
    cases batch with
    | nil =>
      refine .inr ⟨.list false, rfl, ?_⟩
      simp [ownStep, Runs.restrict, ownRows, Manager.step, hsup]
    | cons storedJob rest =>
      refine .inr ⟨.recoverJob, rfl, ?_⟩
      simp [ownStep, Runs.restrict, ownRows, Manager.step, hsup]

theorem recovered_perm (h : Recovery initial m) (hinitial : (initial.map Job.id).Nodup)
    (hserving : m.startup = .serving) :
    ((m.made.filter Supervised.recovered).map Supervised.identity).Perm
      ((recoverable initial).map identity) := by
  have hread := h.read
  rw [hserving] at hread
  have hnd : ((m.made.filter Supervised.recovered).map Supervised.identity).Nodup := by
    refine List.Nodup.of_map Identity.id ?_
    rw [map_map]
    exact h.nodup.sublist (filter_sublist.map _)
  have hnd' : ((recoverable initial).map identity).Nodup := by
    refine List.Nodup.of_map Identity.id ?_
    rw [map_map]
    exact hinitial.sublist (filter_sublist.map _)
  refine (perm_ext_iff_of_nodup hnd hnd').2 fun x => ?_
  simp only [mem_map, mem_filter]
  constructor
  · rintro ⟨s, ⟨hs, hrec⟩, rfl⟩
    exact h.origin s hs hrec
  · rintro ⟨job, hjob, rfl⟩
    obtain ⟨s, hs, hrec, hiden⟩ := hread job hjob
    exact ⟨s, ⟨hs, hrec⟩, hiden⟩

/-- **Recovery.** Whatever the runtimes do to the rows of their own Jobs meanwhile, `recover` ends
after at most two steps for each Job and one, and it has then registered one runtime for each Job
that was pending, running or stopping when it began. Each of these is active, counted for its kind
and host, and has its goroutine, until that returns. -/
theorem recover_once {rows : { rows : List Job // (rows.map Job.id).Nodup }} {m₀ m : Manager}
    {as : List Action} (hnew : new config rows = .ok m₀)
    (hstored : ∀ job ∈ recoverable rows.1, job.validateStored = .ok ())
    (hrun : Runs.run ownStep m₀ as = some m) :
    as.countP isRecoverAction ≤ 2 * (recoverable rows.1).length + 1 ∧
    (m.startup = .serving ∨ ∃ a, isRecoverAction a = true ∧ (ownStep m a).isSome = true) ∧
    (m.made.map Supervised.id).Nodup ∧
    (m.startup = .serving →
      ((m.made.filter Supervised.recovered).map Supervised.identity).Perm
        ((recoverable rows.1).map identity) ∧
      (((m.active ++ returned as).filter Supervised.recovered).map Supervised.identity).Perm
        ((recoverable rows.1).map identity)) ∧
    (m.active.filter Supervised.recovered).Perm (m.running.filter Supervised.recovered) ∧
    (∀ kind, m.activeTotal kind = m.active.countP fun s => s.kind = kind) ∧
    ∀ host kind, m.activeHosts (host, kind) =
      m.active.countP fun s => s.hostname = host ∧ s.kind = kind := by
  obtain ⟨hrecovery, hstartup, hmade, hregistered⟩ := recovery_new hnew
  have hstart : Recovering config rows.1 m₀ :=
    ⟨inv_new hnew, hrecovery, by rw [hstartup]; exact nofun⟩
  obtain ⟨hend, hsteps⟩ := hstart.run hstored hrun
  have hregistered := registered_run hstart.inv hregistered hrun
  have hbound : m₀.stepsLeft rows.1 = 2 * (recoverable rows.1).length + 1 := by
    rw [stepsLeft, hstartup, hmade]
    rfl
  refine ⟨by omega, hend.enabled, hend.recovery.nodup, fun hserving => ?_,
    perm_recovered hregistered.running, hend.inv.total.counts, fun host kind => ?_⟩
  · have hperm := recovered_perm hend.recovery rows.2 hserving
    have hmade : (m.made.filter Supervised.recovered).Perm
        ((m.active ++ returned as).filter Supervised.recovered) :=
      perm_recovered fun s hs => by rw [count_append]; exact hregistered.made s hs
    exact ⟨hperm, (hmade.map _).symm.trans hperm⟩
  · simp [hend.inv.hosts.counts (host, kind), Supervised.hostKey]

/-- The rows when the first of the two Jobs has ended. -/
def endedRows : { rows : List Job // (rows.map Job.id).Nodup } :=
  ⟨[{ sampleJob with status := .terminal }, { sampleJob with id := "job2", hostname := "node2" }],
    by decide⟩

/-- The first Job ends and its runtime returns before the second one is taken up. -/
def endedRun : List Action :=
  [.list false, .recoverJob, .store endedRows,
    .runReturns
      { address := 0, id := "job", kind := .profiling, hostname := "node", recovered := true },
    .recoverJob]

theorem recover_once_ended : ∃ m₀ m, new sampleConfig sampleRows = .ok m₀ ∧
    Runs.run ownStep m₀ endedRun = some m ∧ m.startup = .serving ∧
    m.active.map Supervised.identity = [⟨"job2", .profiling, "node2"⟩] ∧ m.running = m.active ∧
    m.activeTotal .profiling = 1 ∧ m.activeHosts ("node2", .profiling) = 1 ∧
    m.activeHosts ("node", .profiling) = 0 ∧
    (((m.active ++ returned endedRun).filter Supervised.recovered).map Supervised.identity).Perm
      ((recoverable sampleRows.1).map identity) := by
  have hnew : new sampleConfig sampleRows = .ok _ := rfl
  have hrun : ∃ m,
      Runs.run ownStep { config := sampleConfig, rows := sampleRows } endedRun = some m ∧
      m.startup = .serving ∧
      m.active.map Supervised.identity = [⟨"job2", .profiling, "node2"⟩] ∧ m.running = m.active ∧
      m.activeTotal .profiling = 1 ∧ m.activeHosts ("node2", .profiling) = 1 ∧
      m.activeHosts ("node", .profiling) = 0 := by
    unfold endedRun Runs.run ownStep Runs.restrict ownRows step
    dsimp only
    rw [if_neg Bool.false_ne_true, listBatch_sampleRows rfl]
    exact ⟨_, rfl, rfl, rfl, rfl, rfl, rfl, rfl⟩
  obtain ⟨m, hrun, hserving, hactive, hrunning, htotal, hhost, hended⟩ := hrun
  exact ⟨_, m, hnew, hrun, hserving, hactive, hrunning, htotal, hhost, hended,
    ((recover_once hnew (by decide) hrun).2.2.2.1 hserving).2⟩

end Manager

end Huatuo.Job
