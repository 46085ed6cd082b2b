import Huatuo.Native.OffCpu
import Mathlib.Data.UInt

/-!
# Every part is emitted once

A program changes the state of one task, so that what happens to a task is a machine of its own
(`view_handle`). A state stands for the parts of its period that are still to be emitted
(`emitted_foldl`).
-/

namespace Huatuo.OffCpu

open List

/-- The state of a task, and its events so far. -/
abbrev View := Option OffcpuState × List OffcpuEvent

def State.view (s : State) (task : UInt64) : View :=
  (s.offcpuStates task, (s.emitted.filter fun entry => entry.1 = task).map Prod.snd)

def taskStep (config : Config) (view : View) : TaskEvent → View
  | .wakeup now =>
    match view.1 with
    | none => view
    | some state =>
      if state.kind ≠ .blocked then view
      else
        (some { state with kind := .runqueue, phaseStartNs := now },
          view.2 ++ (config.event state now .blocked).toList)
  | .switchIn now =>
    match view.1 with
    | none => view
    | some state =>
      (none, view.2 ++
        (config.event state now
          (if state.kind = .blocked then .runqueueMissedWakeup else state.kind)).toList)
  | .switchOut now departure =>
    (some { base := departure.base, phaseStartNs := now, kind := departure.kind }, view.2)
  | .exit now =>
    match view.1 with
    | none => view
    | some state => (none, view.2 ++ (config.event state now state.kind).toList)
  | .free => (none, view.2)

section

variable {config : Config} {s : State} {task : UInt64}

/-! ## One task -/

theorem view_emitEvent (s : State) (task' : UInt64) (state : OffcpuState) (endNs : UInt64)
    (kind : Kind) :
    (emitEvent config s task' state endNs kind).view task =
      (s.offcpuStates task, (s.view task).2 ++
        if task' = task then (config.event state endNs kind).toList else []) := by
  unfold emitEvent State.view
  cases config.event state endNs kind with
  | none => simp
  | some event => by_cases htask : task' = task <;> simp [htask]

theorem view_update (s : State) (task' : UInt64) (state : Option OffcpuState) :
    ({ s with offcpuStates := Function.update s.offcpuStates task' state }).view task =
      (if task' = task then state else s.offcpuStates task, (s.view task).2) := by
  by_cases htask : task' = task
  · simp [State.view, htask]
  · simp [State.view, htask, Function.update_of_ne (Ne.symm htask)]

theorem view_handleWakeup (hph : config.phase = .all) (htask : task ≠ 0) (task' now : UInt64) :
    (handleWakeup config s task' now).view task =
      if task' = task then taskStep config (s.view task) (.wakeup now) else s.view task := by
  unfold handleWakeup
  split
  · next hnull => rw [hnull, if_neg (Ne.symm htask)]
  cases hstt : s.offcpuStates task' with dsimp only
  | none =>
    split
    · next heq =>
      subst heq
      simp [taskStep, State.view, hstt]
    · rfl
  | some state =>
    split
    · next hkind =>
      split
      · next heq =>
        subst heq
        simp [taskStep, State.view, hstt, hkind]
      · rfl
    · next hkind =>
      rw [if_neg (by rw [hph]; exact nofun), view_update, view_emitEvent]
      split
      · next heq =>
        subst heq
        simp only [taskStep, State.view, hstt, if_neg hkind]
      · rw [append_nil]
        rfl

theorem view_finishSchedIn (htask : task ≠ 0) (next now : UInt64) :
    (finishSchedIn config s next now).view task =
      if next = task then taskStep config (s.view task) (.switchIn now) else s.view task := by
  unfold finishSchedIn
  split
  · next hnull => rw [hnull, if_neg (Ne.symm htask)]
  cases hstt : s.offcpuStates next with dsimp only
  | none =>
    split
    · next heq =>
      subst heq
      simp [taskStep, State.view, hstt]
    · rfl
  | some state =>
    rw [State.delete, view_update, view_emitEvent]
    split
    · next heq =>
      subst heq
      simp only [taskStep, State.view, hstt]
    · rw [append_nil]
      rfl

theorem view_recordSchedOut (hph : config.phase = .all) (htask : task ≠ 0) {prev now : UInt64}
    {departure : Departure} (hrec : prev = task → departure.Recorded config) :
    (recordSchedOut config s prev now departure).view task =
      if prev = task then taskStep config (s.view task) (.switchOut now departure)
      else s.view task := by
  by_cases heq : prev = task
  · obtain ⟨hpid, htrace, hcpu, hstack, hsto⟩ := hrec heq
    have hph' : ¬ (departure.isRunnable ∧ config.phase = .blocked) := by
      rw [hph]
      exact fun h => nomatch h.2
    have hfil : ¬ (prev = 0 ∨ departure.pidTgid = 0 ∨
        !config.shouldTrace departure.pidTgid departure.css) := by
      simp [heq, htask, hpid, htrace]
    unfold recordSchedOut
    rw [if_neg hfil, if_neg (by simp [hcpu]), if_neg hph', if_neg hstack, if_neg (by simp [hsto]),
      view_update, if_pos heq, if_pos heq]
    rfl
  · rw [if_neg heq]
    unfold recordSchedOut
    split_ifs
    · rfl
    · rfl
    · rfl
    · rfl
    · rfl
    · rw [view_update, if_neg heq]
      rfl

theorem view_cleanupTaskState (htask : task ≠ 0) (task' : UInt64) (emitPending : Option UInt64) :
    (cleanupTaskState config s task' emitPending).view task =
      if task' = task then
        taskStep config (s.view task) (emitPending.elim .free .exit)
      else s.view task := by
  unfold cleanupTaskState
  split
  · next hnull => rw [hnull, if_neg (Ne.symm htask)]
  cases hstt : s.offcpuStates task' with dsimp only
  | none =>
    split
    · next heq =>
      subst heq
      cases emitPending <;> simp [taskStep, State.view, hstt]
    · rfl
  | some state =>
    rw [State.delete, view_update]
    cases emitPending with
    | none =>
      split <;> rfl
    | some now =>
      dsimp only
      rw [view_emitEvent]
      split
      · next heq =>
        subst heq
        simp only [Option.elim_some, taskStep, State.view, hstt]
      · rw [append_nil]
        rfl

/-- **One task.** An event of the kernel does to a task what its own events do. -/
theorem view_handle (hph : config.phase = .all) (htask : task ≠ 0) {event : Event}
    (hrec : ∀ now departure, .switchOut now departure ∈ event.of task → departure.Recorded config) :
    (handle config s event).view task = (event.of task).foldl (taskStep config) (s.view task) := by
  cases event with
  | wakeup task' now =>
    rw [handle, view_handleWakeup hph htask, Event.of]
    split <;> rfl
  | switch prev next now departure =>
    have hout : prev = task → departure.Recorded config := by
      intro heq
      refine hrec now departure ?_
      simp [Event.of, heq]
    rw [handle, view_recordSchedOut hph htask hout, view_finishSchedIn htask, Event.of,
      foldl_append]
    by_cases hnext : next = task <;> by_cases hprev : prev = task <;> simp [hnext, hprev]
  | exit task' now | free task' =>
    rw [handle, view_cleanupTaskState htask, Event.of]
    split <;> rfl

theorem view_run (hph : config.phase = .all) (htask : task ≠ 0) {events : List Event}
    (hrec : ∀ now departure, .switchOut now departure ∈ events.flatMap (Event.of task) →
      departure.Recorded config) (s : State) :
    (events.foldl (handle config) s).view task =
      (events.flatMap (Event.of task)).foldl (taskStep config) (s.view task) := by
  induction events generalizing s with
  | nil => rfl
  | cons event events ih =>
    rw [flatMap_cons] at hrec
    rw [foldl_cons, flatMap_cons, foldl_append,
      ← view_handle hph htask fun now departure hmem =>
        hrec now departure (mem_append_left _ hmem)]
    exact ih (fun now departure hmem => hrec now departure (mem_append_right _ hmem)) _

/-! ## Parts -/

theorem report_eq (hph : config.phase = .all) (state : OffcpuState) (endNs : UInt64) (kind : Kind) :
    config.event state endNs kind =
      Part.report config.minDurationNs ⟨kind, state.phaseStartNs, endNs, state.base⟩ := by
  have hena : config.kindEnabled kind = true := by rw [Config.kindEnabled, hph]
  unfold Config.event Part.report
  rw [hena]
  dsimp only
  by_cases hle : endNs ≤ state.phaseStartNs
  · have hzero : endNs.toNat - state.phaseStartNs.toNat = 0 :=
      Nat.sub_eq_zero_of_le (UInt64.le_iff_toNat_le.1 hle)
    rw [if_pos (by simp [hle]), if_pos (.inl hzero)]
  · have hsta : state.phaseStartNs ≤ endNs := UInt64.le_of_lt (UInt64.not_le.1 hle)
    have hdur : (endNs - state.phaseStartNs).toNat = endNs.toNat - state.phaseStartNs.toNat :=
      UInt64.toNat_sub_of_le _ _ hsta
    have hpos : endNs.toNat - state.phaseStartNs.toNat ≠ 0 := by
      have := mt UInt64.le_iff_toNat_le.2 hle
      omega
    have hv : (endNs - state.phaseStartNs).toInt64 =
        Int64.ofNat (endNs.toNat - state.phaseStartNs.toNat) :=
      hdur ▸ congrArg UInt64.toInt64 UInt64.ofNat_toNat.symm
    rw [if_neg (by simp [hle]), hv]
    by_cases hshort : endNs - state.phaseStartNs < config.minDurationNs
    · rw [if_pos hshort, if_pos (.inr (hdur ▸ UInt64.lt_iff_toNat_lt.1 hshort))]
    rw [if_neg hshort, if_neg]
    rw [UInt64.lt_iff_toNat_lt, hdur] at hshort
    exact not_or.2 ⟨hpos, hshort⟩

theorem parts_switchOut (now : UInt64) (departure : Departure) (later : List TaskEvent) :
    parts (.switchOut now departure :: later) =
      periodParts departure.kind now departure.base later ++ parts later := by
  have hkind : leavesAs departure.preempted departure.running = departure.kind := by
    unfold leavesAs Departure.kind Departure.isRunnable
    cases departure.preempted <;> cases departure.running <;> rfl
  rw [parts, hkind]
  rfl

/-- The parts that are still to be emitted. -/
def remaining (state : Option OffcpuState) (later : List TaskEvent) : List Part :=
  match state with
  | none => parts later
  | some state => periodParts state.kind state.phaseStartNs state.base later ++ parts later

theorem periodParts_wakeup {kind : Kind} (hkind : kind ≠ .blocked) (startNs : UInt64)
    (base : EventBase) (now : UInt64) (later : List TaskEvent) :
    periodParts kind startNs base (.wakeup now :: later) = periodParts kind startNs base later := by
  cases kind with
  | blocked => exact absurd rfl hkind
  | _ => rfl

/-- The first wakeup ends the blocked part. -/
theorem periodParts_blocked_wakeup (startNs : UInt64) (base : EventBase) (now : UInt64)
    (later : List TaskEvent) :
    periodParts .blocked startNs base (.wakeup now :: later) =
      ⟨.blocked, startNs, now, base⟩ :: periodParts .runqueue now base later := rfl

/-- The first event after the switch-out is not a wakeup. -/
theorem periodParts_cons (event : TaskEvent) (hev : event.isWakeup = false) (kind : Kind)
    (startNs : UInt64) (base : EventBase) (later : List TaskEvent) :
    periodParts kind startNs base (event :: later) = lastPart kind startNs base (some event) := by
  have hdrop : ((event :: later).dropWhile TaskEvent.isWakeup).head? = some event := by
    rw [dropWhile_cons, hev]
    rfl
  have htake : ((event :: later).takeWhile TaskEvent.isWakeup).head? = none := by
    rw [takeWhile_cons, hev]
    rfl
  unfold periodParts
  rw [hdrop, htake]
  cases kind <;> rfl

theorem filterMap_report_cons (part : Part) (later : List Part) (minDurationNs : UInt64) :
    (part :: later).filterMap (Part.report minDurationNs) =
      (part.report minDurationNs).toList ++ later.filterMap (Part.report minDurationNs) := by
  rw [filterMap_cons]
  cases part.report minDurationNs <;> rfl

/-- **The parts of a task.** What a task still emits are the parts of its open period and of the
later ones. -/
theorem emitted_foldl (hph : config.phase = .all) (events : List TaskEvent) (view : View) :
    (events.foldl (taskStep config) view).2 =
      view.2 ++ (remaining view.1 events).filterMap (Part.report config.minDurationNs) := by
  induction events generalizing view with
  | nil =>
    obtain ⟨state, emitted⟩ := view
    cases state with
    | none => simp [remaining, parts]
    | some state =>
      cases hkind : state.kind <;> simp [remaining, parts, periodParts, lastPart, hkind]
  | cons event events ih =>
    obtain ⟨state, emitted⟩ := view
    rw [foldl_cons, ih]
    cases state with
    | none =>
      cases event with
      | switchOut now departure => simp only [taskStep, remaining, parts_switchOut]
      | _ => rfl
    | some state =>
      cases event with
      | wakeup now =>
        by_cases hkind : state.kind = .blocked
        · simp only [taskStep, hkind, ne_eq, not_true_eq_false, if_false, remaining,
            periodParts_blocked_wakeup, report_eq hph, cons_append, filterMap_report_cons,
            append_assoc, parts]
        · simp only [taskStep, ne_eq, hkind, not_false_eq_true, if_true, remaining,
            periodParts_wakeup hkind, parts]
      | switchIn now =>
        simp only [taskStep, remaining, periodParts_cons (.switchIn now) rfl,
          lastPart, report_eq hph, cons_append, nil_append, filterMap_report_cons,
          append_assoc, parts]
      | switchOut now departure =>
        simp only [taskStep, remaining, periodParts_cons (.switchOut now departure) rfl, lastPart,
          nil_append, parts_switchOut]
      | exit now =>
        simp only [taskStep, remaining, periodParts_cons (.exit now) rfl,
          lastPart, report_eq hph, cons_append, nil_append, filterMap_report_cons,
          append_assoc, parts]
      | free =>
        simp only [taskStep, remaining, periodParts_cons .free rfl,
          lastPart, nil_append, parts]

/-- A wakeup changes what a task waits for, and nothing else makes or keeps a state than a
switch-out. -/
theorem isSome_taskStep (view : View) (event : TaskEvent) :
    (taskStep config view event).1.isSome =
      if event.isWakeup then view.1.isSome else event.isSwitchOut := by
  obtain ⟨state, emitted⟩ := view
  cases event with
  | wakeup now =>
    cases state with
    | none => rfl
    | some state =>
      by_cases hkind : state.kind = .blocked <;> simp [taskStep, hkind, TaskEvent.isWakeup]
  | switchOut now departure | free => rfl
  | _ => cases state <;> rfl

theorem isSome_foldl (events : List TaskEvent) (view : View) :
    (events.foldl (taskStep config) view).1.isSome =
      match (events.filter fun event => !event.isWakeup).getLast? with
      | some event => event.isSwitchOut
      | none => view.1.isSome := by
  -- the last event decides, unless it is a wakeup
  induction events using List.reverseRecOn with
  | nil => rfl
  | append_singleton events event ih =>
    rw [foldl_append, foldl_cons, foldl_nil, isSome_taskStep, ih, filter_append]
    by_cases hwak : event.isWakeup = true <;> simp [hwak]

/-! ## Result -/

/-- **The intervals of a task.** Where all phases are asked for and the switch-outs of a task are
recorded, the events of the task are its off-CPU parts: each one once, in order, with its exact
duration and the stack of its switch-out, but for those that are empty or too short. A state is left
exactly while the task is switched out. -/
theorem offcpu_intervals (config : Config) (hphase : config.phase = .all) (task : UInt64)
    (htask : task ≠ 0) (events : List Event)
    (hrecorded : ∀ now departure, .switchOut now departure ∈ events.flatMap (Event.of task) →
      departure.Recorded config) :
    (((run config events).emitted.filter fun entry => entry.1 = task).map Prod.snd =
      (parts (events.flatMap (Event.of task))).filterMap (Part.report config.minDurationNs)) ∧
    (((run config events).offcpuStates task).isSome ↔
      ∃ now departure,
        ((events.flatMap (Event.of task)).filter fun event => !event.isWakeup).getLast? =
          some (.switchOut now departure)) := by
  have hview : (run config events).view task =
      (events.flatMap (Event.of task)).foldl (taskStep config) (none, []) :=
    view_run hphase htask hrecorded {}
  constructor
  · exact (congrArg Prod.snd hview).trans (emitted_foldl hphase _ _)
  · rw [show (run config events).offcpuStates task = ((run config events).view task).1 from rfl,
      hview, isSome_foldl]
    cases hlast :
      ((events.flatMap (Event.of task)).filter fun event => !event.isWakeup).getLast? with
    | none => simp
    | some event => cases event <;> simp [TaskEvent.isSwitchOut]

/-- A switch-out of the task of the run below. -/
def sleeper (preempted running : Bool) (kernstack : Int32) : Departure where
  pidTgid := 7
  css := 0
  cpu := 0
  preempted := preempted
  running := running
  comm := "sleeper"
  kernstack := kernstack
  userstack := 0
  stored := true

/-- A task sleeps and is woken twice, sleeps without a wakeup that is seen, is preempted, yields,
and exits in its sleep. -/
def sleeperEvents : List Event :=
  [.switch 1 2 100 (sleeper false false 11), .wakeup 1 150, .wakeup 1 160,
    .switch 2 1 200 (sleeper false false 12),
    .switch 1 2 300 (sleeper false false 13), .switch 2 1 340 (sleeper false false 12),
    .switch 1 2 400 (sleeper true false 14), .wakeup 1 405,
    .switch 2 1 450 (sleeper false false 12),
    .switch 1 2 460 (sleeper false true 16), .switch 2 1 490 (sleeper false false 12),
    .switch 1 2 500 (sleeper false false 15), .wakeup 1 505, .exit 1 580,
    .switch 2 1 600 (sleeper false false 12)]

theorem recorded_of_all {events : List TaskEvent} (hall : (events.all fun event =>
      match event with
      | .switchOut _ departure => decide (departure.Recorded config)
      | _ => true) = true) (now : UInt64) (departure : Departure)
    (hmem : .switchOut now departure ∈ events) : departure.Recorded config :=
  of_decide_eq_true (all_eq_true.1 hall _ hmem)

theorem offcpu_intervals_of_sleeper :
    ((run { minDurationNs := 10 } sleeperEvents).emitted.filter fun entry => entry.1 = 1).map
        Prod.snd =
      [⟨⟨7, "sleeper", 11, 0⟩, 50, .blocked⟩, ⟨⟨7, "sleeper", 11, 0⟩, 50, .runqueue⟩,
        ⟨⟨7, "sleeper", 13, 0⟩, 40, .runqueueMissedWakeup⟩,
        ⟨⟨7, "sleeper", 14, 0⟩, 50, .runqueuePreempted⟩,
        ⟨⟨7, "sleeper", 16, 0⟩, 30, .runqueueYielded⟩,
        ⟨⟨7, "sleeper", 15, 0⟩, 75, .runqueue⟩] ∧
    ¬ ((run { minDurationNs := 10 } sleeperEvents).offcpuStates 1).isSome := by
  obtain ⟨hemitted, hstate⟩ := offcpu_intervals { minDurationNs := 10 } rfl 1 (by decide)
    sleeperEvents (recorded_of_all (by decide +kernel))
  constructor
  · rw [hemitted]
    decide +kernel
  · rw [hstate]
    rintro ⟨now, departure, hlast⟩
    cases hlast

end

end Huatuo.OffCpu
