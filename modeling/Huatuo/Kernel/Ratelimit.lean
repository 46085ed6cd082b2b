import Huatuo.Lib.Runs
import Mathlib.Data.UInt

/-!
# The shared rate limiter of the BPF programs

`bpf_ratelimited` and `bpf_ratelimited_core_in_map` of `bpf/include/bpf_ratelimit.h`, on any number
of CPUs and one shared state. Each load, store and atomic addition is a step of its own, and the
clock may move on between any two steps.

A call reads the clock, and then the start of the window twice: to set it if it is not set, and to
subtract it. The subtraction is unsigned. If another CPU, with a later reading of the clock, sets
the start of the window in between, the difference wraps around: the window is reset although it has
just begun, and `total_elapsed_ns` gets almost 2⁶⁴ (`late_reset`). And if two CPUs find the same
window expired, both add its time.

Both need a second CPU between the reading of the clock and the last access to the start of the
window. If these sections of the calls do not overlap (`exclusive`), the time that is added up is
the time that passed (`Settled`).

`readings` and `resets` keep what happened, the newest first; nothing reads them. The result of
`bpf_map_lookup_elem` on an array is not null.
-/

namespace Huatuo.Ratelimit

open Function

structure RatelimitEvent where
  intervalNs : UInt64 := 0
  windowStartNs : UInt64 := 0
  burst : UInt64 := 0
  maxBurst : UInt64 := 0
  eventsInWindow : UInt64 := 0
  missedInWindow : UInt64 := 0
  totalEvents : UInt64 := 0
  totalMissed : UInt64 := 0
  totalElapsedNs : UInt64 := 0
  deriving DecidableEq, Repr

structure Config where
  intervalNs : UInt64
  burst : UInt64
  maxBurst : UInt64
  deriving DecidableEq, Repr

/-! ## Program points -/

/-- From the reading of the clock to the last access to the start of the window. -/
inductive Window where
  | loadStart (now : UInt64)
  | storeStart (now : UInt64)
  | loadStartAgain (now : UInt64)
  | loadInterval (now start : UInt64)
  | addElapsed (now start interval : UInt64)
  | resetStart (now start interval : UInt64)
  deriving DecidableEq, Repr

inductive Pc where
  | idle
  -- bpf_ratelimited_core_in_map, up to the call
  | coreLoadInterval
  | coreStoreInterval
  | coreStoreBurst
  | coreStoreMaxBurst
  | coreLoadMissed
  -- bpf_ratelimited
  | loadInterval
  | readClock
  | window (point : Window)
  | resetEvents
  | resetMissed
  | loadEvents
  | loadBurst (events : UInt64)
  | addEvents
  | addTotalEvents
  | addMissed
  | addTotalMissed
  -- bpf_ratelimited_core_in_map, after the call
  | coreLoadMaxBurst
  | coreLoadMissedAgain
  | coreLoadMaxBurstAgain (missed : UInt64)
  | coreLoadBurst (missed maxBurst : UInt64)
  | coreOutput
  | returned (limited : Bool)
  deriving DecidableEq, Repr

def Pc.inWindow : Pc → Bool
  | window _ => true
  | _ => false

/-- A CPU: its program point, and `old_missed` in a call of `bpf_ratelimited_core_in_map`. -/
structure Cpu where
  pc : Pc := .idle
  oldMissed : Option UInt64 := none
  deriving DecidableEq, Repr

/-- A window is reset, by a call with these values. -/
structure Reset where
  now : UInt64
  start : UInt64
  interval : UInt64
  deriving DecidableEq, Repr

structure State (ι : Type) where
  rate : RatelimitEvent
  clock : UInt64 := 0
  cpus : ι → Cpu := fun _ => {}
  outputs : List RatelimitEvent := []
  readings : List UInt64 := []
  resets : List Reset := []

inductive Action (ι : Type) where
  | tick (clock : UInt64)
  | call (cpu : ι)
  | callInMap (cpu : ι)
  | run (cpu : ι)
  deriving DecidableEq, Repr

/-! ## Steps -/

section

variable {ι : Type} [DecidableEq ι]

def State.goto (s : State ι) (i : ι) (pc : Pc) : State ι :=
  { s with cpus := update s.cpus i { s.cpus i with pc } }

def State.runWindow (s : State ι) (i : ι) : Window → State ι
  | .loadStart now =>
    s.goto i (.window (if s.rate.windowStartNs = 0 then .storeStart now else .loadStartAgain now))
  | .storeStart now =>
    { s.goto i (.window (.loadStartAgain now)) with rate := { s.rate with windowStartNs := now } }
  | .loadStartAgain now => s.goto i (.window (.loadInterval now s.rate.windowStartNs))
  | .loadInterval now start =>
    s.goto i (if now - start ≥ s.rate.intervalNs then
      .window (.addElapsed now start s.rate.intervalNs) else .loadEvents)
  | .addElapsed now start interval =>
    { s.goto i (.window (.resetStart now start interval)) with
      rate := { s.rate with totalElapsedNs := s.rate.totalElapsedNs + (now - start) } }
  | .resetStart now start interval =>
    { s.goto i .resetEvents with
      rate := { s.rate with windowStartNs := now }
      resets := ⟨now, start, interval⟩ :: s.resets }

def State.run (cfg : Config) (s : State ι) (i : ι) : Pc → Option (State ι)
  | .idle => none
  | .returned _ => none
  | .coreLoadInterval =>
    some (s.goto i (if s.rate.intervalNs = 0 then .coreStoreInterval else .coreLoadMissed))
  | .coreStoreInterval =>
    some { s.goto i .coreStoreBurst with rate := { s.rate with intervalNs := cfg.intervalNs } }
  | .coreStoreBurst =>
    some { s.goto i .coreStoreMaxBurst with rate := { s.rate with burst := cfg.burst } }
  | .coreStoreMaxBurst =>
    some { s.goto i .coreLoadMissed with rate := { s.rate with maxBurst := cfg.maxBurst } }
  | .coreLoadMissed =>
    some
      { s with
        cpus := update s.cpus i
          { pc := .loadInterval, oldMissed := some s.rate.missedInWindow } }
  | .loadInterval =>
    some (s.goto i (if s.rate.intervalNs = 0 then .returned false else .readClock))
  | .readClock =>
    some
      { s.goto i (.window (.loadStart s.clock)) with
        readings := s.clock :: s.readings }
  | .window point => some (s.runWindow i point)
  | .resetEvents =>
    some { s.goto i .resetMissed with rate := { s.rate with eventsInWindow := 0 } }
  | .resetMissed =>
    some { s.goto i .loadEvents with rate := { s.rate with missedInWindow := 0 } }
  | .loadEvents => some (s.goto i (.loadBurst s.rate.eventsInWindow))
  | .loadBurst events =>
    some (s.goto i (if events < s.rate.burst then .addEvents else .addMissed))
  | .addEvents =>
    some
      { s.goto i .addTotalEvents with
        rate := { s.rate with eventsInWindow := s.rate.eventsInWindow + 1 } }
  | .addTotalEvents =>
    some
      { s.goto i (.returned false) with
        rate := { s.rate with totalEvents := s.rate.totalEvents + 1 } }
  | .addMissed =>
    some
      { s.goto i .addTotalMissed with
        rate := { s.rate with missedInWindow := s.rate.missedInWindow + 1 } }
  | .addTotalMissed =>
    some
      { s.goto i
          (match (s.cpus i).oldMissed with
          | none => .returned true
          | some oldMissed => if oldMissed = 0 then .coreOutput else .coreLoadMaxBurst) with
        rate := { s.rate with totalMissed := s.rate.totalMissed + 1 } }
  | .coreLoadMaxBurst =>
    some (s.goto i (if s.rate.maxBurst > 0 then .coreLoadMissedAgain else .returned true))
  | .coreLoadMissedAgain => some (s.goto i (.coreLoadMaxBurstAgain s.rate.missedInWindow))
  | .coreLoadMaxBurstAgain missed => some (s.goto i (.coreLoadBurst missed s.rate.maxBurst))
  | .coreLoadBurst missed maxBurst =>
    some (s.goto i (if missed > maxBurst - s.rate.burst then .coreOutput else .returned true))
  | .coreOutput => some { s.goto i (.returned true) with outputs := s.rate :: s.outputs }

def State.start (s : State ι) (i : ι) (pc : Pc) : Option (State ι) :=
  match (s.cpus i).pc with
  | .idle | .returned _ => some { s with cpus := update s.cpus i { pc } }
  | _ => none

def step (cfg : Config) (s : State ι) : Action ι → Option (State ι)
  | .tick clock => if s.clock ≤ clock then some { s with clock } else none
  | .call i => s.start i .loadInterval
  | .callInMap i => s.start i .coreLoadInterval
  | .run i => s.run cfg i (s.cpus i).pc

/-- The structure before the first call: of a global with its values, or of a map, where all are
zero. -/
def init (ι : Type) (intervalNs burst maxBurst : UInt64) : State ι where
  rate := { intervalNs, burst, maxBurst }

def State.firstReading (s : State ι) : Nat := (s.readings.getLast?.getD 0).toNat
def State.lastReading (s : State ι) : Nat := (s.readings.head?.getD 0).toNat

/-- A call reads the clock only while no other one is between its reading and its last access to the
start of the window. -/
def exclusive [Fintype ι] (s : State ι) : Action ι → Bool
  | .run i => decide ((s.cpus i).pc = .readClock → ∀ j, (s.cpus j).pc.inWindow = false)
  | _ => true

/-! ## What a step does -/

/-- A step that leaves the window alone. -/
structure Quiet (s s' : State ι) : Prop where
  start : s'.rate.windowStartNs = s.rate.windowStartNs
  elapsed : s'.rate.totalElapsedNs = s.rate.totalElapsedNs
  readings : s'.readings = s.readings
  resets : s'.resets = s.resets
  clock : s.clock.toNat ≤ s'.clock.toNat
  pc : ∀ j, (s'.cpus j).pc = (s.cpus j).pc ∨
    (s'.cpus j).pc.inWindow = false ∧ (s.cpus j).pc.inWindow = false

variable {i : ι} {s s' : State ι}

theorem pc_update {cpu : Cpu} (hpc : (s.cpus i).pc.inWindow = false)
    (hcpu : cpu.pc.inWindow = false) (j : ι) :
    (update s.cpus i cpu j).pc = (s.cpus j).pc ∨
      (update s.cpus i cpu j).pc.inWindow = false ∧ (s.cpus j).pc.inWindow = false := by
  by_cases hj : j = i
  · subst hj
    rw [update_self]
    exact .inr ⟨hcpu, hpc⟩
  · rw [update_of_ne hj]
    exact .inl rfl

theorem start_eq_some {pc : Pc} (h : s.start i pc = some s') :
    (s.cpus i).pc.inWindow = false ∧ s' = { s with cpus := update s.cpus i { pc } } := by
  rw [State.start] at h
  split at h
  · next hpc =>
    cases h
    exact ⟨by rw [hpc]; rfl, rfl⟩
  · next hpc =>
    cases h
    exact ⟨by rw [hpc]; rfl, rfl⟩
  · cases h

theorem step_cases {cfg : Config} {a : Action ι} (h : step cfg s a = some s') :
    Quiet s s' ∨
      (∃ i, a = .run i ∧ (s.cpus i).pc = .readClock ∧
        s' = { s.goto i (.window (.loadStart s.clock)) with readings := s.clock :: s.readings }) ∨
      ∃ i point, (s.cpus i).pc = .window point ∧ s' = s.runWindow i point := by
  cases a with simp only [step] at h
  | tick clock =>
    split at h <;> cases h
    rename_i hclock
    exact .inl ⟨rfl, rfl, rfl, rfl, UInt64.le_iff_toNat_le.1 hclock, fun j => .inl rfl⟩
  | call i | callInMap i =>
    obtain ⟨hpc, rfl⟩ := start_eq_some h
    exact .inl ⟨rfl, rfl, rfl, rfl, le_rfl, pc_update hpc rfl⟩
  | run i =>
    cases hpc : (s.cpus i).pc with rw [hpc] at h
    | idle | returned limited => cases h
    | readClock =>
      cases h
      exact .inr (.inl ⟨i, rfl, hpc, rfl⟩)
    | window point =>
      cases h
      exact .inr (.inr ⟨i, point, hpc, rfl⟩)
    | addTotalMissed =>
      cases h
      refine .inl ⟨rfl, rfl, rfl, rfl, le_rfl, pc_update (by rw [hpc]; rfl) ?_⟩
      dsimp only
      (repeat' split) <;> rfl
    | _ =>
      cases h
      refine .inl ⟨rfl, rfl, rfl, rfl, le_rfl, pc_update (by rw [hpc]; rfl) ?_⟩
      first
        | rfl
        | (dsimp only; split <;> rfl)

/-! ## The time that is added up -/

/-- No call is at work: the time added up is at most the time from the first reading of the clock to
the start of the window. -/
def Settled (s : State ι) : Prop :=
  s.rate.windowStartNs.toNat = 0 ∧ s.rate.totalElapsedNs.toNat = 0 ∨
    s.rate.totalElapsedNs.toNat + s.firstReading ≤ s.rate.windowStartNs.toNat ∧
      s.rate.windowStartNs.toNat ≤ s.lastReading

/-- The call at work has the last reading of the clock. -/
def WindowInv (s : State ι) : Window → Prop
  | .loadStart now => s.lastReading = now.toNat ∧ Settled s
  | .storeStart now => s.lastReading = now.toNat ∧ s.rate.totalElapsedNs.toNat = 0
  | .loadStartAgain now =>
    s.lastReading = now.toNat ∧
      s.rate.totalElapsedNs.toNat + s.firstReading ≤ s.rate.windowStartNs.toNat ∧
      s.rate.windowStartNs.toNat ≤ now.toNat
  | .loadInterval now start =>
    s.lastReading = now.toNat ∧ s.rate.windowStartNs = start ∧
      s.rate.totalElapsedNs.toNat + s.firstReading ≤ start.toNat ∧ start.toNat ≤ now.toNat
  | .addElapsed now start interval =>
    s.lastReading = now.toNat ∧
      s.rate.totalElapsedNs.toNat + s.firstReading ≤ start.toNat ∧
      start.toNat + interval.toNat ≤ now.toNat
  | .resetStart now start interval =>
    s.lastReading = now.toNat ∧ s.rate.totalElapsedNs.toNat + s.firstReading ≤ now.toNat ∧
      start.toNat + interval.toNat ≤ now.toNat

structure Inv (s : State ι) : Prop where
  readings : s.firstReading ≤ s.lastReading ∧ s.lastReading ≤ s.clock.toNat
  unique : ∀ i j, (s.cpus i).pc.inWindow → (s.cpus j).pc.inWindow → i = j
  resets : ∀ r ∈ s.resets, r.start.toNat + r.interval.toNat ≤ r.now.toNat
  settled : (∀ j, (s.cpus j).pc.inWindow = false) → Settled s
  window : ∀ i point, (s.cpus i).pc = .window point → WindowInv s point

omit [DecidableEq ι] in
theorem Quiet.inv (hquiet : Quiet s s') (h : Inv s) : Inv s' := by
  obtain ⟨hsta, hela, hrea, hres, hclock, hpc⟩ := hquiet
  have hfirst : s'.firstReading = s.firstReading := by simp only [State.firstReading, hrea]
  have hlast : s'.lastReading = s.lastReading := by simp only [State.lastReading, hrea]
  have hset : Settled s' ↔ Settled s := by simp only [Settled, hsta, hela, hfirst, hlast]
  have hin {j : ι} (hj : (s'.cpus j).pc.inWindow) : (s'.cpus j).pc = (s.cpus j).pc :=
    (hpc j).resolve_right fun hout => absurd hj (by simp [hout.1])
  refine ⟨?_, fun i j hi hj => ?_, ?_, fun hnone => ?_, fun i point hi => ?_⟩
  · rw [hfirst, hlast]
    exact ⟨h.readings.1, h.readings.2.trans hclock⟩
  · exact h.unique i j (hin hi ▸ hi) (hin hj ▸ hj)
  · rw [hres]
    exact h.resets
  · refine hset.2 (h.settled fun j => ?_)
    obtain heq | hout := hpc j
    · exact heq ▸ hnone j
    · exact hout.2
  · have heq := hin (j := i) (by rw [hi]; rfl)
    have hwin := h.window i point (heq ▸ hi)
    cases point <;> simp only [WindowInv, hset, hsta, hela, hfirst, hlast] at hwin ⊢ <;>
      exact hwin

omit [DecidableEq ι] in
/-- Only the CPU `i` can be at work on the window. -/
theorem inv_of_others (hoth : ∀ j, j ≠ i → (s.cpus j).pc.inWindow = false)
    (hrea : s.firstReading ≤ s.lastReading ∧ s.lastReading ≤ s.clock.toNat)
    (hres : ∀ r ∈ s.resets, r.start.toNat + r.interval.toNat ≤ r.now.toNat)
    (hset : (s.cpus i).pc.inWindow = false → Settled s)
    (hwin : ∀ point, (s.cpus i).pc = .window point → WindowInv s point) : Inv s := by
  have honly {j : ι} (hj : (s.cpus j).pc.inWindow) : j = i := by
    by_contra hne
    exact absurd hj (by simp [hoth j hne])
  refine ⟨hrea, fun j k hj hk => (honly hj).trans (honly hk).symm, hres,
    fun hnone => hset (hnone i), fun j point hj => ?_⟩
  obtain rfl : j = i := honly (by rw [hj]; rfl)
  exact hwin point hj

theorem inv_readClock (h : Inv s) (hnone : ∀ j, (s.cpus j).pc.inWindow = false) (i : ι) :
    Inv { s.goto i (.window (.loadStart s.clock)) with readings := s.clock :: s.readings } := by
  have hset := h.settled hnone
  obtain ⟨hsort, hclock⟩ := h.readings
  set s' : State ι :=
    { s.goto i (.window (.loadStart s.clock)) with readings := s.clock :: s.readings }
  have hlast : s'.lastReading = s.clock.toNat := rfl
  -- the first reading stays, unless this is the first
  have hfirst : s'.firstReading = s.firstReading ∨
      s'.firstReading = s.clock.toNat ∧ s.firstReading = 0 ∧ s.lastReading = 0 := by
    cases hrea : s.readings with
    | nil => exact .inr (by simp [s', State.firstReading, State.lastReading, hrea])
    | cons reading rest =>
      exact .inl (by simp [s', State.firstReading, hrea])
  have hpc : (s'.cpus i).pc = .window (.loadStart s.clock) := by
    simp only [s', State.goto, update_self]
  refine inv_of_others (i := i) (fun j hj => ?_) ?_ h.resets ?_ ?_
  · simp only [s', State.goto, update_of_ne hj]
    exact hnone j
  · refine ⟨?_, le_rfl⟩
    rw [hlast]
    omega
  · rw [hpc]
    exact nofun
  · rw [hpc]
    rintro point ⟨⟩
    refine ⟨hlast, ?_⟩
    simp only [Settled, hlast] at hset ⊢
    change s.rate.windowStartNs.toNat = 0 ∧ s.rate.totalElapsedNs.toNat = 0 ∨
      s.rate.totalElapsedNs.toNat + s'.firstReading ≤ s.rate.windowStartNs.toNat ∧
        s.rate.windowStartNs.toNat ≤ s.clock.toNat
    omega

theorem inv_runWindow {point : Window} (h : Inv s) (hi : (s.cpus i).pc = .window point) :
    Inv (s.runWindow i point) := by
  have hwin := h.window i point hi
  obtain ⟨hsort, hclock⟩ := h.readings
  have hoth (pc : Pc) (j : ι) (hj : j ≠ i) : ((s.goto i pc).cpus j).pc.inWindow = false := by
    simp only [State.goto, update_of_ne hj]
    by_contra hin
    exact hj (h.unique j i (by simpa using hin) (by rw [hi]; rfl))
  have hself (pc : Pc) : ((s.goto i pc).cpus i).pc = pc := by
    simp only [State.goto, update_self]
  cases point with
  | loadStart now =>
    obtain ⟨hlast, hset⟩ := hwin
    refine inv_of_others (hoth _) h.readings h.resets ?_ ?_ <;> rw [State.runWindow, hself]
    · exact nofun
    · rintro point ⟨⟩
      by_cases hunset : s.rate.windowStartNs = 0
      · rw [if_pos hunset]
        have hzero : s.rate.windowStartNs.toNat = 0 := by rw [hunset]; rfl
        refine ⟨hlast, ?_⟩
        change s.rate.totalElapsedNs.toNat = 0
        simp only [Settled] at hset
        omega
      · rw [if_neg hunset]
        have hne : s.rate.windowStartNs.toNat ≠ 0 := fun hzero => hunset (UInt64.toNat_inj.1 hzero)
        refine ⟨hlast, ?_⟩
        change s.rate.totalElapsedNs.toNat + s.firstReading ≤ s.rate.windowStartNs.toNat ∧
          s.rate.windowStartNs.toNat ≤ now.toNat
        simp only [Settled] at hset
        omega
  | storeStart now =>
    obtain ⟨hlast, hzero⟩ := hwin
    refine inv_of_others (hoth _) h.readings h.resets ?_ ?_
    · simpa [State.runWindow, hself] using nofun
    · simp only [State.runWindow, hself]
      rintro point ⟨⟩
      refine ⟨hlast, ?_, le_rfl⟩
      change s.rate.totalElapsedNs.toNat + s.firstReading ≤ now.toNat
      omega
  | loadStartAgain now =>
    obtain ⟨hlast, hela, hsta⟩ := hwin
    refine inv_of_others (hoth _) h.readings h.resets ?_ ?_
    · simpa [State.runWindow, hself] using nofun
    · simp only [State.runWindow, hself]
      rintro point ⟨⟩
      exact ⟨hlast, rfl, hela, hsta⟩
  | loadInterval now start =>
    obtain ⟨hlast, hsta, hela, hle⟩ := hwin
    have hsub : (now - start).toNat = now.toNat - start.toNat :=
      UInt64.toNat_sub_of_le _ _ (UInt64.le_iff_toNat_le.2 hle)
    refine inv_of_others (hoth _) h.readings h.resets ?_ ?_
    · intro _
      refine .inr ?_
      change s.rate.totalElapsedNs.toNat + s.firstReading ≤ s.rate.windowStartNs.toNat ∧
        s.rate.windowStartNs.toNat ≤ s.lastReading
      rw [hsta]
      omega
    · simp only [State.runWindow, hself]
      split
      · next hexp =>
        rintro point ⟨⟩
        have hint := UInt64.le_iff_toNat_le.1 hexp
        exact ⟨hlast, hela, by omega⟩
      · exact nofun
  | addElapsed now start interval =>
    obtain ⟨hlast, hela, hint⟩ := hwin
    have hsub : (now - start).toNat = now.toNat - start.toNat :=
      UInt64.toNat_sub_of_le _ _ (UInt64.le_iff_toNat_le.2 (by omega))
    refine inv_of_others (hoth _) h.readings h.resets ?_ ?_
    · simpa [State.runWindow, hself] using nofun
    · simp only [State.runWindow, hself]
      rintro point ⟨⟩
      refine ⟨hlast, ?_, hint⟩
      change (s.rate.totalElapsedNs + (now - start)).toNat + s.firstReading ≤ now.toNat
      have hlt := now.toNat_lt
      rw [UInt64.toNat_add, hsub, Nat.mod_eq_of_lt (by omega)]
      omega
  | resetStart now start interval =>
    obtain ⟨hlast, hela, hint⟩ := hwin
    refine inv_of_others (hoth _) h.readings ?_ ?_ ?_
    · intro r hr
      obtain rfl | hr := List.mem_cons.1 hr
      · exact hint
      · exact h.resets r hr
    · intro _
      refine .inr ?_
      change s.rate.totalElapsedNs.toNat + s.firstReading ≤ now.toNat ∧ now.toNat ≤ s.lastReading
      omega
    · simp [State.runWindow, hself]

omit [DecidableEq ι] in
theorem inv_init (intervalNs burst maxBurst : UInt64) : Inv (init ι intervalNs burst maxBurst) :=
  ⟨⟨le_rfl, Nat.zero_le _⟩, nofun, nofun, fun _ => .inl ⟨rfl, rfl⟩, nofun⟩

omit [DecidableEq ι] in
/-- What the invariant says about the time added up, at work or not. -/
theorem Inv.elapsed (h : Inv s) : s.rate.totalElapsedNs.toNat ≤ s.lastReading - s.firstReading := by
  have hrea := h.readings.1
  by_cases hnone : ∀ j, (s.cpus j).pc.inWindow = false
  · have hset := h.settled hnone
    simp only [Settled] at hset
    omega
  · obtain ⟨i, hi⟩ := not_forall.1 hnone
    obtain ⟨point, hpoint⟩ : ∃ point, (s.cpus i).pc = .window point := by
      cases hpc : (s.cpus i).pc with
      | window point => exact ⟨point, rfl⟩
      | _ =>
        rw [hpc] at hi
        exact absurd rfl hi
    have hwin := h.window i point hpoint
    cases point <;> simp only [WindowInv, Settled] at hwin <;> omega

/-- If the calls work on the window one at a time, a window is reset only when its interval is over,
and the time added up is at most the time between the first and the last reading of the clock. -/
theorem elapsed_le_readings [Fintype ι] (cfg : Config) (intervalNs burst maxBurst : UInt64)
    {s : State ι}
    (h : Runs.Reachable (Runs.restrict exclusive (step cfg)) (init ι intervalNs burst maxBurst) s) :
    (∀ r ∈ s.resets, r.start.toNat + r.interval.toNat ≤ r.now.toNat) ∧
      s.rate.totalElapsedNs.toNat ≤ s.lastReading - s.firstReading := by
  have hinv : Inv s := by
    refine h.invariant (inv_init intervalNs burst maxBurst) fun s a s' _ hinv hstep => ?_
    obtain ⟨hok, hstep⟩ := Runs.restrict_eq_some.1 hstep
    obtain hquiet | ⟨i, rfl, hpc, rfl⟩ | ⟨i, point, hpc, rfl⟩ := step_cases hstep
    · exact hquiet.inv hinv
    · exact inv_readClock hinv (of_decide_eq_true hok hpc) i
    · exact inv_runWindow hinv hpc
  exact ⟨hinv.resets, hinv.elapsed⟩

end

def sampleConfig : Config where
  intervalNs := 10
  burst := 1
  maxBurst := 0

/-- A call at 100 begins a window, and one at 200 resets it. -/
theorem elapsed_le_readings_sample : ∃ s : State (Fin 2),
    Runs.Reachable (Runs.restrict exclusive (step sampleConfig)) (init (Fin 2) 10 1 0) s ∧
      s.resets.map (fun r => (r.start, r.interval, r.now)) = [(100, 10, 200)] ∧
      s.rate.totalElapsedNs = 100 ∧
      (∀ r ∈ s.resets, r.start.toNat + r.interval.toNat ≤ r.now.toNat) ∧
      s.rate.totalElapsedNs.toNat ≤ s.lastReading - s.firstReading := by
  have hrun : (Runs.run (Runs.restrict exclusive (step sampleConfig)) (init (Fin 2) 10 1 0)
      (List.flatten [[.tick 100, .call 0], .replicate 9 (.run 0), [.tick 200, .call 1],
        .replicate 7 (.run 1)])).any (fun s =>
          s.resets.map (fun r => (r.start, r.interval, r.now)) = [(100, 10, 200)] ∧
            s.rate.totalElapsedNs = 100) := by decide +kernel
  obtain ⟨s, hs, hcheck⟩ := (Option.any_eq_true _ _).1 hrun
  obtain ⟨hresets, helapsed⟩ := of_decide_eq_true hcheck
  exact ⟨s, ⟨_, hs⟩, hresets, helapsed, elapsed_le_readings sampleConfig 10 1 0 ⟨_, hs⟩⟩

/-- The first CPU reads the clock at 100 and the second at 105, which sets the start of the window
first. The first one resets the window of the second, and adds almost 2⁶⁴ ns. -/
theorem late_reset : ∃ s : State (Fin 2),
    Runs.Reachable (step sampleConfig) (init (Fin 2) 10 1 0) s ∧
      (∃ r ∈ s.resets, r.now.toNat < r.start.toNat + r.interval.toNat) ∧
      s.lastReading - s.firstReading < s.rate.totalElapsedNs.toNat := by
  have hrun : (Runs.run (step sampleConfig) (init (Fin 2) 10 1 0)
      (List.flatten [[.tick 100, .call 0, .run 0, .run 0, .tick 105, .call 1],
        .replicate 4 (.run 1), .replicate 5 (.run 0)])).any (fun s =>
          (∃ r ∈ s.resets, r.now.toNat < r.start.toNat + r.interval.toNat) ∧
            s.lastReading - s.firstReading < s.rate.totalElapsedNs.toNat) := by decide +kernel
  obtain ⟨s, hs, hcheck⟩ := (Option.any_eq_true _ _).1 hrun
  exact ⟨s, ⟨_, hs⟩, of_decide_eq_true hcheck⟩

end Huatuo.Ratelimit
