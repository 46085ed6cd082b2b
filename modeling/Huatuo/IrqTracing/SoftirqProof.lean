import Huatuo.IrqTracing.Softirq
import Mathlib.Tactic.LinearCombination
import Mathlib.Tactic.Ring

/-!
# Every sample is counted once

A probe that runs holds one sample, and hands it to its map or to the drops in its last step. So the
samples of a stream are those that are counted and those that are held by a CPU, up to multiples of
2⁶⁴ that the slots lose (`Inv.conserved`).
-/

namespace Huatuo.IrqTracing

open Function
open PercpuHash (wrap total slots bump)

variable {ι : Type}

/-- The samples of a stream that a probe has still to count. -/
def Pc.pending (stream : Stream) : Pc → Int
  | idle => 0
  | lookup own _ | insert own _ | lookupAgain own _ | increment own _ | countDrop own =>
    if own = stream then 1 else 0

def PcInv (s : State ι) : Pc → Prop
  | .increment stream key => key ∈ (s.counts stream).map Prod.fst
  | _ => True

variable [Fintype ι]

structure Inv (s : State ι) : Prop where
  nodup : ∀ stream, ((s.counts stream).map Prod.fst).Nodup
  pc : ∀ c, PcInv s (s.pcs c)
  conserved : ∀ stream, ∃ lost : Nat, Conserved (s.events stream - wrap * lost : Int)
    (s.sampled stream : Int)
    fun c => (s.pcs c).pending stream

variable [DecidableEq ι] {s s' : State ι} {c : ι}

/-- **A step of one CPU.** Keys stay in the maps, and what the CPU no longer holds is counted. -/
theorem Inv.next (h : Inv s) {pc : Pc} (hpcs : s'.pcs = update s.pcs c pc)
    (hnd : ∀ stream, ((s'.counts stream).map Prod.fst).Nodup)
    (hkeys : ∀ stream, (s.counts stream).map Prod.fst ⊆ (s'.counts stream).map Prod.fst)
    (hpc : PcInv s' pc)
    (hbal : ∀ stream, ∃ lost : Nat,
      (s'.events stream + s.sampled stream + (s.pcs c).pending stream : Int) =
      s.events stream + (s'.sampled stream + wrap * lost) + pc.pending stream) : Inv s' := by
  refine ⟨hnd, fun c' => ?_, fun stream => ?_⟩
  · rw [hpcs]
    by_cases hc' : c' = c
    · simpa [hc'] using hpc
    rw [update_of_ne hc']
    have hother := h.pc c'
    cases hpc' : s.pcs c' with
    | increment stream key =>
      rw [hpc'] at hother
      exact hkeys stream hother
    | _ => trivial
  · obtain ⟨lost, hcon⟩ := h.conserved stream
    obtain ⟨lost', hbal⟩ := hbal stream
    refine ⟨lost + lost', ?_⟩
    have hheld : (fun c' => (s'.pcs c').pending stream) =
        update (fun c' => (s.pcs c').pending stream) c (pc.pending stream) := by
      rw [hpcs]
      funext c'
      by_cases hc' : c' = c
      · rw [hc', update_self, update_self]
      · rw [update_of_ne hc', update_of_ne hc']
    rw [hheld]
    refine hcon.update c _ ?_
    push_cast
    linear_combination hbal

/-- A step that changes no map. -/
theorem Inv.goto (h : Inv s) {pc : Pc} (hpc : PcInv s pc)
    (hpend : ∀ stream, (s.pcs c).pending stream = pc.pending stream) : Inv (s.goto c pc) := by
  refine h.next rfl h.nodup (fun _ => List.Subset.refl _) hpc fun stream => ⟨0, ?_⟩
  simp [hpend stream, State.sampled, State.goto, mul_zero]

variable {stream : Stream}

/-- The probe is done: its sample is counted. -/
theorem Inv.settle (h : Inv s) (hpcs : s'.pcs = update s.pcs c .idle)
    (hpend : ∀ other, (s.pcs c).pending other = if stream = other then 1 else 0)
    (hevs : s'.events = s.events) (hnd : ∀ other, ((s'.counts other).map Prod.fst).Nodup)
    (hkeys : ∀ other, (s.counts other).map Prod.fst ⊆ (s'.counts other).map Prod.fst)
    (hsam : ∃ lost, s'.sampled stream + wrap * lost = s.sampled stream + 1)
    (hoth : ∀ other, stream ≠ other → s'.sampled other = s.sampled other) : Inv s' := by
  refine h.next hpcs hnd hkeys trivial fun other => ?_
  rw [hevs, hpend, Pc.pending]
  by_cases hother : stream = other
  · subst hother
    obtain ⟨lost, hlost⟩ := hsam
    refine ⟨lost, ?_⟩
    rw [if_pos rfl]
    have hcast : (s'.sampled stream + wrap * lost : Int) =
      s.sampled stream + 1 := by exact_mod_cast hlost
    linear_combination -hcast
  · refine ⟨0, ?_⟩
    rw [if_neg hother, hoth other hother]
    simp

omit [DecidableEq ι] [Fintype ι] in
theorem counts_setCounts_of_ne {other : Stream} (hne : stream ≠ other)
    (rows : PercpuHash.Rows StackKey ι) : (s.setCounts stream rows).counts other = s.counts other :=
  update_of_ne (Ne.symm hne) _ _

omit [DecidableEq ι] [Fintype ι] in
theorem counts_setCounts_self (stream : Stream) (rows : PercpuHash.Rows StackKey ι) :
    (s.setCounts stream rows).counts stream = rows :=
  update_self _ _ _

/-- The sample goes into the map of its stream. -/
theorem Inv.count {rows : PercpuHash.Rows StackKey ι} (h : Inv s)
    (hpend : ∀ other, (s.pcs c).pending other = if stream = other then 1 else 0)
    (hnd : (rows.map Prod.fst).Nodup) (hkeys : (s.counts stream).map Prod.fst ⊆ rows.map Prod.fst)
    (htotal : ∃ lost, total rows + wrap * lost = total (s.counts stream) + 1) :
    Inv ((s.setCounts stream rows).goto c .idle) := by
  have hsam (other : Stream) : ((s.setCounts stream rows).goto c .idle).sampled other =
      total ((s.setCounts stream rows).counts other) + slots (s.droppedSamples other) := rfl
  refine h.settle rfl hpend rfl (fun other => ?_) (fun other => ?_) ?_ fun other hne => ?_
  · show (((s.setCounts stream rows).counts other).map Prod.fst).Nodup
    by_cases hother : stream = other
    · rwa [← hother, counts_setCounts_self]
    · rw [counts_setCounts_of_ne hother]
      exact h.nodup other
  · show (s.counts other).map Prod.fst ⊆ ((s.setCounts stream rows).counts other).map Prod.fst
    by_cases hother : stream = other
    · rwa [← hother, counts_setCounts_self]
    · rw [counts_setCounts_of_ne hother]
      exact List.Subset.refl _
  · obtain ⟨lost, hlost⟩ := htotal
    refine ⟨lost, ?_⟩
    rw [hsam, counts_setCounts_self, State.sampled]
    omega
  · rw [hsam, counts_setCounts_of_ne hne, State.sampled]

theorem inv_run {full : Bool} (h : Inv s) (hrun : s.run c full (s.pcs c) = some s') : Inv s' := by
  cases hpc : s.pcs c with
  | idle =>
    rw [hpc] at hrun
    cases hrun
  | lookup stream key | lookupAgain stream key =>
    rw [hpc] at hrun
    simp only [State.run] at hrun
    split at hrun
    · next hkey =>
      cases hrun
      exact h.goto (PercpuHash.contains_iff.1 hkey) fun _ => by rw [hpc]; rfl
    · cases hrun
      exact h.goto trivial fun _ => by rw [hpc]; rfl
  | insert stream key =>
    rw [hpc] at hrun
    simp only [State.run] at hrun
    split at hrun
    · cases hrun
      exact h.goto trivial fun _ => by rw [hpc]; rfl
    · next habs =>
      cases hrun
      have hnew : key ∉ (s.counts stream).map Prod.fst := by
        rw [← PercpuHash.contains_iff]
        intro hkey
        exact habs (by rw [hkey, Bool.true_or])
      exact h.count (fun _ => by rw [hpc]; rfl) (List.nodup_cons.2 ⟨hnew, h.nodup stream⟩)
        (List.subset_cons_self _ _) ⟨0, PercpuHash.total_insert _ _ _⟩
  | increment stream key =>
    have hkey : key ∈ (s.counts stream).map Prod.fst :=
      (hpc ▸ h.pc c : PcInv s (.increment stream key))
    rw [hpc] at hrun
    cases hrun
    have hkeys := PercpuHash.keys_increment (s.counts stream) key c
    exact h.count (fun _ => by rw [hpc]; rfl) (hkeys ▸ h.nodup stream) (hkeys ▸ List.Subset.refl _)
      (PercpuHash.total_increment (h.nodup stream) hkey c)
  | countDrop stream =>
    rw [hpc] at hrun
    cases hrun
    obtain ⟨lost, hlost⟩ := PercpuHash.slots_bump c (s.droppedSamples stream)
    refine h.settle rfl (fun _ => by rw [hpc]; rfl) rfl h.nodup (fun _ => List.Subset.refl _)
      ⟨lost, ?_⟩ fun other hne => ?_
    · simp only [State.sampled, State.goto, update_self]
      omega
    · simp only [State.sampled, State.goto, update_of_ne (Ne.symm hne)]

theorem inv_step {config : Config ι} {a : Action ι} (h : Inv s)
    (hstep : step config s a = some s') : Inv s' := by
  cases a with
  | probe c stream event =>
    simp only [step] at hstep
    split at hstep
    · next hpc =>
      split at hstep <;> cases hstep
      · refine h.next rfl h.nodup (fun _ => List.Subset.refl _) ?_ fun other => ⟨0, ?_⟩
        · split <;> trivial
        · have hpend (limited : Bool) : Pc.pending other
              (if limited then .countDrop stream else .lookup stream event.key) =
                if stream = other then 1 else 0 := by
            cases limited <;> rfl
          rw [hpend, hpc]
          by_cases hother : stream = other
          · subst hother
            simp [State.sampled, State.goto, Pc.pending]
            ring
          · simp [State.sampled, State.goto, Pc.pending, hother, update_of_ne (Ne.symm hother)]
      · exact h
    · cases hstep
  | run c full => exact inv_run h hstep

omit [DecidableEq ι] in
theorem inv_start : Inv ({} : State ι) := by
  refine ⟨fun _ => List.nodup_nil, fun _ => trivial, fun stream => ⟨0, ?_⟩⟩
  have hsam : ({} : State ι).sampled stream = 0 := by simp [State.sampled, total, slots]
  rw [hsam]
  exact Conserved.empty 0

/-- **Every sample is counted once.** When no probe is running, the counts in the map of a stream
and its drops are the samples that passed the filters, whatever the limits are; exactly, while there
are fewer than 2⁶⁴ of them, and up to multiples of 2⁶⁴ after that. -/
theorem samples_conserved (config : Config ι) {s : State ι} (h : Runs.Reachable (step config) {} s)
    (hquiet : s.Quiet) (stream : Stream) :
    s.sampled stream ≡ s.events stream [MOD 2 ^ 64] ∧
      (s.events stream < 2 ^ 64 → s.sampled stream = s.events stream) := by
  have hinv : Inv s := h.invariant inv_start fun _ _ _ _ h hstep => inv_step h hstep
  obtain ⟨lost, hconserved⟩ := hinv.conserved stream
  have hsampled : (s.sampled stream : Int) = s.events stream - wrap * lost :=
    hconserved.settled_eq fun c => by rw [hquiet c]; rfl
  have hevents : s.sampled stream + wrap * lost = s.events stream := by
    have hcast : (s.sampled stream + wrap * lost : Int) = s.events stream := by
      rw [hsampled]
      ring
    exact_mod_cast hcast
  constructor
  · rw [← hevents, Nat.ModEq]
    exact (Nat.add_mul_mod_self_left _ _ _).symm
  · intro hfew
    have hlost : lost = 0 := by
      by_contra hlost
      have hle : wrap ≤ wrap * lost := Nat.le_mul_of_pos_right wrap (Nat.pos_of_ne_zero hlost)
      have hwrap : wrap = 2 ^ 64 := rfl
      omega
    rwa [hlost, Nat.mul_zero, Nat.add_zero] at hevents

/-- A task that is interrupted, and its stacks. -/
def sampleEvent (now : UInt64) : Event where
  vec := 3
  pid := 17
  comm := ['d', 'd']
  flags := 0
  ustack := 4
  kstack := -1
  now

/-- Two CPUs race to insert one stack. The limit is 1, so that the second sample of a CPU is
dropped; a third CPU has another stack, and the map is full. -/
theorem samples_conserved_race :
    ∃ s : State (Fin 3), s.events .victim = 4 ∧ (s.counts .victim).length = 1 ∧
      (∀ c, s.droppedSamples .victim c = if c = 1 then 0 else 1) ∧
      s.sampled .victim ≡ s.events .victim [MOD 2 ^ 64] ∧
      (s.events .victim < 2 ^ 64 → s.sampled .victim = s.events .victim) := by
  have hrun : (Runs.run (step ⟨-1, 0, 1, fun c => c.val.toUInt32⟩) ({} : State (Fin 3))
      [.probe 0 .victim (sampleEvent 5), .probe 1 .victim (sampleEvent 6), .run 0 false,
        .run 1 false, .run 0 false, .run 1 false, .run 1 false, .run 1 false,
        .probe 0 .victim (sampleEvent 7), .run 0 false,
        .probe 2 .victim { sampleEvent 8 with pid := 18 }, .run 2 false, .run 2 true, .run 2 false,
        .run 2 false]).any
      (fun s => decide ((∀ c, s.pcs c = .idle) ∧ s.events .victim = 4 ∧
        (s.counts .victim).length = 1 ∧
        ∀ c, s.droppedSamples .victim c = if c = 1 then 0 else 1)) = true := by
    decide +kernel
  obtain ⟨s, hs, hstate⟩ := (Option.any_eq_true _ _).1 hrun
  obtain ⟨hquiet, hevents, hlength, hdropped⟩ := of_decide_eq_true hstate
  exact ⟨s, hevents, hlength, hdropped, samples_conserved _ ⟨_, hs⟩ hquiet .victim⟩

end Huatuo.IrqTracing
