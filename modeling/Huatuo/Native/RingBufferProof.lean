import Huatuo.Native.RingBuffer
import Mathlib.Algebra.BigOperators.Intervals

/-!
# Every emit is a sample or a reported loss

If no program counts an event between the last read of a frozen ring's sample count and its reset,
then after a final drain the samples and the drops that went to `enqueue` add up to the emits. A
program that selected its ring before the swap can count in that gap, and then the reset erases its
increment: `erased_emit` is such a run.

The proof weighs what is where. `Active` says that the events in the rings, in flight and read so
far make up the emits, that the totals of user space and the counts which are still to be added to
them do too, and that what was read has gone to `enqueue` or is about to.
-/

namespace Huatuo.Native

open Profiling Function List

/-! ## Weights -/

/-- The samples and drops of batches. -/
def weight (batches : List SampleBatch) : Nat :=
  (batches.map fun batch => batch.samples.length + batch.dropped.toNat).sum

@[simp] theorem weight_nil : weight [] = 0 := rfl

@[simp] theorem weight_append (xs ys : List SampleBatch) :
    weight (xs ++ ys) = weight xs + weight ys := by
  simp [weight]

@[simp] theorem weight_droppedBatch (lost : UInt64) : weight [droppedBatch lost] = lost.toNat := by
  simp [weight, droppedBatch, SampleBatch.dropped]

theorem weight_flush (builder : BatchBuilder) (enqueue : Enqueue) :
    weight (builder.flush enqueue).handed = builder.samples.length ∧
      (builder.flush enqueue).builder.samples = [] := by
  unfold BatchBuilder.flush
  split
  · rename_i hempty
    exact ⟨hempty.symm, eq_nil_of_length_eq_zero hempty⟩
  · exact ⟨by simp [weight, SampleBatch.dropped], rfl⟩

theorem weight_append_sample {builder builder' : BatchBuilder} {sample : Sample} {enqueue : Enqueue}
    {handed : List SampleBatch} (h : builder.append sample enqueue = ⟨.ok (), builder', handed⟩) :
    weight handed + builder'.samples.length = builder.samples.length + 1 := by
  obtain ⟨hweight, hempty⟩ := weight_flush builder enqueue
  unfold BatchBuilder.append at h
  split at h
  · cases h
  split at h
  · generalize builder.flush enqueue = flushed at h hweight hempty
    obtain ⟨_ | _, _, _⟩ := flushed <;> cases h
    simpa [BatchBuilder.insert, hweight] using hempty
  · cases h
    simp [BatchBuilder.insert]

/-- What a record stands for. -/
def Record.weight : Record → Nat
  | .sample _ => 1
  | .lost count => count.toNat

def recordsWeight (records : List Record) : Nat := (records.map Record.weight).sum

@[simp] theorem recordsWeight_nil : recordsWeight [] = 0 := rfl

@[simp] theorem recordsWeight_append (xs ys : List Record) :
    recordsWeight (xs ++ ys) = recordsWeight xs + recordsWeight ys := by
  simp [recordsWeight]

@[simp] theorem recordsWeight_singleton (record : Record) :
    recordsWeight [record] = record.weight := by
  simp [recordsWeight]

theorem recordsWeight_take_drop (records : List Record) (n : Nat) :
    recordsWeight (records.take n) + recordsWeight (records.drop n) = recordsWeight records := by
  rw [← recordsWeight_append, take_append_drop]

/-- As long as nothing wraps around, the events and the losses of a batch are its weight. -/
theorem recordsWeight_eq {records : List Record} (h : recordsWeight records < 2 ^ 64) :
    (eventsOf records).length + (lostOf records).toNat = recordsWeight records := by
  induction records with
  | nil => rfl
  | cons record rest ih =>
    have hsum : recordsWeight (record :: rest) = record.weight + recordsWeight rest := by
      simp [recordsWeight]
    rw [hsum] at h ⊢
    have ih := ih (by omega)
    have hlost : lostOf (record :: rest) = record.lostCount + lostOf rest := by
      simp [lostOf]
    cases record with
    | sample event =>
      have hzero : (Record.sample event).lostCount + lostOf rest = lostOf rest := by
        simp [Record.lostCount]
      rw [hlost, hzero]
      simp only [eventsOf, filterMap_cons, Record.event?, length_cons, Record.weight] at ih ⊢
      omega
    | lost count =>
      rw [hlost, UInt64.toNat_add]
      simp only [eventsOf, filterMap_cons, Record.event?, Record.weight, Record.lostCount] at ih h ⊢
      rw [Nat.mod_eq_of_lt (by omega)]
      omega

def Producer.weight : Producer → Nat
  | .counted .. => 1
  | _ => 0

def inFlight (config : Config) (producers : Nat → Producer) : Nat :=
  ∑ cpu ∈ Finset.range config.cpus, (producers cpu).weight

theorem inFlight_update {cpu : Nat} {config : Config} (hcpu : cpu < config.cpus)
    (producers : Nat → Producer) (producer : Producer) :
    inFlight config (update producers cpu producer) + (producers cpu).weight =
      inFlight config producers + producer.weight := by
  have hmem : cpu ∈ Finset.range config.cpus := Finset.mem_range.2 hcpu
  have hrest : ∀ c ∈ (Finset.range config.cpus).erase cpu,
      (update producers cpu producer c).weight = (producers c).weight := by
    intro c hc
    rw [update_of_ne (Finset.ne_of_mem_erase hc)]
  rw [inFlight, inFlight, ← Finset.add_sum_erase _ _ hmem,
    ← Finset.add_sum_erase _ (fun c => (producers c).weight) hmem, update_self,
    Finset.sum_congr rfl hrest]
  omega

variable (output : Ring → List Record) (unreported : Ring → Nat)

/-- Outputs that user space has not read. -/
def unread : Nat :=
  recordsWeight (output .a) + unreported .a + (recordsWeight (output .b) + unreported .b)

theorem unread_drop (ring : Ring) (n : Nat) :
    unread (update output ring ((output ring).drop n)) unreported +
        recordsWeight ((output ring).take n) = unread output unreported := by
  have hsplit := recordsWeight_take_drop (output ring) n
  cases ring <;> simp [unread] <;> omega

theorem unread_append (ring : Ring) (record : Record) :
    unread (update output ring (output ring ++ [record])) unreported =
      unread output unreported + record.weight := by
  cases ring <;> simp [unread] <;> omega

theorem unread_fail (ring : Ring) :
    unread output (update unreported ring (unreported ring + 1)) =
      unread output unreported + 1 := by
  cases ring <;> simp [unread] <;> omega

theorem unread_report (ring : Ring) {count : Nat} (hle : count ≤ unreported ring) :
    unread output (update unreported ring (unreported ring - count)) + count =
      unread output unreported := by
  cases ring <;> simp [unread] <;> omega

/-- The counts of the rings that are not settled. -/
def unsettled (settled : List Ring) (sampleCount : Ring → UInt64) : Nat :=
  (if .a ∈ settled then 0 else (sampleCount .a).toNat) +
    if .b ∈ settled then 0 else (sampleCount .b).toNat

variable {ring : Ring} (sampleCount : Ring → UInt64)

theorem le_unsettled {settled : List Ring} (hring : ring ∉ settled) :
    (sampleCount ring).toNat ≤ unsettled settled sampleCount := by
  cases ring <;> simp [unsettled, hring]

theorem unsettled_succ {settled : List Ring} {sampleCount : Ring → UInt64} (hring : ring ∉ settled)
    (hfits : (sampleCount ring).toNat + 1 < 2 ^ 64) :
    unsettled settled (update sampleCount ring (sampleCount ring + 1)) =
      unsettled settled sampleCount + 1 := by
  have hnext : (sampleCount ring + 1).toNat = (sampleCount ring).toNat + 1 := by
    rw [UInt64.toNat_add, UInt64.toNat_one]
    exact Nat.mod_eq_of_lt hfits
  cases ring <;> simp [unsettled, hring, hnext] <;> omega

/-- A further ring is settled. -/
theorem unsettled_settle {settled : List Ring} (hring : ring ∉ settled) :
    unsettled (settled ++ [ring]) sampleCount + (sampleCount ring).toNat =
      unsettled settled sampleCount := by
  cases ring <;> simp [unsettled, hring]
  omega

/-- A settled ring is reset. -/
theorem unsettled_reset (ring : Ring) :
    unsettled [] (update sampleCount ring 0) = unsettled [ring] sampleCount := by
  cases ring <;> simp [unsettled]

/-! ## The invariant -/

/-- Events and losses that were read and not passed on. -/
def Phase.pending : Phase → Nat
  | .processing _ events lost _ builder => events.length + lost.toNat + builder.samples.length
  | _ => 0

/-- What the current drain has accounted for. -/
def Phase.accounted : Phase → Nat
  | .reading drain | .processing drain .. | .counting drain _ => drain.accounted.toNat
  | _ => 0

/-- The rings whose counts are in the totals already. -/
def Phase.settled : Phase → List Ring
  | .starting final | .swapping final _ => final.getD []
  | .reading drain | .processing drain .. | .counting drain _ => drain.final.getD []
  | .resetting rings _ => rings
  | _ => []

/-- A final drain takes one ring and then the other. -/
def FinalRound (detached : Bool) (ring : Ring) (final : Option (List Ring)) : Prop :=
  ∀ rings, final = some rings → detached = true ∧ (rings = [] ∨ rings = [ring.other])

def Phase.Ordered (transferCount : UInt64) (detached : Bool) : Phase → Prop
  | .starting final => FinalRound detached (Ring.ofTransferCount transferCount) final
  | .swapping final read => read = transferCount ∧
    FinalRound detached (Ring.ofTransferCount read) final
  | .reading drain | .processing drain .. | .counting drain _ =>
    Ring.ofTransferCount transferCount = drain.ring.other ∧
      FinalRound detached drain.ring drain.final
  | .resetting rings _ => ∃ ring, rings = [ring]
  | _ => True

/-- Programs run on CPUs, and none after the detach. -/
structure Attached (config : Config) (producers : Nat → Producer) (detached : Bool) : Prop where
  cpus : ∀ cpu, producers cpu ≠ .idle → cpu < config.cpus
  detached : detached = true → ∀ cpu, producers cpu = .idle

structure Active (config : Config) (s : State) : Prop where
  attached : Attached config s.producers s.detached
  ordered : s.phase.Ordered s.transferCount s.detached
  emitted : s.accountedSamples.toNat + s.phase.accounted + unread s.output s.unreported +
    inFlight config s.producers = s.attempts
  counted : s.sampleAttempts.toNat + unsettled s.phase.settled s.sampleCount = s.attempts
  delivered : weight s.enqueued + s.phase.pending = s.accountedSamples.toNat + s.phase.accounted

/-- After the last delivery of a final drain. -/
structure Ended (s : State) : Prop where
  stopped : ∀ cpu, s.producers cpu = .idle
  detached : s.detached = true
  delivered : weight s.enqueued = s.attempts

def Phase.ended : Phase → Bool
  | .resetting _ true | .done => true
  | _ => false

def Phase.isFailed : Phase → Bool
  | .failed _ => true
  | _ => false

/-- What holds as long as the count of emits fits into a word. -/
def Inv (config : Config) (s : State) : Prop :=
  s.attempts < 2 ^ 64 → s.phase.isFailed = false →
    if s.phase.ended then Ended s else Active config s

/-! ## The programs -/

/-- The increment that a reset would erase: of a ring that is counted and not yet reset. -/
def erases (s : State) : Action → Bool
  | .count cpu =>
    match s.producers cpu, s.phase with
    | .selected ring _, .resetting rings _ => ring ∈ rings
    | _, _ => false
  | _ => false

section Kernel

variable {config : Config} {s s' : State}

theorem Attached.update {producers : Nat → Producer} {detached : Bool}
    (h : Attached config producers detached) {cpu : Nat} (hcpu : cpu < config.cpus)
    (hdet : detached = false) (producer : Producer) :
    Attached config (update producers cpu producer) detached where
  cpus := by
    intro c hc
    by_cases heq : c = cpu
    · rwa [heq]
    · rw [update_of_ne heq] at hc
      exact h.cpus c hc
  detached := fun htrue => absurd (hdet.symm.trans htrue) Bool.false_ne_true

variable {cpu : Nat} {event : Event} {ring : Ring}

/-- A program in the middle of an emit runs on a CPU, before the detach. -/
theorem Attached.running {producers : Nat → Producer} {detached : Bool}
    (h : Attached config producers detached) (hcpu : producers cpu ≠ .idle) :
    cpu < config.cpus ∧ detached = false := by
  refine ⟨h.cpus cpu hcpu, ?_⟩
  by_contra hdet
  exact hcpu (h.detached (Bool.not_eq_false _ ▸ hdet) cpu)

theorem Active.select (h : Active config s) (hcpu : cpu < config.cpus) (hdet : s.detached = false)
    (hidle : s.producers cpu = .idle) (ring : Ring) (event : Event) :
    Active config { s with producers := update s.producers cpu (.selected ring event) } := by
  have hfl := inFlight_update hcpu s.producers (.selected ring event)
  simp only [hidle, Producer.weight, Nat.add_zero] at hfl
  refine ⟨h.attached.update hcpu hdet _, h.ordered, ?_, h.counted, h.delivered⟩
  simp [hfl, h.emitted]

/-- Before the reset, a ring that a program selected is not in the totals. -/
theorem Active.not_settled (h : Active config s) (hcpu : s.producers cpu = .selected ring event)
    (hera : erases s (.count cpu) = false) : ring ∉ s.phase.settled := by
  have hdet : s.detached = false :=
    (h.attached.running (by rw [hcpu]; nofun)).2
  have hfinal {other : Ring} {final : Option (List Ring)}
      (hround : FinalRound s.detached other final) : ring ∉ final.getD [] := by
    cases final with
    | none => exact not_mem_nil
    | some rings =>
      have htrue := (hround rings rfl).1
      exact absurd (hdet.symm.trans htrue) Bool.false_ne_true
  have hord := h.ordered
  cases hph : s.phase with rw [hph] at hord
  | idle | failed _ | done => exact not_mem_nil
  | starting final => exact hfinal hord
  | swapping final _ | reading _ | processing _ _ _ _ _ | counting _ _ => exact hfinal hord.2
  | resetting rings final =>
    have hnot : ring ∉ rings := by simpa [erases, hcpu, hph] using hera
    exact hnot

theorem Active.count (h : Active config s) (hcpu : s.producers cpu = .selected ring event)
    (hera : erases s (.count cpu) = false) (hfits : s.attempts + 1 < 2 ^ 64) :
    Active config
      { s with
        producers := update s.producers cpu (.counted ring event)
        sampleCount := update s.sampleCount ring (s.sampleCount ring + 1)
        attempts := s.attempts + 1 } := by
  obtain ⟨hlt, hdet⟩ := h.attached.running (by rw [hcpu]; nofun)
  have hfl := inFlight_update hlt s.producers (.counted ring event)
  simp only [hcpu, Producer.weight] at hfl
  have huns := h.not_settled hcpu hera
  have hle := le_unsettled s.sampleCount huns
  have hemi := h.emitted
  have hcou := h.counted
  refine ⟨h.attached.update hlt hdet _, h.ordered, ?_, ?_, h.delivered⟩
  · simp only
    omega
  · simp only [unsettled_succ huns (show (s.sampleCount ring).toNat + 1 < 2 ^ 64 by omega)]
    omega

/-- An output moves the event of a program into the ring, or among its failures. -/
theorem inv_output (h : Inv config s) (hcpu : s.producers cpu = .counted ring event)
    {output : Ring → List Record} {unreported : Ring → Nat}
    (hmoved : unread output unreported = unread s.output s.unreported + 1) :
    Inv config { s with producers := update s.producers cpu .idle, output, unreported } := by
  intro hfits hfai
  have h := h hfits hfai
  split at h
  · simp [h.stopped cpu] at hcpu
  rename_i hended
  obtain ⟨hlt, hdet⟩ := h.attached.running (by rw [hcpu]; nofun)
  have hfl := inFlight_update hlt s.producers .idle
  simp only [hcpu, Producer.weight, Nat.add_zero] at hfl
  have hemi := h.emitted
  refine (if_neg hended).mpr
    ⟨h.attached.update hlt hdet _, h.ordered, ?_, h.counted, h.delivered⟩
  simp only [hmoved]
  omega

/-- Reports move failures into the ring. -/
theorem inv_move {output : Ring → List Record} {unreported : Ring → Nat} (h : Inv config s)
    (hmoved : s.attempts < 2 ^ 64 → unread s.output s.unreported ≤ s.attempts →
      unread output unreported = unread s.output s.unreported) :
    Inv config { s with output, unreported } := by
  intro hfits hfai
  have h := h hfits hfai
  split at h
  · next hended => exact (if_pos hended).mpr ⟨h.stopped, h.detached, h.delivered⟩
  rename_i hended
  have hemi := h.emitted
  refine (if_neg hended).mpr ⟨h.attached, h.ordered, ?_, h.counted, h.delivered⟩
  simp [hmoved hfits (by omega), hemi]

/-- The steps of the kernel and of the programs in it. -/
def Action.inKernel : Action → Bool
  | .recordStack .. | .select .. | .count _ | .output .. | .reportLost .. => true
  | _ => false

theorem inv_kernel (h : Inv config s) {action : Action} (hker : action.inKernel = true)
    (hera : erases s action = false) (hstep : step config s action = some s') : Inv config s' := by
  cases action with simp only [step] at hstep
  | recordStack ring stackID trace =>
    split at hstep <;> cases hstep
    intro hfits hfai
    have h := h hfits hfai
    split at h
    · next hended => exact (if_pos hended).mpr ⟨h.stopped, h.detached, h.delivered⟩
    · next hended =>
      exact (if_neg hended).mpr ⟨h.attached, h.ordered, h.emitted, h.counted, h.delivered⟩
  | select cpu event =>
    split at hstep <;> cases hstep
    rename_i hsel
    intro hfits hfai
    have h := h hfits hfai
    split at h
    · exact absurd (hsel.2.1.symm.trans h.detached) Bool.false_ne_true
    · next hended =>
      exact (if_neg hended).mpr (h.select hsel.1 hsel.2.1 hsel.2.2 _ event)
  | count cpu =>
    split at hstep <;> cases hstep
    rename_i ring event hcpu
    intro hfits hfai
    have hfits : s.attempts + 1 < 2 ^ 64 := hfits
    have h := h (by omega) hfai
    split at h
    · simp [h.stopped cpu] at hcpu
    · next hended => exact (if_neg hended).mpr (h.count hcpu hera hfits)
  | output cpu accepted =>
    split at hstep
    · next ring event hcpu =>
      split at hstep <;> cases hstep
      · exact inv_output h hcpu (unread_append s.output s.unreported ring (.sample event))
      · exact inv_output h hcpu (unread_fail s.output s.unreported ring)
    · cases hstep
  | reportLost ring count =>
    split at hstep <;> cases hstep
    rename_i hcnt
    refine inv_move h fun hfits hunr => ?_
    have hrep := unread_report s.output s.unreported ring hcnt.2
    have hlost : (UInt64.ofNat count).toNat = count :=
      UInt64.toNat_ofNat_of_lt' (show count < 2 ^ 64 by omega)
    rw [unread_append, Record.weight, hlost, hrep]
  | _ => cases hker

end Kernel

/-! ## User space -/

theorem Ring.ofTransferCount_succ (transferCount : UInt64) :
    Ring.ofTransferCount (transferCount + 1) = (Ring.ofTransferCount transferCount).other := by
  have hpar (n : UInt64) : n % 2 = 0 ↔ n.toNat % 2 = 0 := by
    rw [← UInt64.toNat_inj, UInt64.toNat_mod]
    rfl
  have hnext : (transferCount + 1).toNat % 2 = (transferCount.toNat + 1) % 2 := by
    rw [UInt64.toNat_add, UInt64.toNat_one]
    omega
  unfold Ring.ofTransferCount
  simp only [hpar, hnext]
  split <;> split <;> first | rfl | omega

@[simp] theorem Ring.other_other (ring : Ring) : ring.other.other = ring := by cases ring <;> rfl

section User

variable {config : Config} {s : State}

theorem inv_of_active (h : Active config s) (hended : s.phase.ended = false) : Inv config s :=
  fun _ _ => (if_neg (by simp [hended])).mpr h

theorem inv_fail (err : String) : Inv config (s.fail err) :=
  fun _ hfai => absurd hfai (by simp [State.fail, Phase.isFailed])

/-- Phases that differ in their place in the program only. -/
theorem Active.setPhase {phase : Phase} (h : Active config s)
    (hord : phase.Ordered s.transferCount s.detached)
    (hacc : phase.accounted = s.phase.accounted) (hset : phase.settled = s.phase.settled)
    (hpend : phase.pending = s.phase.pending) : Active config { s with phase } where
  attached := h.attached
  ordered := hord
  emitted := by
    simp [hacc, h.emitted]
  counted := by
    simp [hset, h.counted]
  delivered := by
    simp [hpend, hacc, h.delivered]

theorem active_drain (h : Active config s) (hph : s.phase = .idle) :
    Active config { s with phase := .starting none } := by
  refine h.setPhase (fun _ hnone => ?_) ?_ ?_ ?_
  · cases hnone
  all_goals rw [hph]; rfl

theorem active_drainFinal (h : Active config s) (hph : s.phase = .idle)
    (hidle : ∀ cpu < config.cpus, s.producers cpu = .idle) :
    Active config { s with detached := true, phase := .starting (some []) } := by
  have hall : ∀ cpu, s.producers cpu = .idle := by
    intro cpu
    by_contra hbusy
    exact hbusy (hidle cpu (h.attached.cpus cpu hbusy))
  have hdet : Active config { s with detached := true } :=
    ⟨⟨h.attached.cpus, fun _ => hall⟩, by rw [hph]; trivial, h.emitted, h.counted, h.delivered⟩
  refine hdet.setPhase (fun rings hrings => ?_) ?_ ?_ ?_
  · cases hrings
    exact ⟨rfl, .inl rfl⟩
  all_goals simp only [hph]; rfl

variable {final : Option (List Ring)}

theorem active_readTransferCount (h : Active config s) (hph : s.phase = .starting final) :
    Active config { s with phase := .swapping final s.transferCount } := by
  have hord := h.ordered
  rw [hph] at hord
  refine h.setPhase ⟨rfl, hord⟩ ?_ ?_ ?_ <;> rw [hph] <;> rfl

theorem active_writeTransferCount {transferCount : UInt64} (h : Active config s)
    (hph : s.phase = .swapping final transferCount) :
    Active config
      { s with
        transferCount := transferCount + 1
        phase := .reading { ring := Ring.ofTransferCount transferCount, final } } := by
  obtain ⟨hatt, hord, hemi, hcou, hdel⟩ := h
  rw [hph] at hord hemi hcou hdel
  exact ⟨hatt, ⟨Ring.ofTransferCount_succ transferCount, hord.2⟩, hemi, hcou,
    hdel⟩

variable {accounted : UInt64}

theorem toNat_accounted {records : List Record}
    (hfits : accounted.toNat + recordsWeight records < 2 ^ 64) :
    (accounted + (UInt64.ofNat (eventsOf records).length + lostOf records)).toNat =
      accounted.toNat + recordsWeight records := by
  have hwei : _ = recordsWeight records := recordsWeight_eq (by omega)
  have hcnt : (UInt64.ofNat (eventsOf records).length).toNat = (eventsOf records).length :=
    UInt64.toNat_ofNat_of_lt' (show (eventsOf records).length < 2 ^ 64 by omega)
  rw [UInt64.toNat_add, UInt64.toNat_add, hcnt, hwei,
    Nat.mod_eq_of_lt (show recordsWeight records < 2 ^ 64 by omega), Nat.mod_eq_of_lt hfits]

variable {drain : Drain}

theorem inv_readBatch (h : Active config s) (hph : s.phase = .reading drain)
    (hfits : s.attempts < 2 ^ 64) (n : Nat) :
    Inv config
      (readBatch
        { s with output := update s.output drain.ring ((s.output drain.ring).drop n) } drain
        ((s.output drain.ring).take n)) := by
  obtain ⟨hatt, hord, hemi, hcou, hdel⟩ := h
  rw [hph] at hord hemi hcou hdel
  simp only [Phase.accounted, Phase.pending] at hemi hdel
  have hrings := unread_drop s.output s.unreported drain.ring n
  have hread : drain.accounted.toNat + recordsWeight ((s.output drain.ring).take n) < 2 ^ 64 := by
    omega
  have hacc := toNat_accounted hread
  have hwei : _ = recordsWeight ((s.output drain.ring).take n) := recordsWeight_eq (by omega)
  simp only [readBatch]
  split
  · exact inv_fail _
  refine inv_of_active ⟨hatt, hord, ?_, hcou, ?_⟩ rfl
  · simp only [Phase.accounted, hacc]
    omega
  · simp only [Phase.accounted, Phase.pending, hacc, length_nil]
    omega

variable {empty : Bool}

theorem inv_process (h : Active config s) {drain : Drain} {event : Event} {rest : List Event}
    {lost : UInt64} {builder : BatchBuilder}
    (hph : s.phase = .processing drain (event :: rest) lost empty builder) :
    Inv config (process config s drain event rest lost empty builder) := by
  unfold process
  split
  · exact inv_fail _
  split
  · exact inv_fail _
  rename_i builder' handed happ
  obtain ⟨hatt, hord, hemi, hcou, hdel⟩ := h
  rw [hph] at hord hemi hcou hdel
  simp only [Phase.accounted, Phase.pending, length_cons] at hdel
  have hwei := weight_append_sample happ
  refine inv_of_active ⟨hatt, hord, hemi, hcou, ?_⟩ rfl
  simp only [Phase.accounted, Phase.pending, weight_append, Drain.remember]
  omega

theorem active_finishBatch {lost : UInt64} {builder : Profiling.BatchBuilder} (h : Active config s)
    (hph : s.phase = .processing drain [] lost empty builder) :
    Active config (finishBatch s drain lost empty builder) := by
  obtain ⟨hatt, hord, hemi, hcou, hdel⟩ := h
  rw [hph] at hord hemi hcou hdel
  have hlost : weight (if lost ≠ 0 then [droppedBatch lost] else []) = lost.toNat := by
    by_cases hzero : lost = 0
    · simp [hzero]
    · rw [if_pos hzero, weight_droppedBatch]
  refine ⟨hatt, hord, hemi, hcou, ?_⟩
  simp only [Phase.accounted, Phase.pending, length_nil] at hdel
  simp only [finishBatch, Phase.accounted, Phase.pending, weight_append,
    (weight_flush builder enqueue).1, hlost]
  omega

theorem toNat_add_of_fits {x y : UInt64} (hfits : x.toNat + y.toNat < 2 ^ 64) :
    (x + y).toNat = x.toNat + y.toNat := by
  rw [UInt64.toNat_add, Nat.mod_eq_of_lt hfits]

/-- The difference that the last batch reports. -/
theorem weight_difference {attempts : UInt64} (hle : accounted.toNat ≤ attempts.toNat) :
    weight (if attempts > accounted then [droppedBatch (attempts - accounted)] else []) =
      attempts.toNat - accounted.toNat := by
  have hle : accounted ≤ attempts := UInt64.le_iff_toNat_le.2 hle
  split
  · rw [weight_droppedBatch, UInt64.toNat_sub_of_le _ _ hle]
  rename_i hmore
  have hsame := UInt64.le_iff_toNat_le.1 (UInt64.not_lt.1 hmore)
  simp only [weight_nil]
  omega

/-- The totals include the ring; its count is reset now, or together with the other ring's. -/
theorem inv_drained (hatt : Attached config s.producers s.detached)
    (hring : Ring.ofTransferCount s.transferCount = drain.ring.other)
    (hround : FinalRound s.detached drain.ring drain.final)
    (hemi : s.accountedSamples.toNat + unread s.output s.unreported +
      inFlight config s.producers = s.attempts) (hcou : s.sampleAttempts.toNat +
      unsettled (drain.final.getD [] ++ [drain.ring]) s.sampleCount = s.attempts)
    (hdel : weight s.enqueued = s.accountedSamples.toNat) : Inv config (drained s drain) := by
  unfold drained
  cases hfinal : drain.final with
  | none =>
    rw [hfinal] at hcou
    exact inv_of_active ⟨hatt, ⟨drain.ring, rfl⟩, hemi, hcou, hdel⟩ rfl
  | some rings =>
    obtain ⟨hdet, hrings⟩ := hround rings hfinal
    rw [hfinal] at hcou
    obtain rfl | rfl := hrings
    · refine inv_of_active ⟨hatt, ?_, hemi, hcou, hdel⟩ rfl
      intro rings hsome
      cases hsome
      exact ⟨hdet, .inr (by rw [hring, Ring.other_other])⟩
    · intro _ _
      refine (if_pos rfl).mpr ⟨hatt.detached hdet, hdet, ?_⟩
      have hall : unsettled ([drain.ring.other] ++ [drain.ring]) s.sampleCount = 0 := by
        cases drain.ring <;> simp [unsettled, Ring.other]
      simp only [Option.getD_some, hall] at hcou
      have hle : s.accountedSamples.toNat ≤ s.sampleAttempts.toNat := by omega
      simp only [weight_append, weight_difference hle, hdel]
      omega

theorem inv_readCount (h : Active config s) {drain : Drain} (hph : s.phase = .counting drain empty)
    (hfits : s.attempts < 2 ^ 64) : Inv config (readCount s drain empty) := by
  have hord := h.ordered
  have hemi := h.emitted
  have hcou := h.counted
  have hdel := h.delivered
  rw [hph] at hord hemi hcou hdel
  simp only [Phase.accounted, Phase.pending, Phase.settled] at hemi hcou hdel
  have hnot : drain.ring ∉ drain.final.getD [] := by
    cases hfinal : drain.final with
    | none => exact not_mem_nil
    | some rings =>
      obtain rfl | rfl := (hord.2 rings hfinal).2
      · exact not_mem_nil
      · cases drain.ring <;> decide
  have hsett := unsettled_settle s.sampleCount hnot
  simp only [readCount]
  split
  · split
    · exact inv_fail _
    have hatte : (s.sampleAttempts + s.sampleCount drain.ring).toNat = _ :=
      toNat_add_of_fits (by omega)
    have hacc : (s.accountedSamples + drain.accounted).toNat = _ :=
      toNat_add_of_fits (by omega)
    refine inv_drained h.attached hord.1 hord.2 ?_ ?_ ?_
    · simp only [hacc]
      omega
    · simp only [hatte]
      omega
    · simp only [hacc]
      omega
  · refine inv_of_active (h.setPhase hord ?_ ?_ ?_) rfl
    all_goals rw [hph]; rfl

theorem active_resetCount {ring : Ring} {rest : List Ring} (h : Active config s)
    (hph : s.phase = .resetting (ring :: rest) false) :
    Active config (resetCount s ring rest false) := by
  obtain ⟨hatt, hord, hemi, hcou, hdel⟩ := h
  rw [hph] at hord hemi hcou hdel
  obtain ⟨_, hone⟩ := hord
  cases hone
  have hreset := congrArg (s.sampleAttempts.toNat + ·) (unsettled_reset s.sampleCount ring)
  exact ⟨hatt, trivial, hemi, hreset.trans hcou, hdel⟩

theorem inv_resetCount_ended (h : Ended s) (ring : Ring) (rest : List Ring) :
    Inv config (resetCount s ring rest true) := by
  intro _ _
  cases rest <;> exact (if_pos rfl).mpr ⟨h.stopped, h.detached, h.delivered⟩

variable {action : Action} {s' : State}

theorem attempts_user (hker : action.inKernel = false) (hstep : step config s action = some s') :
    s'.attempts = s.attempts := by
  cases action with simp only [step] at hstep
  | recordStack | select | count | output | reportLost => cases hker
  | drain | readTransferCount | writeTransferCount | fail err =>
    split at hstep <;> cases hstep
    rfl
  | drainFinal =>
    (repeat' split at hstep) <;> cases hstep
    rfl
  | readBatch n =>
    simp only [readBatch] at hstep
    split at hstep <;> cases hstep
    split <;> rfl
  | process =>
    split at hstep <;> cases hstep
    · unfold process
      (repeat' split) <;> rfl
    · rfl
  | readCount =>
    simp only [readCount, drained] at hstep
    split at hstep <;> cases hstep
    (repeat' split) <;> rfl
  | resetCount =>
    simp only [resetCount] at hstep
    split at hstep <;> cases hstep
    (repeat' split) <;> rfl

/-- The steps of user space, phase by phase. -/
theorem inv_user (h : Inv config s) (hker : action.inKernel = false)
    (hstep : step config s action = some s') : Inv config s' := by
  by_cases hfits : s.attempts < 2 ^ 64
  case neg =>
    exact fun hfits' => absurd (attempts_user hker hstep ▸ hfits') hfits
  have hact (hfai : s.phase.isFailed = false) (hended : s.phase.ended = false) :
      Active config s := (if_neg (by simp [hended])).mp (h hfits hfai)
  cases action with simp only [step] at hstep
  | recordStack | select | count | output | reportLost => cases hker
  | drain =>
    split at hstep <;> cases hstep
    next hph =>
    exact inv_of_active (active_drain (hact (hph ▸ rfl) (hph ▸ rfl)) hph) rfl
  | drainFinal =>
    split at hstep
    · next hph =>
      split at hstep <;> cases hstep
      next hidle =>
      have h := hact (hph ▸ rfl) (hph ▸ rfl)
      exact inv_of_active (active_drainFinal h hph hidle) rfl
    · cases hstep
  | readTransferCount =>
    split at hstep <;> cases hstep
    next hph =>
    exact inv_of_active (active_readTransferCount (hact (hph ▸ rfl) (hph ▸ rfl)) hph) rfl
  | writeTransferCount =>
    split at hstep <;> cases hstep
    next hph =>
    exact inv_of_active (active_writeTransferCount (hact (hph ▸ rfl) (hph ▸ rfl)) hph) rfl
  | readBatch n =>
    split at hstep <;> cases hstep
    next hph => exact inv_readBatch (hact (hph ▸ rfl) (hph ▸ rfl)) hph hfits n
  | process =>
    split at hstep <;> cases hstep
    · next hph => exact inv_process (hact (hph ▸ rfl) (hph ▸ rfl)) hph
    · next hph =>
      exact inv_of_active (active_finishBatch (hact (hph ▸ rfl) (hph ▸ rfl)) hph) rfl
  | readCount =>
    split at hstep <;> cases hstep
    next hph => exact inv_readCount (hact (hph ▸ rfl) (hph ▸ rfl)) hph hfits
  | resetCount =>
    split at hstep <;> cases hstep
    next ring rest final hph =>
    cases final with
    | false =>
      have hreset := active_resetCount (hact (hph ▸ rfl) (hph ▸ rfl)) hph
      exact inv_of_active hreset (by cases rest <;> rfl)
    | true =>
      have hended : Ended s := (if_pos (hph ▸ rfl)).mp (h hfits (hph ▸ rfl))
      exact inv_resetCount_ended hended ring rest
  | fail err =>
    split at hstep <;> cases hstep
    exact inv_fail err

end User

/-! ## Runs -/

section Runs

variable {config : Config} {s s' : State}

theorem inv_step {action : Action} (hera : erases s action = false)
    (hstep : step config s action = some s') (h : Inv config s) : Inv config s' := by
  cases hker : action.inKernel with
  | true => exact inv_kernel h hker hera hstep
  | false => exact inv_user h hker hstep

theorem inv_init : Inv config {} := by
  refine inv_of_active ⟨⟨fun _ hbusy => absurd rfl hbusy, nofun⟩, trivial, ?_, rfl, rfl⟩ rfl
  simp [inFlight, unread, Producer.weight, Phase.accounted]

/-- The steps that leave the count of a ring alone between its last read and its reset. -/
def keepsCounts (s : State) (action : Action) : Bool := !erases s action

/-- Once a final drain is done, every emit was either passed on as a sample or reported as
dropped, and none of them twice. -/
theorem emits_delivered (hrun : Runs.Reachable (Runs.restrict keepsCounts (step config)) {} s)
    (hdone : s.phase = .done) (hfits : s.attempts < 2 ^ 64) : weight s.enqueued = s.attempts := by
  have hinv : Inv config s := by
    refine hrun.invariant inv_init fun s action s' _ h hstep => ?_
    obtain ⟨hkeeps, hstep⟩ := Runs.restrict_eq_some.1 hstep
    exact inv_step (by simpa [keepsCounts] using hkeeps) hstep h
  have hended : Ended s := (if_pos (hdone ▸ rfl)).mp (hinv hfits (hdone ▸ rfl))
  exact hended.delivered

end Runs

def sampleConfig : Config where
  cpus := 1
  needsFallback := false
  ksym := fun trace => trace.map fun _ => "f"
  usym := fun _ trace => trace.map fun _ => "g"
  convert := .ok

def sampleEvent : Event where
  pidTgid := 0
  comm := "app"
  userstack := 0
  kernstack := -1
  value := 1

/-- A drain of one ring that takes at most `records` records. -/
def drainRing (records : Nat) : List Action :=
  [Action.readTransferCount, .writeTransferCount, .readBatch records] ++
    List.replicate (records + 1) Action.process ++ [Action.readCount]

def emit (accepted : Bool) : List Action :=
  [.select 0 sampleEvent, .count 0, .output 0 accepted]

/-- One sample comes out, one loss is reported by the kernel and one by the final drain. -/
def deliveredRun : List Action :=
  emit true ++ [.drain] ++ drainRing 1 ++ [.resetCount] ++ emit false ++ [.reportLost .b 1] ++
    emit false ++ [.drainFinal, .readTransferCount, .writeTransferCount, .readBatch 1, .process,
      .readCount, .readBatch 0, .process, .readCount] ++ drainRing 0 ++ [.resetCount, .resetCount]

theorem emits_delivered_sample :
    ∃ s, Runs.run (Runs.restrict keepsCounts (step sampleConfig)) {} deliveredRun = some s ∧
      s.phase = .done ∧ s.attempts = 3 ∧ weight s.enqueued = s.attempts := by
  obtain ⟨s, hrun, hdone, hattempts⟩ :
      ∃ s, Runs.run (Runs.restrict keepsCounts (step sampleConfig)) {} deliveredRun = some s ∧
        s.phase = .done ∧ s.attempts = 3 := ⟨_, rfl, rfl, rfl⟩
  exact ⟨s, hrun, hdone, hattempts, emits_delivered ⟨_, hrun⟩ hdone (by omega)⟩

/-- The program selects ring A, is overtaken by a drain of it, and counts before the reset. Its
output fails, no record says so, and the final drain finds both counts at zero. -/
theorem erased_emit :
    ∃ s,
      Runs.run (step sampleConfig) {}
          ([Action.select 0 sampleEvent, .drain] ++ drainRing 0 ++
            [.count 0, .resetCount, .output 0 false, .drainFinal] ++ drainRing 0 ++ drainRing 0 ++
            [.resetCount, .resetCount]) = some s ∧
        s.phase = .done ∧ s.attempts = 1 ∧ s.enqueued = [] :=
  ⟨_, rfl, rfl, rfl, rfl⟩

end Huatuo.Native
