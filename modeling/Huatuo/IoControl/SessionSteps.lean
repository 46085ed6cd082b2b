import Huatuo.IoControl.Session
import Huatuo.IoControl.WaitProof

/-!
# Steps of an IO collection session

What the steps of a session do to its state, without the checks that led there: `Collected` for the
end of a snapshot, with what it has read and built, and `Step` for all actions.
-/

namespace Huatuo.IoControl

open Function Option

variable {cpus : Nat} {collector : Collector} {s s' : State cpus} {reading : Reading cpus}

/-- The rows that a dump returns were read completely. -/
def Reading.Returned (reading : Reading cpus) (current : WaitSnapshot) : Prop :=
  ∀ key ∈ current, ∃ words : Fin cpus → UInt64, (∀ cpu, reading.words key cpu = some (words cpu)) ∧
    current.lookup key = some (List.ofFn fun cpu => unpack (words cpu))

/-! ## What the end of a snapshot does -/

/-- The `Update` ends without a new baseline. -/
def Ends (s s' : State cpus) : Prop :=
  ∃ previous cancelled, (previous = s.previous ∨ previous = none) ∧
    s' = { s with phase := .idle, previous, cancelled }

theorem collectionFailure_ends (collector : Collector) (s : State cpus) (cause : Cause) :
    Ends s (collectionFailure collector s cause) := by
  unfold collectionFailure
  split
  · split
    · exact ⟨_, _, .inl rfl, rfl⟩
    · exact ⟨_, _, .inr rfl, rfl⟩
  · exact ⟨_, _, .inr rfl, rfl⟩

theorem sessionEnded_ends (collector : Collector) (s : State cpus) :
    Ends s (sessionEnded collector s) := by
  cases collector with
  | blkThrotl => exact ⟨_, _, .inl rfl, rfl⟩
  | iocost => exact collectionFailure_ends .iocost s _

/-- What an `Update` does that has a snapshot of these rows. -/
inductive Collected (s : State cpus) (reading : Reading cpus) (order : List WaitKey)
    (environment : Environment) : State cpus → Prop
  | ended {s' : State cpus} : Ends s s' → Collected s reading order environment s'
  | retried (attempt : Nat) :
      Collected s reading order environment (beginReading s reading.retired attempt)
  | changed {s' : State cpus} {current : WaitSnapshot} {containers : UInt64 → Option Container}
      {disks : UInt32 × UInt32 → String} {report : Report} :
      reading.Returned current → (∀ key, key ∈ current ↔ key ∈ order) →
      environment.disks = .ok disks →
      buildWaitMetrics current current containers disks reading.retired = .ok report →
      Ends { s with reports := s.reports ++ [report] } s' → Collected s reading order environment s'
  | baseline {current : WaitSnapshot} :
      reading.Returned current → (∀ key, key ∈ current ↔ key ∈ order) → s.previous = none →
      Collected s reading order environment
        (commit s reading current none environment.mapsAvailable)
  | interval {current previous : WaitSnapshot} {containers : UInt64 → Option Container}
      {disks : UInt32 × UInt32 → String} {report : Report} :
      reading.Returned current → (∀ key, key ∈ current ↔ key ∈ order) → s.previous = some previous →
      environment.disks = .ok disks →
      buildWaitMetrics previous current containers disks reading.retired = .ok report →
      Collected s reading order environment
        (commit s reading current (some report) environment.mapsAvailable)

variable {order : List WaitKey}

theorem returned_of_read {mapName : String} {current : WaitSnapshot}
    (hcom : ∀ key ∈ order, ∀ cpu, (reading.words key cpu).isSome)
    (h : readWaitSnapshot mapName cpus (reading.items order) = .ok current) :
    reading.Returned current ∧ ∀ key, key ∈ current ↔ key ∈ order := by
  have hlk := readWaitSnapshot_lookup (fun key cpu => (reading.words key cpu).getD 0) h
  have hmem (key : WaitKey) : key ∈ current ↔ key ∈ order := by
    rw [← AList.lookup_isSome, hlk]
    split <;> simp_all
  refine ⟨fun key hkey => ⟨fun cpu => (reading.words key cpu).getD 0, fun cpu => ?_, ?_⟩, hmem⟩
  · obtain ⟨word, hword⟩ := isSome_iff_exists.1 (hcom key ((hmem key).1 hkey) cpu)
    simp only [hword, getD_some]
  · rw [hlk, if_pos ((hmem key).1 hkey)]

theorem captureWaitSnapshot_collected {environment : Environment}
    (hcom : ∀ key ∈ order, ∀ cpu, (reading.words key cpu).isSome) :
    Collected s reading order environment
      (captureWaitSnapshot collector s reading order environment) := by
  unfold captureWaitSnapshot
  split
  · exact .ended (collectionFailure_ends ..)
  · split
    · exact .retried _
    · exact .ended (collectionFailure_ends ..)
  next current hcur =>
  obtain ⟨hret, hmem⟩ := returned_of_read hcom hcur
  unfold collect
  dsimp only
  split
  · exact .ended (collectionFailure_ends ..)
  split
  · exact .ended (collectionFailure_ends ..)
  next report hrep =>
  unfold buildReport at hrep
  dsimp only at hrep
  split at hrep
  · -- a baseline
    next hbas =>
    cases hrep
    rw [if_neg hbas.2]
    split
    · exact .ended (sessionEnded_ends ..)
    · exact .baseline hret hmem (isNone_iff_eq_none.1 hbas.1)
  next hbas =>
  split at hrep
  · cases hrep
  next disks hdisks =>
  split
  · -- the devices have changed
    next hcha =>
    rw [if_pos hcha] at hrep
    obtain ⟨report, hbuild, rfl⟩ := Loop.map_eq_ok.1 hrep
    exact .changed hret hmem hdisks hbuild (collectionFailure_ends ..)
  · next hcha =>
    split
    · exact .ended (sessionEnded_ends ..)
    obtain ⟨previous, hprev⟩ : ∃ previous, s.previous = some previous :=
      ne_none_iff_exists'.1 fun hnone => hbas ⟨by rw [hnone]; rfl, hcha⟩
    rw [if_neg hcha, hprev] at hrep
    obtain ⟨report, hbuild, rfl⟩ := Loop.map_eq_ok.1 hrep
    exact .interval hret hmem hprev hdisks hbuild

/-! ## All steps -/

inductive Step (s : State cpus) : Action cpus → State cpus → Prop
  | ensure (key : WaitKey) :
      Step s (.ensure key)
        { s with rows := if key ∈ s.rows then s.rows else s.rows.insert key fun _ => 0 }
  | settle {key : WaitKey} {cpu : Fin cpus} {waitNS : UInt64} {words : Fin cpus → UInt64} :
      s.rows.lookup key = some words →
      Step s (.settle key cpu waitNS)
        { s with
          rows := s.rows.insert key (update words cpu (waitAdd (words cpu) waitNS))
          log := s.log ++ [⟨key, cpu, waitNS⟩] }
  | retire (identity : RetiredKey) :
      Step s (.retire identity)
        { s with
          markers := if identity ∈ s.markers then s.markers else s.markers.insert identity 1
          published := identity :: s.published }
  /-- a change that only the checks of an `Update` see -/
  | flags {action : Action cpus} (status : Status) (cancelled : Bool) :
      Step s action { s with status, cancelled }
  | begun : Step s .beginUpdate { s with phase := .retiring [] }
  | dumpMarker {identity : RetiredKey} {retired : List RetiredKey} :
      s.phase = .retiring retired → identity ∈ s.markers →
      Step s (.dumpMarker identity) { s with phase := .retiring (retired.insert identity) }
  | endRetired {retired : List RetiredKey} :
      s.phase = .retiring retired → Step s .endRetired (beginReading s retired 1)
  | readWord {reading : Reading cpus} {key : WaitKey} {cpu : Fin cpus} {words : Fin cpus → UInt64} :
      s.phase = .reading reading → s.rows.lookup key = some words →
      Step s (.readWord key cpu)
        { s with
          phase := .reading
            { reading with
              words := update reading.words key
                (update (reading.words key) cpu (some (words cpu)))
              readAt := update reading.readAt key
                (update (reading.readAt key) cpu s.log.length) } }
  | endSnapshot {s' : State cpus} {reading : Reading cpus} {order : List WaitKey}
      {environment : Environment} :
      s.phase = .reading reading → Collected s reading order environment s' →
      Step s (.endSnapshot order environment) s'
  | ended {s' : State cpus} {action : Action cpus} : Ends s s' → Step s action s'
  | reclaimRow {identity : RetiredKey} {rest : List RetiredKey} {operation : Nat}
      {hasRemaining fault : Bool} :
      s.phase = .reclaiming identity rest operation hasRemaining →
      Step s (.reclaim fault) (reclaimRow s identity rest operation hasRemaining fault)
  | reclaimMarker {identity : RetiredKey} {rest : List RetiredKey} {operation : Nat}
      {hasRemaining fault : Bool} :
      s.phase = .reclaiming identity rest operation hasRemaining →
      Step s (.reclaim fault) (reclaimMarker s identity rest hasRemaining fault)

variable {action : Action cpus}

theorem step_inversion (hstep : step collector s action = some s') : Step s action s' := by
  cases action with simp only [step] at hstep
  | ensure key =>
    cases hstep
    exact .ensure key
  | settle key cpu waitNS =>
    obtain ⟨words, hwords, rfl⟩ := map_eq_some_iff.1 hstep
    exact .settle hwords
  | retire identity =>
    cases hstep
    exact .retire identity
  | bpfFail failure | noteDeviceChange | cancel =>
    cases hstep
    exact .flags _ _
  | beginUpdate =>
    split at hstep <;> cases hstep
    unfold beginUpdate
    split
    · exact .flags _ _
    split
    · exact .ended (collectionFailure_ends ..)
    split
    · exact .ended (collectionFailure_ends ..)
    · exact .begun
  | dumpMarker identity =>
    split at hstep
    · next retired hph =>
      split at hstep <;> cases hstep
      rename_i hmar
      exact .dumpMarker hph hmar
    · cases hstep
  | endRetired =>
    split at hstep <;> cases hstep
    rename_i retired hph
    unfold captureRetired
    split
    · exact .ended (collectionFailure_ends ..)
    · exact .endRetired hph
  | readWord key cpu =>
    split at hstep <;> cases hstep
    rename_i reading words hph hwords
    exact .readWord hph hwords
  | endSnapshot order environment =>
    split at hstep
    · next reading hph =>
      split at hstep <;> cases hstep
      rename_i hcom
      exact .endSnapshot hph (captureWaitSnapshot_collected hcom)
    · cases hstep
  | fail cause => split at hstep <;> cases hstep <;> exact .ended (collectionFailure_ends ..)
  | reclaim fault =>
    split at hstep <;> cases hstep
    rename_i identity rest operation hasRemaining hph
    split
    · exact .reclaimRow hph
    · exact .reclaimMarker hph

/-! ## Records -/

/-- The log, the places and the reports are as they were. -/
structure SameRecords (s s' : State cpus) : Prop where
  log : s'.log = s.log
  base : s'.base = s.base
  lastRead : s'.lastRead = s.lastRead
  reports : s'.reports = s.reports

theorem Ends.sameRecords (h : Ends s s') : SameRecords s s' := by
  obtain ⟨previous, cancelled, -, rfl⟩ := h
  exact ⟨rfl, rfl, rfl, rfl⟩

/-- The log, the places and the reports are changed by settlements and by the end of a snapshot. -/
theorem Step.records (hstep : Step s action s') :
    SameRecords s s' ∨
      (∃ settlement, s'.log = s.log ++ [settlement] ∧ s'.base = s.base ∧
        s'.lastRead = s.lastRead ∧ s'.reports = s.reports) ∨
      ∃ order environment reading, action = .endSnapshot order environment ∧
        s.phase = .reading reading ∧ Collected s reading order environment s' := by
  cases hstep with
  | settle _ => exact .inr (.inl ⟨_, rfl, rfl, rfl, rfl⟩)
  | endSnapshot hph hcol => exact .inr (.inr ⟨_, _, _, rfl, hph, hcol⟩)
  | ended hends => exact .inl hends.sameRecords
  | reclaimRow _ =>
    refine .inl ?_
    unfold IoControl.reclaimRow
    dsimp only
    split
    · exact ⟨rfl, rfl, rfl, rfl⟩
    split <;> exact ⟨rfl, rfl, rfl, rfl⟩
  | _ => exact .inl ⟨rfl, rfl, rfl, rfl⟩

end Huatuo.IoControl
