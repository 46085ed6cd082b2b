import Huatuo.IoControl.Rows
import Mathlib.Algebra.Order.BigOperators.Group.Finset

/-!
# No settlement is lost or reported twice

The intervals of a session report each settlement between the baseline and the last read of its word
once, whatever the interleaving with the programs and whichever deletions fail.

`Rows` holds in every state. A row is deleted only after a snapshot that began when its marker was
there already. Nothing landed in it since then, so its last read was final; that is what `Phase.Inv`
has for the retired identities from the dump of the markers to the last deletion.
-/

namespace Huatuo.IoControl

open Function List Option

variable {cpus : Nat} {collector : Collector} {s s' : State cpus} {reading : Reading cpus}

/-! ## Assumptions -/

/-- The waits between two reads of a word fit into its fields. -/
def withinModuli (waits : List UInt64) : Bool := waits.length < 2 ^ 26 ∧ units waits < 2 ^ 38

/-- No identity is settled after its marker is published. A dump of the counters returns the rows
that are there all the time. The devices have names, and between two reads of a word the moduli are
not reached. -/
def assumed (s : State cpus) : Action cpus → Bool
  | .settle key _ _ => retiredIdentity key ∉ s.published
  | .endSnapshot order environment =>
    match s.phase with
    | .reading reading =>
      (∀ key ∈ reading.present, key ∈ order) ∧
        (∀ disks, environment.disks.toOption = some disks →
          ∀ key ∈ order, disks (key.major, key.minor) ≠ "") ∧
        (s.previous.isSome → ∀ key ∈ order, ∀ cpu,
          withinModuli (landed s.log (s.lastRead key cpu) (reading.readAt key cpu) key cpu))
    | _ => true
  | _ => true

/-! ## The invariant -/

/-- The last reads of the rows of these identities were final. -/
structure Final (retired : List RetiredKey) (log : List (Settlement cpus))
    (previous : Option WaitSnapshot) (lastRead : WaitKey → Fin cpus → Nat)
    (published : List RetiredKey) : Prop where
  published : ∀ identity ∈ retired, identity ∈ published
  since_eq_nil : ∀ p, previous = some p → ∀ key ∈ p, retiredIdentity key ∈ retired →
    ∀ cpu, since log (lastRead key cpu) key cpu = []

def Phase.Inv (rows : AList fun _ : WaitKey => Fin cpus → UInt64) (log : List (Settlement cpus))
    (previous : Option WaitSnapshot) (lastRead : WaitKey → Fin cpus → Nat)
    (published : List RetiredKey) : Phase cpus → Prop
  | .idle => True
  | .retiring retired => ∀ identity ∈ retired, identity ∈ published
  | .reading reading => reading.Inv rows log previous lastRead published
  | .reclaiming identity rest _ _ => Final (identity :: rest) log previous lastRead published

structure State.Inv (s : State cpus) : Prop where
  rows : Rows s.rows s.log s.previous s.lastRead
  markers : ∀ identity ∈ s.markers, identity ∈ s.published
  phase : s.phase.Inv s.rows s.log s.previous s.lastRead s.published

theorem inv_init : (({} : State cpus)).Inv where
  rows :=
    { place _ _ := Nat.le_refl 0
      absent key cpu _ := since_length [] key cpu
      dropped := by
        rintro key _ _ ⟨⟩ _
        exact AList.notMem_empty key
      word := by
        rintro key _ _ ⟨⟩ hkey
        exact absurd hkey (AList.notMem_empty key) }
  markers identity h := absurd h (AList.notMem_empty identity)
  phase := trivial

theorem State.Inv.ends (h : s.Inv) (hends : Ends s s') : s'.Inv := by
  obtain ⟨previous, cancelled, hprev, rfl⟩ := hends
  refine ⟨?_, h.markers, trivial⟩
  obtain rfl | rfl := hprev
  · exact h.rows
  · exact h.rows.forget

variable {retired : List RetiredKey}

theorem State.Inv.beginReading (h : s.Inv) (hreti : ∀ identity ∈ retired, identity ∈ s.published)
    (attempt : Nat) : (beginReading s retired attempt).Inv :=
  ⟨h.rows, h.markers, h.rows.beginReading hreti attempt⟩

variable {key : WaitKey}

theorem Final.settle (h : Final retired s.log s.previous s.lastRead s.published)
    (hrows : Rows s.rows s.log s.previous s.lastRead) (hkey : retiredIdentity key ∉ s.published)
    (cpu : Fin cpus) (waitNS : UInt64) :
    Final retired (s.log ++ [⟨key, cpu, waitNS⟩]) s.previous s.lastRead s.published where
  published := h.published
  since_eq_nil p hp key' hkey' hreti cpu' := by
    have hne : key ≠ key' := fun heq => hkey (heq ▸ h.published _ hreti)
    rw [since_concat_of_ne (hrows.place key' cpu') hne]
    exact h.since_eq_nil p hp key' hkey' hreti cpu'

theorem State.Inv.ensure (h : s.Inv) (key : WaitKey) :
    State.Inv { s with rows := if key ∈ s.rows then s.rows else s.rows.insert key fun _ => 0 } := by
  refine ⟨h.rows.ensure key, h.markers, ?_⟩
  have hph := h.phase
  dsimp only
  cases hs : s.phase with
  | idle => exact trivial
  | retiring retired | reclaiming identity rest operation hasRemaining => rwa [hs] at hph
  | reading reading =>
    rw [hs] at hph
    exact Reading.Inv.ensure hph key

theorem State.Inv.settle {words : Fin cpus → UInt64} (h : s.Inv)
    (hwords : s.rows.lookup key = some words) (hkey : retiredIdentity key ∉ s.published)
    (cpu : Fin cpus) (waitNS : UInt64) :
    State.Inv
      { s with
        rows := s.rows.insert key (update words cpu (waitAdd (words cpu) waitNS))
        log := s.log ++ [⟨key, cpu, waitNS⟩] } := by
  refine ⟨h.rows.settle hwords cpu waitNS, h.markers, ?_⟩
  have hph := h.phase
  dsimp only
  cases hs : s.phase with
  | idle => exact trivial
  | retiring retired => rwa [hs] at hph
  | reading reading =>
    rw [hs] at hph
    exact Reading.Inv.settle hph hwords hkey cpu waitNS
  | reclaiming identity rest operation hasRemaining =>
    rw [hs] at hph
    exact Final.settle hph h.rows hkey cpu waitNS

theorem State.Inv.retire (h : s.Inv) (identity : RetiredKey) :
    State.Inv
      { s with
        markers := if identity ∈ s.markers then s.markers else s.markers.insert identity 1
        published := identity :: s.published } := by
  refine ⟨h.rows, fun identity' hmem => ?_, ?_⟩
  · dsimp only at hmem ⊢
    split at hmem
    · exact mem_cons_of_mem _ (h.markers _ hmem)
    obtain rfl | hmem := (AList.mem_insert _).1 hmem
    · exact mem_cons_self ..
    · exact mem_cons_of_mem _ (h.markers _ hmem)
  · have hph := h.phase
    dsimp only
    cases hs : s.phase with rw [hs] at hph
    | idle => exact trivial
    | retiring retired => exact fun identity' hmem => mem_cons_of_mem _ (hph identity' hmem)
    | reading reading =>
      have hrea : reading.Inv s.rows s.log s.previous s.lastRead s.published := hph
      exact { hrea with
        published := fun identity' hmem => mem_cons_of_mem _ (hrea.published identity' hmem) }
    | reclaiming identity' rest operation hasRemaining =>
      have hfinal : Final (identity' :: rest) s.log s.previous s.lastRead s.published := hph
      exact { hfinal with
        published := fun identity' hmem => mem_cons_of_mem _ (hfinal.published identity' hmem) }

theorem Final.reclaim {retired : List RetiredKey} {log : List (Settlement cpus)}
    {previous : Option WaitSnapshot} {lastRead : WaitKey → Fin cpus → Nat}
    {published : List RetiredKey} {rows : AList fun _ : WaitKey => Fin cpus → UInt64}
    (h : Final retired log previous lastRead published) :
    (Phase.reclaim retired).Inv rows log previous lastRead published := by
  cases retired with
  | nil => exact trivial
  | cons identity rest => exact h

theorem State.Inv.commit {current : WaitSnapshot} {report : Option Report} (h : s.Inv)
    (hph : s.phase = .reading reading) (hcur : reading.Returned current)
    (hpre : ∀ key ∈ reading.present, key ∈ current) (hrpr : report.isSome → s.previous.isSome)
    (mapsAvailable : Bool) : (commit s reading current report mapsAvailable).Inv := by
  have hrea : reading.Inv s.rows s.log s.previous s.lastRead s.published := by
    have := h.phase
    rwa [hph] at this
  -- a row of the baseline that belongs to a retired identity was read after the dump began
  have hfinal (absent : WaitKey → Fin cpus → Nat) : Final reading.retired s.log (some current)
      (fun key cpu => if key ∈ current then reading.readAt key cpu else absent key cpu)
        s.published := by
    refine ⟨hrea.published, ?_⟩
    rintro _ ⟨⟩ key hkey hreti cpu
    obtain ⟨words, hwords, -⟩ := hcur key hkey
    rw [if_pos hkey]
    exact since_eq_nil_of_le (hrea.started_le_readAt (hwords cpu)) (hrea.readAt_le (hwords cpu))
      (hrea.final key cpu hreti)
  have hph' (absent : WaitKey → Fin cpus → Nat) :
      (if mapsAvailable then Phase.reclaim reading.retired else .idle).Inv s.rows s.log
        (some current)
        (fun key cpu => if key ∈ current then reading.readAt key cpu else absent key cpu)
        s.published := by
    split
    · exact (hfinal absent).reclaim
    · exact trivial
  cases report with
  | none =>
    exact ⟨hrea.commit h.rows hcur hpre (.inl rfl), h.markers, hph' _⟩
  | some report =>
    exact ⟨hrea.commit h.rows hcur hpre (.inr ⟨rfl, hrpr rfl⟩), h.markers, hph' _⟩

theorem retiredIdentity_waitKey (identity : RetiredKey) (operation : Nat) :
    retiredIdentity (identity.waitKey operation) = identity := rfl

variable {identity : RetiredKey} {rest : List RetiredKey} {operation : Nat} {hasRemaining : Bool}

theorem State.Inv.reclaimRow (h : s.Inv)
    (hph : s.phase = .reclaiming identity rest operation hasRemaining) (fault : Bool) :
    (reclaimRow s identity rest operation hasRemaining fault).Inv := by
  have hfinal : Final (identity :: rest) s.log s.previous s.lastRead s.published := by
    have := h.phase
    rwa [hph] at this
  unfold IoControl.reclaimRow
  dsimp only
  split
  · exact ⟨h.rows, h.markers, hfinal⟩
  next hkey =>
  cases hprev : s.previous with
  | none =>
    rw [hprev] at hkey
    exact absurd (AList.notMem_empty _) hkey
  | some p =>
    rw [hprev, getD_some, not_not] at hkey
    cases fault with
    | true =>
      have hrows := h.rows
      rw [hprev] at hrows hfinal
      exact ⟨hrows, h.markers, hfinal⟩
    | false =>
      have herr : ¬((deleteMapItem s.rows (identity.waitKey operation) false).2 ≠ none ∧
          (deleteMapItem s.rows (identity.waitKey operation) false).2 ≠ some .enoent) := by
        unfold deleteMapItem
        rw [if_neg Bool.false_ne_true]
        split <;> simp
      obtain ⟨hmem, hlk⟩ := deleteMapItem_ok s.rows (identity.waitKey operation)
      rw [if_neg herr]
      have hrows := h.rows
      rw [hprev] at hrows hfinal
      have hsince := hfinal.since_eq_nil p rfl _ hkey
        (retiredIdentity_waitKey identity operation ▸ mem_cons_self ..)
      refine ⟨hrows.delete hsince hmem hlk, h.markers, hfinal.published, ?_⟩
      rintro _ ⟨⟩ key hkey
      exact hfinal.since_eq_nil p rfl key (AList.mem_erase.1 hkey).2

theorem State.Inv.reclaimMarker (h : s.Inv)
    (hph : s.phase = .reclaiming identity rest operation hasRemaining) (fault : Bool) :
    (reclaimMarker s identity rest hasRemaining fault).Inv := by
  have hfinal : Final (identity :: rest) s.log s.previous s.lastRead s.published := by
    have := h.phase
    rwa [hph] at this
  refine ⟨h.rows, fun identity' hmem => ?_, Final.reclaim ⟨?_, ?_⟩⟩
  · unfold IoControl.reclaimMarker at hmem
    dsimp only at hmem
    split at hmem
    · exact h.markers _ hmem
    · exact h.markers _ (mem_of_mem_deleteMapItem hmem)
  · exact fun identity' hmem => hfinal.published identity' (mem_cons_of_mem _ hmem)
  · exact fun p hp key hkey hreti =>
      hfinal.since_eq_nil p hp key hkey (mem_cons_of_mem _ hreti)

variable {order : List WaitKey} {environment : Environment}

theorem assumed_endSnapshot (h : assumed s (.endSnapshot order environment))
    (hph : s.phase = .reading reading) :
    (∀ key ∈ reading.present, key ∈ order) ∧
      (∀ disks, environment.disks = .ok disks → ∀ key ∈ order, disks (key.major, key.minor) ≠ "") ∧
      (s.previous.isSome → ∀ key ∈ order, ∀ cpu,
        withinModuli (landed s.log (s.lastRead key cpu) (reading.readAt key cpu) key cpu)) := by
  simp only [assumed, hph, decide_eq_true_eq] at h
  exact ⟨h.1, fun disks hdisks => h.2.1 disks (by rw [hdisks]; rfl), h.2.2⟩

theorem State.Inv.collected (h : s.Inv) (hph : s.phase = .reading reading)
    (hpre : ∀ key ∈ reading.present, key ∈ order)
    (hcol : Collected s reading order environment s') : s'.Inv := by
  cases hcol with
  | ended hends => exact h.ends hends
  | retried attempt =>
    have hrea := h.phase
    rw [hph] at hrea
    exact h.beginReading hrea.published attempt
  | changed _ _ _ _ hends =>
    refine State.Inv.ends ?_ hends
    exact ⟨h.rows, h.markers, h.phase⟩
  | baseline hret hmem hprev =>
    refine h.commit hph hret (fun key hkey => (hmem key).2 (hpre key hkey)) (fun hsome => ?_) _
    cases hsome
  | interval hret hmem hprev _ _ =>
    exact h.commit hph hret (fun key hkey => (hmem key).2 (hpre key hkey))
      (fun _ => hprev ▸ rfl) _

theorem State.Inv.step {action : Action cpus} (h : s.Inv) (hassumed : assumed s action)
    (hstep : Step s action s') : s'.Inv := by
  have hph := h.phase
  cases hstep with
  | ensure key => exact h.ensure key
  | settle hwords => exact h.settle hwords (of_decide_eq_true hassumed) _ _
  | retire identity => exact h.retire identity
  | flags status cancelled => exact ⟨h.rows, h.markers, hph⟩
  | begun => exact ⟨h.rows, h.markers, fun _ hmem => absurd hmem not_mem_nil⟩
  | dumpMarker hs hmar =>
    rw [hs] at hph
    refine ⟨h.rows, h.markers, fun identity' hmem => ?_⟩
    obtain rfl | hmem := mem_insert_iff.1 hmem
    · exact h.markers _ hmar
    · exact hph identity' hmem
  | endRetired hs =>
    rw [hs] at hph
    exact h.beginReading hph 1
  | readWord hs hwords =>
    rw [hs] at hph
    exact ⟨h.rows, h.markers, Reading.Inv.readWord hph h.rows hwords _⟩
  | endSnapshot hs hcol => exact h.collected hs (assumed_endSnapshot hassumed hs).1 hcol
  | ended hends => exact h.ends hends
  | reclaimRow hs => exact h.reclaimRow hs _
  | reclaimMarker hs => exact h.reclaimMarker hs _

theorem inv_of_reachable (h : Runs.Reachable (Runs.restrict assumed (step collector)) {} s) :
    s.Inv :=
  h.invariant inv_init fun _ _ _ _ hinv hstep =>
    let ⟨hassumed, hstep⟩ := Runs.restrict_eq_some.1 hstep
    hinv.step hassumed (step_inversion hstep)

/-! ## Totals -/

/-- The sum of a counter over all intervals. -/
def reported (counter : WaitCounters → UInt64) (reports : List Report) (key : WaitKey) : Nat :=
  (((reports.flatMap Report.deltas).filter fun delta => delta.key = key).map fun delta =>
    (counter delta.counters).toNat).sum

variable {counter : WaitCounters → UInt64} {reports : List Report} {report : Report} {key : WaitKey}
  {previous current : WaitSnapshot}

theorem reported_concat (counter : WaitCounters → UInt64) (reports : List Report) (report : Report)
    (key : WaitKey) :
    reported counter (reports ++ [report]) key =
      reported counter reports key + reported counter [report] key := by
  unfold reported
  rw [flatMap_append, filter_append, map_append, sum_append]

theorem reported_of_notMem (h : Covers previous current.entries report.deltas)
    (hkey : key ∉ current) : reported counter [report] key = 0 := by
  have hfil : (report.deltas.filter fun delta => delta.key = key) = [] := by
    rw [filter_eq_nil_iff]
    intro delta hdelta heq
    obtain ⟨counters, hmem, -⟩ := h.counters delta hdelta
    exact hkey (of_decide_eq_true heq ▸ mem_keys_of_mem hmem)
  rw [reported, flatMap_singleton, hfil]
  rfl

/-- A key has one difference in an interval. -/
theorem reported_of_lookup {counters : List WaitCounters}
    (h : Covers previous current.entries report.deltas) (hlk : current.lookup key = some counters) :
    ∃ delta, deltaWaitCounters (previous.lookup key) counters = .ok delta ∧
      ∀ counter, reported counter [report] key = (counter delta).toNat := by
  have hkey : key ∈ report.deltas.map Delta.key := by
    rw [h.keys]
    exact AList.lookup_isSome.1 (hlk ▸ rfl)
  have hnd : (report.deltas.map Delta.key).Nodup := by
    rw [h.keys]
    exact current.keys_nodup
  obtain ⟨delta, hdelta, rfl⟩ := mem_map.1 hkey
  obtain ⟨counters', hmem, hcou⟩ := h.counters delta hdelta
  obtain rfl : counters = counters' :=
    Option.some.inj (hlk.symm.trans (AList.mem_lookup_iff.2 hmem))
  refine ⟨delta.counters, hcou, fun counter => ?_⟩
  rw [reported, flatMap_singleton, Series.filter_key hnd hdelta, map_singleton,
    sum_singleton]

/-- What an interval reports for a row: the waits between two reads of its words. -/
theorem interval_reported (h : s.Inv) (hph : s.phase = .reading reading)
    (hret : reading.Returned current)
    (hprev : s.previous = some previous) (hcov : Covers previous current.entries report.deltas)
    (hkey : key ∈ current)
    (hmod : ∀ cpu,
      withinModuli (landed s.log (s.lastRead key cpu) (reading.readAt key cpu) key cpu)) :
    reported WaitCounters.ioCount [report] key =
        (∑ cpu, (landed s.log (s.lastRead key cpu) (reading.readAt key cpu) key cpu).length)
          % 2 ^ 64 ∧
      reported WaitCounters.wait10US [report] key =
        (∑ cpu, units (landed s.log (s.lastRead key cpu) (reading.readAt key cpu) key cpu)) %
          2 ^ 64 := by
  have hrea : reading.Inv s.rows s.log s.previous s.lastRead s.published := by
    have := h.phase
    rwa [hph] at this
  obtain ⟨words, hwords, hlk⟩ := hret key hkey
  obtain ⟨delta, hdelta, hrep⟩ := reported_of_lookup hcov hlk
  choose old hold hword using fun cpu => hrea.old previous hprev (hwords cpu)
  simp only [hword] at hdelta
  have hmod' (cpu : Fin cpus) := of_decide_eq_true (hmod cpu)
  rw [hrep, hrep]
  exact deltaWaitCounters_foldl hold (fun cpu => (hmod' cpu).1) (fun cpu => (hmod' cpu).2) hdelta

/-- The metrics of changed devices are zero. -/
theorem reported_changed (h : Covers current current.entries report.deltas)
    (hcoun : counter 0 = 0) :
    reported counter [report] key = 0 := by
  cases hlk : current.lookup key with
  | none => exact reported_of_notMem h (AList.lookup_eq_none.1 hlk)
  | some counters =>
    obtain ⟨delta, hdelta, hrep⟩ := reported_of_lookup h hlk
    rw [hlk] at hdelta
    rw [hrep, deltaWaitCounters_self hdelta, hcoun]
    rfl

/-- The reports have what landed between the baseline and the last read. -/
structure Totals (log : List (Settlement cpus)) (base lastRead : WaitKey → Fin cpus → Nat)
    (reports : List Report) : Prop where
  base_le (key : WaitKey) (cpu : Fin cpus) : base key cpu ≤ lastRead key cpu
  count (key : WaitKey) : reported WaitCounters.ioCount reports key =
    ∑ cpu, (landed log (base key cpu) (lastRead key cpu) key cpu).length
  wait (key : WaitKey) : reported WaitCounters.wait10US reports key =
    ∑ cpu, units (landed log (base key cpu) (lastRead key cpu) key cpu)
  balanced : ∀ report ∈ reports, Balanced report

theorem Totals.settle (h : Totals s.log s.base s.lastRead s.reports) (hinv : s.Inv)
    (settlement : Settlement cpus) :
    Totals (s.log ++ [settlement]) s.base s.lastRead s.reports where
  base_le := h.base_le
  count key := by
    rw [h.count key]
    exact Finset.sum_congr rfl fun cpu _ => by rw [landed_concat (hinv.rows.place key cpu)]
  wait key := by
    rw [h.wait key]
    exact Finset.sum_congr rfl fun cpu _ => by rw [landed_concat (hinv.rows.place key cpu)]
  balanced := h.balanced

/-- A report of nothing. -/
theorem Totals.changed (h : Totals s.log s.base s.lastRead s.reports)
    (hcov : Covers current current.entries report.deltas) (hbal : Balanced report) :
    Totals s.log s.base s.lastRead (s.reports ++ [report]) where
  base_le := h.base_le
  count key := by rw [reported_concat, reported_changed hcov rfl, Nat.add_zero, h.count]
  wait key := by rw [reported_concat, reported_changed hcov rfl, Nat.add_zero, h.wait]
  balanced r hr := (mem_append.1 hr).elim (h.balanced r) fun hr =>
    mem_singleton.1 hr ▸ hbal

theorem Totals.baseline (log : List (Settlement cpus)) (base : WaitKey → Fin cpus → Nat) :
    Totals log base base [] where
  base_le _ _ := Nat.le_refl _
  count key := by simp [reported, landed_self]
  wait key := by simp [reported, landed_self]
  balanced _ hr := absurd hr not_mem_nil

/-- A sum over the CPUs fits into 64 bits. -/
theorem sum_lt (hcpus : cpus ≤ 2 ^ 26) {f : Fin cpus → Nat} (h : ∀ cpu, f cpu < 2 ^ 38) :
    ∑ cpu, f cpu < 2 ^ 64 := by
  have hsum : ∑ cpu, f cpu ≤ (Finset.univ : Finset (Fin cpus)).card • (2 ^ 38 - 1) :=
    Finset.sum_le_card_nsmul _ _ _ fun cpu _ => Nat.le_sub_one_of_lt (h cpu)
  rw [Finset.card_univ, Fintype.card_fin, smul_eq_mul] at hsum
  omega

theorem sum_lt_of_withinModuli (hcpus : cpus ≤ 2 ^ 26) {waits : Fin cpus → List UInt64}
    (h : ∀ cpu, withinModuli (waits cpu)) :
    ∑ cpu, (waits cpu).length < 2 ^ 64 ∧ ∑ cpu, units (waits cpu) < 2 ^ 64 := by
  have hlane (cpu : Fin cpus) := of_decide_eq_true (h cpu)
  exact ⟨sum_lt hcpus fun cpu => (hlane cpu).1.trans (by decide),
    sum_lt hcpus fun cpu => (hlane cpu).2⟩

theorem Totals.interval (h : Totals s.log s.base s.lastRead s.reports) (hcpus : cpus ≤ 2 ^ 26)
    (hinv : s.Inv) (hph : s.phase = .reading reading) (hret : reading.Returned current)
    (hprev : s.previous = some previous) (hcov : Covers previous current.entries report.deltas)
    (hbal : Balanced report) (hmod : ∀ key ∈ current, ∀ cpu,
      withinModuli (landed s.log (s.lastRead key cpu) (reading.readAt key cpu) key cpu)) :
    Totals s.log s.base
      (fun key cpu => if key ∈ current then reading.readAt key cpu else s.lastRead key cpu)
      (s.reports ++ [report]) := by
  have hrea : reading.Inv s.rows s.log s.previous s.lastRead s.published := by
    have := hinv.phase
    rwa [hph] at this
  have hlastRead (key : WaitKey) (hkey : key ∈ current) (cpu : Fin cpus) :
      s.lastRead key cpu ≤ reading.readAt key cpu := by
    obtain ⟨words, hwords, -⟩ := hret key hkey
    exact (hrea.lastRead_le key cpu).trans (hrea.started_le_readAt (hwords cpu))
  have hsplit (key : WaitKey) (hkey : key ∈ current) (cpu : Fin cpus) :
      landed s.log (s.base key cpu) (reading.readAt key cpu) key cpu =
        landed s.log (s.base key cpu) (s.lastRead key cpu) key cpu ++
          landed s.log (s.lastRead key cpu) (reading.readAt key cpu) key cpu :=
    (landed_append (h.base_le key cpu) (hlastRead key hkey cpu)).symm
  refine ⟨fun key cpu => ?_, fun key => ?_, fun key => ?_, fun r hr => ?_⟩
  · split
    · next hkey => exact (h.base_le key cpu).trans (hlastRead key hkey cpu)
    · exact h.base_le key cpu
  · rw [reported_concat, h.count]
    by_cases hkey : key ∈ current
    · have hrep := (interval_reported hinv hph hret hprev hcov hkey
        (hmod key hkey)).1
      rw [hrep, Nat.mod_eq_of_lt (sum_lt_of_withinModuli hcpus (hmod key hkey)).1,
        ← Finset.sum_add_distrib]
      exact Finset.sum_congr rfl fun cpu _ => by rw [if_pos hkey, hsplit key hkey, length_append]
    · simp only [reported_of_notMem hcov hkey, if_neg hkey, Nat.add_zero]
  · rw [reported_concat, h.wait]
    by_cases hkey : key ∈ current
    · have hrep := (interval_reported hinv hph hret hprev hcov hkey
        (hmod key hkey)).2
      rw [hrep, Nat.mod_eq_of_lt (sum_lt_of_withinModuli hcpus (hmod key hkey)).2,
        ← Finset.sum_add_distrib]
      exact Finset.sum_congr rfl fun cpu _ => by rw [if_pos hkey, hsplit key hkey, units_append]
    · simp only [reported_of_notMem hcov hkey, if_neg hkey, Nat.add_zero]
  · exact (mem_append.1 hr).elim (h.balanced r) fun hr => mem_singleton.1 hr ▸ hbal

theorem Totals.collected (h : Totals s.log s.base s.lastRead s.reports) (hcpus : cpus ≤ 2 ^ 26)
    (hinv : s.Inv) (hph : s.phase = .reading reading)
    (hassumed : assumed s (.endSnapshot order environment))
    (hcol : Collected s reading order environment s') :
    Totals s'.log s'.base s'.lastRead s'.reports := by
  obtain ⟨-, hnamed, hmod⟩ := assumed_endSnapshot hassumed hph
  cases hcol with
  | ended hends =>
    obtain ⟨hlog, hbase, hlastRead, hrepo⟩ := hends.sameRecords
    rwa [hlog, hbase, hlastRead, hrepo]
  | retried attempt => exact h
  | changed _ hmem hdisks hbuild hends =>
    obtain ⟨hlog, hbase, hlastRead, hrepo⟩ := hends.sameRecords
    rw [hlog, hbase, hlastRead, hrepo]
    have hdiskNames := fun key hkey => hnamed _ hdisks key ((hmem key).1 hkey)
    exact h.changed (buildWaitMetrics_covers hdiskNames hbuild) (buildWaitMetrics_balanced hbuild)
  | baseline _ _ _ => exact Totals.baseline ..
  | interval hret hmem hprev hdisks hbuild =>
    refine h.interval hcpus hinv hph hret hprev (buildWaitMetrics_covers
      (fun key hkey => hnamed _ hdisks key ((hmem key).1 hkey)) hbuild)
      (buildWaitMetrics_balanced hbuild) fun key hkey => ?_
    exact hmod (hprev ▸ rfl) key ((hmem key).1 hkey)

theorem totals_of_reachable (hcpus : cpus ≤ 2 ^ 26)
    (h : Runs.Reachable (Runs.restrict assumed (step collector)) {} s) :
    Totals s.log s.base s.lastRead s.reports := by
  refine @Runs.Reachable.invariant _ _ _ _ (fun s => Totals s.log s.base s.lastRead s.reports)
    (Totals.baseline ..) (fun s action s' hreach htot hstep => ?_) _ h
  obtain ⟨hassumed, hstep⟩ := Runs.restrict_eq_some.1 hstep
  have hinv := inv_of_reachable hreach
  obtain ⟨hlog, hbase, hlastRead, hrepo⟩ | ⟨settlement, hlog, hbase, hlastRead, hrepo⟩ |
    ⟨order, environment, reading, rfl, hph, hcol⟩ := (step_inversion hstep).records
  · rwa [hlog, hbase, hlastRead, hrepo]
  · rw [hlog, hbase, hlastRead, hrepo]
    exact htot.settle hinv settlement
  · exact htot.collected hcpus hinv hph hassumed hcol

/-- **Conservation.** After any run, the intervals since the baseline report for each key what
landed in its words between the baseline and their last reads. A row that is not in the map has
nothing that landed after its last read. In each interval the host series are the sums of the other
and the container series, and of the differences of the keys. -/
theorem waits_conserved (hcpus : cpus ≤ 2 ^ 26)
    (h : Runs.Reachable (Runs.restrict assumed (step collector)) {} s) :
    (∀ key,
      reported WaitCounters.ioCount s.reports key =
          ∑ cpu, (landed s.log (s.base key cpu) (s.lastRead key cpu) key cpu).length ∧
        reported WaitCounters.wait10US s.reports key =
          ∑ cpu, units (landed s.log (s.base key cpu) (s.lastRead key cpu) key cpu) ∧
        (key ∉ s.rows → ∀ cpu, landed s.log (s.lastRead key cpu) s.log.length key cpu = [])) ∧
      ∀ report ∈ s.reports, ∀ series,
        Series.get id report.intervals.host series =
            Series.get id report.intervals.other series +
              Series.total ContainerWait.counters (fun key => key.deviceOperation = series)
                report.intervals.containers ∧
          Series.get id report.intervals.host series =
            ((report.deltas.filter fun delta => delta.series = series).map Delta.counters).sum := by
  have hinv := inv_of_reachable h
  have htotals := totals_of_reachable hcpus h
  refine ⟨fun key => ⟨htotals.count key, htotals.wait key, fun hkey cpu => ?_⟩,
    fun report hreport series => ?_⟩
  · exact hinv.rows.absent key cpu hkey
  · have hbalanced := htotals.balanced report hreport
    exact ⟨hbalanced.split series, hbalanced.host series⟩

def readKey : WaitKey where
  css := 1
  cssSerial := 1
  major := 8
  minor := 0
  operation := 0

def diskNames : Environment where
  disks := .ok fun _ => "sda"

/-- An `Update` that reads the row of `readKey` on two CPUs. -/
def readUpdate (retired : List RetiredKey) : List (Action 2) :=
  Action.beginUpdate :: retired.map Action.dumpMarker ++
    [Action.endRetired, .readWord readKey 0, .readWord readKey 1, .endSnapshot [readKey] diskNames]

/-- A row that is settled on both CPUs and retired. Its deletion fails in one `Update`, and that of
its marker in the next. -/
theorem waits_conserved_reclaimed :
    ∃ s : State 2, Runs.Reachable (Runs.restrict assumed (step .blkThrotl)) {} s ∧
      readKey ∉ s.rows ∧
      s.reports.length = 3 ∧
      ∑ cpu, (landed s.log (s.base readKey cpu) (s.lastRead readKey cpu) readKey cpu).length = 2 ∧
      ∑ cpu, units (landed s.log (s.base readKey cpu) (s.lastRead readKey cpu) readKey cpu) = 5 ∧
      ∀ cpu, landed s.log (s.lastRead readKey cpu) s.log.length readKey cpu = [] := by
  have hrun : ((Runs.run (Runs.restrict assumed (step .blkThrotl)) ({} : State 2)
      (List.flatten [[.ensure readKey, .settle readKey 0 25000], readUpdate [],
        [.settle readKey 1 35000, .retire (retiredIdentity readKey)],
        readUpdate [retiredIdentity readKey], [.reclaim true, .reclaim false, .reclaim false],
        readUpdate [retiredIdentity readKey], [.reclaim false, .reclaim false, .reclaim true]])).map
          fun s =>
      (decide (readKey ∈ s.rows), s.reports.length, reported WaitCounters.ioCount s.reports readKey,
        reported WaitCounters.wait10US s.reports readKey)) = some (false, 3, 2, 5) := by
    decide +kernel
  obtain ⟨s, hs, heq⟩ := map_eq_some_iff.1 hrun
  simp only [Prod.mk.injEq, decide_eq_false_iff_not] at heq
  obtain ⟨hrows, hlength, hcount, hwait⟩ := heq
  obtain ⟨hcount', hwait', hfinal⟩ := (waits_conserved (by decide) ⟨_, hs⟩).1 readKey
  exact ⟨s, ⟨_, hs⟩, hrows, hlength, hcount' ▸ hcount, hwait' ▸ hwait, hfinal hrows⟩

/-! ## More CPUs than the sums have room for

The waits of a row are added up over the CPUs in 64 bits, which is enough for 2^26 CPUs. With one
more, a single settlement on each can overflow the sum. -/

section Overflow

/-- A wait of 2^38 - 1 units. -/
def longWait : UInt64 := 2748779069430000

theorem reachable_settles (collector : Collector) (l : List (Fin cpus)) (hkey : readKey ∈ s.rows)
    (hpub : s.published = []) (hkeys : ∀ key ∈ s.rows, key = readKey) :
    ∃ rows : AList fun _ : WaitKey => Fin cpus → UInt64,
      Runs.Reachable (Runs.restrict assumed (step collector)) s
        { s with rows, log := s.log ++ l.map fun cpu => ⟨readKey, cpu, longWait⟩ } ∧
      readKey ∈ rows ∧ ∀ key ∈ rows, key = readKey := by
  induction l generalizing s with
  | nil => exact ⟨s.rows, by simpa using Runs.Reachable.refl s, hkey, hkeys⟩
  | cons cpu l ih =>
    obtain ⟨words, hwords⟩ := isSome_iff_exists.1 (AList.lookup_isSome.2 hkey)
    have hstep : Runs.restrict assumed (step collector) s (.settle readKey cpu longWait) = some
        { s with
          rows := s.rows.insert readKey (update words cpu (waitAdd (words cpu) longWait))
          log := s.log ++ [⟨readKey, cpu, longWait⟩] } :=
      Runs.restrict_eq_some.2 ⟨by simp [assumed, hpub], by simp [step, hwords]⟩
    obtain ⟨rows, hreach, hrows⟩ := ih (s := { s with
      rows := s.rows.insert readKey (update words cpu (waitAdd (words cpu) longWait))
      log := s.log ++ [⟨readKey, cpu, longWait⟩] })
      ((mem_insert_of_mem hwords _).2 hkey) hpub
      fun key hmem => hkeys key ((mem_insert_of_mem hwords _).1 hmem)
    refine ⟨rows, ?_, hrows⟩
    simpa using ((Runs.Reachable.refl s).next hstep).trans hreach

theorem reachable_reads (collector : Collector) (l : List (Fin cpus)) (hkey : readKey ∈ s.rows)
    (hph : s.phase = .reading reading) :
    ∃ reading' : Reading cpus,
      Runs.Reachable (Runs.restrict assumed (step collector)) s
        { s with phase := .reading reading' } ∧
      reading'.retired = reading.retired ∧ reading'.present = reading.present ∧
      ∀ cpu, cpu ∈ l ∨
          (reading.words readKey cpu).isSome ∧ reading.readAt readKey cpu = s.log.length →
        (reading'.words readKey cpu).isSome ∧ reading'.readAt readKey cpu = s.log.length := by
  induction l generalizing s reading with
  | nil =>
    refine ⟨reading, ?_, rfl, rfl, fun cpu h => h.resolve_left not_mem_nil⟩
    rw [← hph]
    exact Runs.Reachable.refl s
  | cons cpu l ih =>
    obtain ⟨words, hwords⟩ := isSome_iff_exists.1 (AList.lookup_isSome.2 hkey)
    have hstep : Runs.restrict assumed (step collector) s (.readWord readKey cpu) = some
        { s with
          phase := .reading
            { reading with
              words := update reading.words readKey
                (update (reading.words readKey) cpu (some (words cpu)))
              readAt := update reading.readAt readKey
                (update (reading.readAt readKey) cpu s.log.length) } } :=
      Runs.restrict_eq_some.2 ⟨rfl, by simp [step, hwords, hph]⟩
    obtain ⟨reading', hreach, hreti, hpre, hread⟩ := ih
      (s := { s with
        phase := .reading
          { reading with
            words := update reading.words readKey
              (update (reading.words readKey) cpu (some (words cpu)))
            readAt := update reading.readAt readKey
              (update (reading.readAt readKey) cpu s.log.length) } }) hkey rfl
    refine ⟨reading', ((Runs.Reachable.refl s).next hstep).trans hreach, hreti, hpre, ?_⟩
    intro cpu' hcpu'
    refine hread cpu' ?_
    by_cases heq : cpu' = cpu
    · subst heq
      exact .inr (by simp)
    · obtain hmem | hold := hcpu'
      · exact .inl ((mem_cons.1 hmem).resolve_left heq)
      · exact .inr (by simpa [heq] using hold)

/-- A settlement on each CPU. -/
def onceEach (cpus : Nat) : List (Settlement cpus) :=
  (List.finRange cpus).map fun cpu => ⟨readKey, cpu, longWait⟩

theorem since_onceEach (cpu : Fin cpus) : since (onceEach cpus) 0 readKey cpu = [longWait] := by
  have hfil := Series.filter_key (f := id) (a := cpu) (l := List.finRange cpus)
    (by simpa using nodup_finRange cpus) (mem_finRange cpu)
  rw [since, landed, Journal.between, List.drop_zero, List.take_length, onceEach, List.filter_map,
    List.map_map]
  simp only [comp_def, true_and] at hfil ⊢
  simp only [id_eq] at hfil
  rw [hfil]
  rfl

/-- The snapshot of the one row. -/
def oneRow (reading : Reading cpus) : WaitSnapshot :=
  (∅ : WaitSnapshot).insert readKey (List.ofFn fun cpu =>
    unpack ((reading.words readKey cpu).getD 0))

theorem readKey_mem_oneRow (reading : Reading cpus) : readKey ∈ oneRow reading :=
  (AList.mem_insert _).2 (.inl rfl)

theorem exists_buildWaitMetrics_oneRow (hpos : cpus ≠ 0)
    (hlane : ∀ cpu, ((unpack ((reading.words readKey cpu).getD 0)).delta {}).ioCount ≠ 0) :
    ∃ report delta,
      buildWaitMetrics ∅ (oneRow reading) (fun _ => none) (fun _ => "sda") reading.retired =
        .ok report ∧
        report.deltas = [⟨readKey, ⟨"sda", "read"⟩, delta⟩] := by
  obtain ⟨delta, hdelta⟩ := exists_deltaWaitCounters_eq_ok hpos hlane
  obtain ⟨report, hrow, hdel⟩ : ∃ report,
      buildRow ∅ (fun _ => none) (fun _ => "sda") reading.retired {}
        ⟨readKey, List.ofFn fun cpu => unpack ((reading.words readKey cpu).getD 0)⟩ = .ok report ∧
        report.deltas = [⟨readKey, ⟨"sda", "read"⟩, delta⟩] := by
    simp only [buildRow, if_neg (show ¬"sda" = "" by decide), AList.lookup_empty, hdelta]
    exact ⟨_, rfl, rfl⟩
  exact ⟨report, delta, Loop.foldlM_cons_eq_ok.2 ⟨report, hrow, rfl⟩, hdel⟩

/-- An `Update` with a snapshot of one row whose lanes all have settlements. -/
theorem exists_captureWaitSnapshot_eq_commit (collector : Collector) (hpos : cpus ≠ 0)
    (hmax : cpus ≤ maxInt / waitCounterSize) (hst : s.status = {}) (hcan : s.cancelled = false)
    (hprev : s.previous = some ∅)
    (hlane : ∀ cpu, ((unpack ((reading.words readKey cpu).getD 0)).delta {}).ioCount ≠ 0) :
    ∃ report, captureWaitSnapshot collector s reading [readKey] diskNames =
        commit s reading (oneRow reading) (some report) true ∧
      reported WaitCounters.wait10US [report] readKey < 2 ^ 64 := by
  have hread : readWaitSnapshot collector.aggregateMap cpus (reading.items [readKey]) =
      .ok (oneRow reading) := by
    refine Loop.foldlM_cons_eq_ok.2 ⟨_, ?_, rfl⟩
    unfold readItem
    dsimp only
    rw [if_neg (AList.notMem_empty readKey), if_neg (by decide), if_neg (by decide),
      decodeWaitCounters_rowBytes hpos hmax]
    rfl
  obtain ⟨report, delta, hbuild, hdel⟩ := exists_buildWaitMetrics_oneRow hpos hlane
  refine ⟨report, ?_, ?_⟩
  · have hrpr : buildReport s (oneRow reading) reading.retired diskNames = .ok (some report) := by
      unfold buildReport
      rw [if_neg (by simp [hprev])]
      simp only [hst, hprev, diskNames, ne_eq, not_true_eq_false, if_false, ite_self,
        getD_some, hbuild]
      rfl
    unfold captureWaitSnapshot
    rw [hread]
    dsimp only
    unfold collect
    simp only [hrpr, hst, hcan]
    rfl
  · rw [reported, flatMap_singleton, hdel]
    exact UInt64.toNat_lt _

theorem exists_interval (hpos : cpus ≠ 0) (hmax : cpus ≤ maxInt / waitCounterSize) :
    ∃ s : State cpus, Runs.Reachable (Runs.restrict assumed (step .blkThrotl)) {} s ∧
      (∀ cpu, landed s.log (s.base readKey cpu) (s.lastRead readKey cpu) readKey cpu = [longWait]) ∧
      reported WaitCounters.wait10US s.reports readKey < 2 ^ 64 := by
  -- the row is created, and settled once on each CPU
  have hens : Runs.restrict assumed (step .blkThrotl) ({} : State cpus) (.ensure readKey) =
      some { rows := (∅ : AList fun _ : WaitKey => Fin cpus → UInt64).insert readKey fun _ => 0 } :=
    rfl
  obtain ⟨rows, hset, hkey, hkeys⟩ := reachable_settles .blkThrotl
    (s := { rows := (∅ : AList fun _ : WaitKey => Fin cpus → UInt64).insert readKey fun _ => 0 })
    (List.finRange cpus) ((AList.mem_insert _).2 (.inl rfl)) rfl
    fun key hmem => ((AList.mem_insert _).1 hmem).resolve_right (AList.notMem_empty key)
  have hsett := ((Runs.Reachable.refl _).next hens).trans hset
  -- an `Update` reads all its words
  have hbegin : Runs.Reachable (Runs.restrict assumed (step .blkThrotl)) {}
      (beginReading { rows, log := onceEach cpus } [] 1) :=
    (hsett.next (a := .beginUpdate) rfl).next (a := .endRetired) rfl
  obtain ⟨reading, hreads, -, hpre, hread⟩ := reachable_reads .blkThrotl
    (s := beginReading { rows, log := onceEach cpus } [] 1) (List.finRange cpus) hkey rfl
  have hstt := hbegin.trans hreads
  replace hread (cpu : Fin cpus) := hread cpu (.inl (mem_finRange cpu))
  have hinv := (inv_of_reachable hstt).phase
  have hlan (cpu : Fin cpus) :
      landed (onceEach cpus) 0 (reading.readAt readKey cpu) readKey cpu = [longWait] := by
    rw [(hread cpu).2]
    exact since_onceEach cpu
  have hlane (cpu : Fin cpus) :
      ((unpack ((reading.words readKey cpu).getD 0)).delta {}).ioCount ≠ 0 := by
    obtain ⟨word, hword⟩ := isSome_iff_exists.1 (hread cpu).1
    obtain ⟨old, hold, hfold⟩ := Reading.Inv.old hinv ∅ rfl hword
    have hold' : unpack old = {} := hold
    have hfold' : word = (landed (onceEach cpus) 0 (reading.readAt readKey cpu) readKey cpu).foldl
      waitAdd old := hfold
    rw [hlan cpu] at hfold'
    have hdelta : ((unpack ([longWait].foldl waitAdd old)).delta (unpack old)).ioCount.toNat = 1 :=
      (delta_foldl old (by decide) (by decide)).1
    rw [hword, getD_some, hfold', ← hold']
    intro hzero
    rw [hzero] at hdelta
    cases hdelta
  -- and reports the row
  obtain ⟨report, hcap, hrep⟩ := exists_captureWaitSnapshot_eq_commit .blkThrotl
    (s := { beginReading { rows, log := onceEach cpus } [] 1 with phase := .reading reading })
    hpos hmax rfl rfl rfl hlane
  have hcom : ∀ key ∈ [readKey], ∀ cpu, (reading.words key cpu).isSome := by
    intro key hmem cpu
    rw [mem_singleton.1 hmem]
    exact (hread cpu).1
  have hassumed : assumed { beginReading { rows, log := onceEach cpus } [] 1 with
      phase := .reading reading } (.endSnapshot [readKey] diskNames) := by
    refine decide_eq_true ⟨fun key hmem => ?_, ?_, fun _ key hmem cpu => ?_⟩
    · rw [hpre] at hmem
      exact mem_singleton.2 (hkeys key (AList.mem_keys.2 hmem))
    · rintro _ ⟨⟩ key -
      exact (by decide : "sda" ≠ "")
    · rw [mem_singleton.1 hmem]
      exact (congrArg withinModuli (hlan cpu)).trans (by decide)
  have hplace (cpu : Fin cpus) :
      (if readKey ∈ oneRow reading then reading.readAt readKey cpu else 0) =
        reading.readAt readKey cpu := if_pos (readKey_mem_oneRow reading)
  have hstep : Runs.restrict assumed (step .blkThrotl)
      { beginReading { rows, log := onceEach cpus } [] 1 with phase := .reading reading }
      (.endSnapshot [readKey] diskNames) =
        some (commit
          { beginReading { rows, log := onceEach cpus } [] 1 with phase := .reading reading }
          reading (oneRow reading) (some report) true) :=
    Runs.restrict_eq_some.2 ⟨hassumed, (if_pos hcom).trans (congrArg some hcap)⟩
  refine ⟨_, hstt.next hstep, fun cpu => ?_, hrep⟩
  exact (congrArg (fun place => landed (onceEach cpus) 0 place readKey cpu) (hplace cpu)).trans
    (hlan cpu)

/-- With 2^26 + 1 CPUs a total of 2^64 and more is reported as less. -/
theorem totals_wrap :
    ∃ s : State (2 ^ 26 + 1), Runs.Reachable (Runs.restrict assumed (step .blkThrotl)) {} s ∧
      reported WaitCounters.wait10US s.reports readKey ≠
        ∑ cpu, units (landed s.log (s.base readKey cpu) (s.lastRead readKey cpu) readKey cpu) := by
  obtain ⟨s, hreach, hlanded, hreported⟩ :=
    exists_interval (by decide : 2 ^ 26 + 1 ≠ 0) (by decide)
  refine ⟨s, hreach, Nat.ne_of_lt (hreported.trans_le ?_)⟩
  simp only [hlanded, Finset.sum_const, Finset.card_univ, Fintype.card_fin, smul_eq_mul]
  decide

end Overflow

end Huatuo.IoControl
