import Huatuo.IoControl.Wait
import Huatuo.Lib.Loop
import Mathlib.Algebra.BigOperators.Fin

/-!
# Differences of wait words

A word that has been added to a number of times differs from what it was by the number and by the
sum of the waits, as long as neither is over its modulus (`delta_foldl`). The counters of a snapshot
are those of the words it has read, the difference of two rows is the sum of the differences of
their words, and the series of an interval have each of these differences once for the host and once
for either a container or the rest.
-/

namespace Huatuo.IoControl

open Words List

/-! ## One word -/

/-- Whole units of 10us, wait by wait. -/
def units (waits : List UInt64) : Nat := (waits.map fun waitNS => waitNS.toNat / 10000).sum

@[simp] theorem units_nil : units [] = 0 := rfl

@[simp] theorem units_cons (waitNS : UInt64) (waits : List UInt64) :
    units (waitNS :: waits) = waitNS.toNat / 10000 + units waits := sum_cons

theorem units_append (waits waits' : List UInt64) :
    units (waits ++ waits') = units waits + units waits' := by
  rw [units, map_append, sum_append, ← units, ← units]

theorem toNat_and_countMask (x : UInt64) : (x &&& waitCountMask).toNat = x.toNat % 2 ^ 26 := by
  rw [UInt64.toNat_and]
  exact Nat.and_two_pow_sub_one_eq_mod _ 26

theorem toNat_and_10USMask (x : UInt64) : (x &&& wait10USMask).toNat = x.toNat % 2 ^ 38 := by
  rw [UInt64.toNat_and]
  exact Nat.and_two_pow_sub_one_eq_mod _ 38

variable (packed : UInt64)

theorem toNat_ioCount_unpack : (unpack packed).ioCount.toNat = packed.toNat / 2 ^ 38 := by
  have hshift : wait10USBits.toNat % 64 = 38 := rfl
  rw [unpack, UInt64.toNat_shiftRight, hshift, Nat.shiftRight_eq_div_pow]

theorem toNat_wait10US_unpack : (unpack packed).wait10US.toNat = packed.toNat % 2 ^ 38 :=
  toNat_and_10USMask packed

theorem toNat_waitAdd (packed waitNS : UInt64) :
    (waitAdd packed waitNS).toNat =
      (packed.toNat / 2 ^ 38 + 1) % 2 ^ 26 * 2 ^ 38 +
        (packed.toNat % 2 ^ 38 + waitNS.toNat / 10000) % 2 ^ 38 := by
  have hlt := packed.toNat_lt
  have hcnt : (((packed >>> wait10USBits) + 1) &&& waitCountMask).toNat =
      (packed.toNat / 2 ^ 38 + 1) % 2 ^ 26 := by
    have hshift := toNat_ioCount_unpack packed
    rw [unpack] at hshift
    rw [toNat_and_countMask, UInt64.toNat_add, hshift, UInt64.toNat_one]
    omega
  have hwait : (((packed &&& wait10USMask) + waitNS / waitUnitNS) &&& wait10USMask).toNat =
      (packed.toNat % 2 ^ 38 + waitNS.toNat / 10000) % 2 ^ 38 := by
    have hunit : (waitNS / waitUnitNS).toNat = waitNS.toNat / 10000 := UInt64.toNat_div ..
    rw [toNat_and_10USMask, UInt64.toNat_add, toNat_and_10USMask, hunit]
    omega
  have hbits : wait10USBits.toNat % 64 = 38 := rfl
  have hbound : (packed.toNat / 2 ^ 38 + 1) % 2 ^ 26 * 2 ^ 38 < 2 ^ 64 := by omega
  rw [waitAdd, UInt64.toNat_or, UInt64.toNat_shiftLeft, hcnt, hwait, hbits, Nat.shiftLeft_eq,
    Nat.mod_eq_of_lt hbound, ← Nat.shiftLeft_eq,
    ← Nat.shiftLeft_add_eq_or_of_lt (Nat.mod_lt _ (by decide))]

theorem toNat_ioCount_unpack_foldl (waits : List UInt64) :
    (unpack (waits.foldl waitAdd packed)).ioCount.toNat =
      (packed.toNat / 2 ^ 38 + waits.length) % 2 ^ 26 := by
  induction waits generalizing packed with
  | nil =>
    have hlt := packed.toNat_lt
    rw [foldl_nil, toNat_ioCount_unpack, length_nil]
    omega
  | cons waitNS waits ih =>
    rw [foldl_cons, ih, toNat_waitAdd, length_cons]
    omega

theorem toNat_wait10US_unpack_foldl (waits : List UInt64) :
    (unpack (waits.foldl waitAdd packed)).wait10US.toNat =
      (packed.toNat % 2 ^ 38 + units waits) % 2 ^ 38 := by
  induction waits generalizing packed with
  | nil =>
    rw [foldl_nil, toNat_wait10US_unpack]
    exact (Nat.mod_mod _ _).symm
  | cons waitNS waits ih =>
    rw [foldl_cons, ih, toNat_waitAdd, units_cons]
    omega

/-- The difference counts the additions. -/
theorem delta_foldl {waits : List UInt64} (hcnt : waits.length < 2 ^ 26)
    (hwait : units waits < 2 ^ 38) :
    ((unpack (waits.foldl waitAdd packed)).delta (unpack packed)).ioCount.toNat = waits.length ∧
      ((unpack (waits.foldl waitAdd packed)).delta (unpack packed)).wait10US.toNat =
        units waits := by
  have hlt := packed.toNat_lt
  constructor
  · rw [WaitCounters.delta, toNat_and_countMask, UInt64.toNat_sub, toNat_ioCount_unpack_foldl,
      toNat_ioCount_unpack]
    omega
  · rw [WaitCounters.delta, toNat_and_10USMask, UInt64.toNat_sub, toNat_wait10US_unpack_foldl,
      toNat_wait10US_unpack]
    omega

/-! ## Rows -/

section Rows

variable {cpus : Nat} {words : Fin cpus → UInt64} {counters : List WaitCounters}

theorem rowBytes_split (words : Fin cpus → UInt64) (cpu : Fin cpus) :
    ∃ front back, rowBytes words = front ++ (toLE waitCounterSize (words cpu).toNat ++ back) ∧
      front.length = cpu * waitCounterSize := by
  have hlt : (cpu : Nat) < (List.ofFn words).length := by
    simp
  refine ⟨((List.ofFn words).take cpu).flatMap fun word => toLE waitCounterSize word.toNat,
    ((List.ofFn words).drop (cpu + 1)).flatMap fun word => toLE waitCounterSize word.toNat, ?_, ?_⟩
  · rw [rowBytes]
    conv_lhs => rw [← take_append_drop cpu (List.ofFn words), drop_eq_getElem_cons hlt]
    rw [List.flatMap_append, List.flatMap_cons, List.getElem_ofFn]
  · rw [length_flatMap fun word : UInt64 => length_toLE waitCounterSize word.toNat, length_take,
      Nat.min_eq_left hlt.le, Nat.mul_comm]

theorem decodeWaitCounters_rowBytes (hpos : cpus ≠ 0) (hmax : cpus ≤ maxInt / waitCounterSize)
    (words : Fin cpus → UInt64) :
    decodeWaitCounters (rowBytes words) cpus = .ok (List.ofFn fun cpu => unpack (words cpu)) := by
  have hlen : (rowBytes words).length = cpus * waitCounterSize := by
    rw [rowBytes, length_flatMap fun word : UInt64 => length_toLE waitCounterSize word.toNat,
      length_ofFn, Nat.mul_comm]
  unfold decodeWaitCounters
  rw [if_neg hpos, if_neg (Nat.not_lt.2 hmax), if_neg (not_not_intro hlen)]
  refine congrArg Except.ok (ext_getElem (by simp) fun i hi hi' => ?_)
  have hcpu : i < cpus := by simpa using hi
  obtain ⟨front, back, hbytes, hfront⟩ := rowBytes_split words ⟨i, hcpu⟩
  rw [List.getElem_map, List.getElem_range, List.getElem_ofFn,
    readLE_of_eq front back hbytes hfront.symm (words ⟨i, hcpu⟩).toNat_lt, UInt64.ofNat_toNat]

theorem eq_ofFn_of_decodeWaitCounters
    (h : decodeWaitCounters (rowBytes words) cpus = .ok counters) :
    counters = List.ofFn fun cpu => unpack (words cpu) := by
  by_cases hpos : cpus = 0
  · simp [decodeWaitCounters, if_pos hpos] at h
  by_cases hmax : cpus ≤ maxInt / waitCounterSize
  · rw [decodeWaitCounters_rowBytes hpos hmax] at h
    exact (Except.ok.inj h).symm
  · simp [decodeWaitCounters, if_neg hpos, if_pos (Nat.not_le.1 hmax)] at h

end Rows

/-! ## Differences of rows -/

section Differences

variable {cpus : Nat} {previous : Option (List WaitCounters)} {delta : WaitCounters}

theorem laneDelta_eq_ok {cpu : Nat} {value : WaitCounters}
    (h : laneDelta previous cpu value = .ok delta) :
    delta = value.delta (oldLane previous cpu) := by
  unfold laneDelta at h
  dsimp only at h
  split at h
  · cases h
  · exact (Except.ok.inj h).symm

variable {current : List WaitCounters}

theorem deltaWaitCounters_eq_sum (h : deltaWaitCounters previous current = .ok delta) :
    delta = (current.zipIdx.map fun lane => lane.1.delta (oldLane previous lane.2)).sum := by
  unfold deltaWaitCounters at h
  split at h
  · cases h
  split at h
  · cases h
  refine Loop.foldlM_induction (fun done total =>
    total = (done.map fun lane => lane.1.delta (oldLane previous lane.2)).sum) rfl ?_ h
  rintro done ⟨value, cpu⟩ total total' htotal hlane
  obtain ⟨delta, hdelta, rfl⟩ := Loop.map_eq_ok.1 hlane
  rw [map_append, sum_append, ← htotal, map_singleton, sum_singleton,
    ← laneDelta_eq_ok hdelta]
  rfl

theorem deltaWaitCounters_eq_ok {n : Nat} {value : Fin n → WaitCounters}
    (h : deltaWaitCounters previous (List.ofFn value) = .ok delta) :
    delta = ∑ cpu, (value cpu).delta (oldLane previous cpu) := by
  have hlanes : ((List.ofFn value).zipIdx.map fun lane => lane.1.delta (oldLane previous lane.2)) =
      List.ofFn fun cpu => (value cpu).delta (oldLane previous cpu) :=
    ext_getElem (by simp) fun i _ _ => by simp
  rw [deltaWaitCounters_eq_sum h, hlanes, sum_ofFn]

/-- Lanes with settlements have no error. -/
theorem exists_deltaWaitCounters_eq_ok {value : Fin cpus → WaitCounters} (hpos : cpus ≠ 0)
    (hlane : ∀ cpu, ((value cpu).delta {}).ioCount ≠ 0) :
    ∃ delta, deltaWaitCounters none (List.ofFn value) = .ok delta := by
  unfold deltaWaitCounters
  rw [if_neg (by rwa [ofFn_eq_nil_iff])]
  refine ⟨_, Loop.foldlM_ok (f := fun total lane => addWaitCounters total (lane.1.delta {})) _ ?_⟩
  rintro total ⟨lane, cpu⟩ hmem
  obtain ⟨cpu', hcpu'⟩ := mem_ofFn.1 (fst_mem_of_mem_zipIdx hmem)
  have hne := hlane cpu'
  rw [hcpu'] at hne
  dsimp only
  rw [laneDelta, oldLane, if_neg fun h => hne h.1]
  rfl

theorem WaitCounters.delta_self (value : WaitCounters) : value.delta value = 0 := by
  rw [delta, UInt64.sub_self, UInt64.sub_self, UInt64.zero_and, UInt64.zero_and]
  rfl

theorem deltaWaitCounters_self (h : deltaWaitCounters (some current) current = .ok delta) :
    delta = 0 := by
  rw [deltaWaitCounters_eq_sum h]
  refine sum_eq_zero fun x hx => ?_
  obtain ⟨⟨value, cpu⟩, hlane, rfl⟩ := mem_map.1 hx
  have hv : current.getD cpu {} = value := by
    rw [getD_eq_getElem?_getD, mk_mem_zipIdx_iff_getElem?.1 hlane, Option.getD_some]
  rw [oldLane, hv, WaitCounters.delta_self]

theorem toNat_ioCount_sum (f : Fin cpus → WaitCounters) :
    (∑ cpu, f cpu).ioCount.toNat = (∑ cpu, (f cpu).ioCount.toNat) % 2 ^ 64 := by
  induction cpus with
  | zero => rfl
  | succ n ih =>
    have hadd (a b : WaitCounters) : (a + b).ioCount.toNat =
      (a.ioCount.toNat + b.ioCount.toNat) % 2 ^ 64 :=
      UInt64.toNat_add ..
    rw [Fin.sum_univ_succ, Fin.sum_univ_succ, hadd, ih, Nat.add_mod_mod]

theorem toNat_wait10US_sum (f : Fin cpus → WaitCounters) :
    (∑ cpu, f cpu).wait10US.toNat = (∑ cpu, (f cpu).wait10US.toNat) % 2 ^ 64 := by
  induction cpus with
  | zero => rfl
  | succ n ih =>
    have hadd (a b : WaitCounters) :
        (a + b).wait10US.toNat = (a.wait10US.toNat + b.wait10US.toNat) % 2 ^ 64 :=
          UInt64.toNat_add ..
    rw [Fin.sum_univ_succ, Fin.sum_univ_succ, hadd, ih, Nat.add_mod_mod]

/-- The difference of a row whose words have been added to. -/
theorem deltaWaitCounters_foldl {old : Fin cpus → UInt64} {waits : Fin cpus → List UInt64}
    (hold : ∀ cpu, unpack (old cpu) = oldLane previous cpu)
    (hcnt : ∀ cpu, (waits cpu).length < 2 ^ 26) (hwait : ∀ cpu, units (waits cpu) < 2 ^ 38)
    (h : deltaWaitCounters previous
      (List.ofFn fun cpu => unpack ((waits cpu).foldl waitAdd (old cpu))) = .ok delta) :
    delta.ioCount.toNat = (∑ cpu, (waits cpu).length) % 2 ^ 64 ∧
      delta.wait10US.toNat = (∑ cpu, units (waits cpu)) % 2 ^ 64 := by
  have hlane (cpu : Fin cpus) := delta_foldl (old cpu) (hcnt cpu) (hwait cpu)
  simp only [deltaWaitCounters_eq_ok h, toNat_ioCount_sum, toNat_wait10US_sum, ← hold,
    hlane, and_self]

end Differences

/-! ## Snapshots -/

section Snapshots

variable {cpus : Nat} {mapName : String} {snapshot snapshot' : WaitSnapshot}

theorem readItem_eq_ok {item : Prod WaitKey Words.Bytes}
    (h : readItem mapName cpus snapshot item = .ok snapshot') :
    ∃ counters, decodeWaitCounters item.2 cpus = .ok counters ∧
      snapshot' = snapshot.insert item.1 counters := by
  unfold readItem at h
  dsimp only at h
  split at h
  · cases h
  split at h
  · cases h
  split at h
  · cases h
  split at h
  · cases h
  · next counters hcou => exact ⟨counters, hcou, (Except.ok.inj h).symm⟩

/-- A snapshot has the counters of the words that were read. -/
theorem readWaitSnapshot_lookup (words : WaitKey → Fin cpus → UInt64) {order : List WaitKey}
    (h : readWaitSnapshot mapName cpus (order.map fun key => (key, rowBytes (words key))) =
      .ok snapshot)
    (key : WaitKey) :
    snapshot.lookup key =
      if key ∈ order then some (List.ofFn fun cpu => unpack (words key cpu)) else none := by
  have hread := Loop.foldlM_induction (fun (done : List (WaitKey × Bytes)) (acc : WaitSnapshot) =>
    (∀ item ∈ done, item.2 = rowBytes (words item.1)) → ∀ key, acc.lookup key =
      if key ∈ done.map Prod.fst then some (List.ofFn fun cpu => unpack (words key cpu)) else none)
    (fun _ _ => rfl) ?_ h
  · have hkeys : (order.map fun key => (key, rowBytes (words key))).map Prod.fst = order := by
      rw [map_map]
      exact map_id _
    rw [hkeys] at hread
    refine hread (fun item hitem => ?_) key
    obtain ⟨key, -, rfl⟩ := mem_map.1 hitem
    rfl
  · rintro done ⟨key, bytes⟩ acc acc' ih hitem hbytes key'
    obtain ⟨counters, hcou, rfl⟩ := readItem_eq_ok hitem
    obtain rfl : bytes = rowBytes (words key) := hbytes (key, bytes) (by simp)
    by_cases hkey : key' = key
    · subst hkey
      rw [AList.lookup_insert, if_pos (by simp), eq_ofFn_of_decodeWaitCounters hcou]
    · rw [AList.lookup_insert_ne hkey, ih fun item hmem => hbytes item (mem_append_left _ hmem)]
      exact if_congr (by simp [hkey]) rfl rfl

end Snapshots

/-! ## Series -/

/-- The host has what the containers and the rest have together, and that is what the keys have. -/
structure Balanced (report : Report) : Prop where
  split (series : DeviceOperation) :
    Series.get id report.intervals.host series =
      Series.get id report.intervals.other series +
        Series.total ContainerWait.counters (fun key => key.deviceOperation = series)
          report.intervals.containers
  host (series : DeviceOperation) :
    Series.get id report.intervals.host series =
      ((report.deltas.filter fun delta => delta.series = series).map Delta.counters).sum

/-- The differences of a report are those of the rows, once each. -/
structure Covers (previous : WaitSnapshot)
    (rows : List (Sigma fun _ : WaitKey => List WaitCounters))
    (deltas : List Delta) : Prop where
  keys : deltas.map Delta.key = rows.map Sigma.fst
  counters : ∀ delta ∈ deltas, ∃ counters, ⟨delta.key, counters⟩ ∈ rows ∧
    deltaWaitCounters (previous.lookup delta.key) counters = .ok delta.counters

section Build

variable {previous current : WaitSnapshot} {containers : UInt64 → Option Container}
  {disks : UInt32 × UInt32 → String} {retired : List RetiredKey} {report report' : Report}

/-- What an addition does to a series. -/
theorem get_insert_add (series : AList fun _ : DeviceOperation => WaitCounters)
    (key key' : DeviceOperation)
    (counters : WaitCounters) :
    Series.get id (series.insert key (addWaitCounters (Series.get id series key) counters)) key' =
      Series.get id series key' + if key = key' then counters else 0 := by
  rw [Series.get_insert]
  by_cases hkey : key' = key
  · subst hkey
    rw [if_pos rfl, if_pos rfl]
    rfl
  · rw [if_neg hkey, if_neg (Ne.symm hkey), add_zero]

theorem get_host_add (intervals : WaitIntervals) (css : UInt64) (device operation : String)
    (counters : WaitCounters) (series : DeviceOperation) :
    Series.get id (intervals.add containers css device operation counters).host series =
      Series.get id intervals.host series +
        if (⟨device, operation⟩ : DeviceOperation) = series then counters else 0 := by
  unfold WaitIntervals.add
  dsimp only
  split <;> exact get_insert_add ..

/-- The counters go to a container or to the rest. -/
theorem get_other_add (intervals : WaitIntervals) (css : UInt64) (device operation : String)
    (counters : WaitCounters) (series : DeviceOperation) :
    Series.get id (intervals.add containers css device operation counters).other series +
        Series.total ContainerWait.counters (fun key => key.deviceOperation = series)
          (intervals.add containers css device operation counters).containers =
      Series.get id intervals.other series +
          Series.total ContainerWait.counters (fun key => key.deviceOperation = series)
            intervals.containers +
        if (⟨device, operation⟩ : DeviceOperation) = series then counters else 0 := by
  unfold WaitIntervals.add
  dsimp only
  split
  · rw [get_insert_add, add_right_comm]
  rename_i container labels _
  have hv (old : WaitCounters) :
      ContainerWait.counters ⟨container, addWaitCounters old counters⟩ = old + counters := rfl
  rw [Series.total_insert _ (hv _), ← add_assoc]
  exact congrArg (_ + ·) (if_congr decide_eq_true_iff rfl rfl)

theorem buildRow_eq_ok {row : (_ : WaitKey) × List WaitCounters}
    (h : buildRow previous containers disks retired report row = .ok report') :
    disks (row.1.major, row.1.minor) = "" ∧ report' = report ∨
      ∃ delta css operation, deltaWaitCounters (previous.lookup row.1) row.2 = .ok delta ∧
        report' =
          { deltas :=
            report.deltas ++ [⟨row.1, ⟨disks (row.1.major, row.1.minor), operation⟩, delta⟩]
            intervals := report.intervals.add containers css (disks (row.1.major, row.1.minor))
              operation delta } := by
  unfold buildRow at h
  dsimp only at h
  split at h
  · next hdisk => exact .inl ⟨hdisk, (Except.ok.inj h).symm⟩
  split at h
  · cases h
  · next delta hdelta => exact .inr ⟨delta, _, _, hdelta, (Except.ok.inj h).symm⟩

theorem buildWaitMetrics_balanced
    (h : buildWaitMetrics previous current containers disks retired = .ok report) :
    Balanced report := by
  refine Loop.foldlM_induction (fun _ report => Balanced report) ⟨fun _ => rfl, fun _ => rfl⟩ ?_ h
  intro _ row report report' hrep hrow
  obtain ⟨-, rfl⟩ | ⟨delta, css, operation, -, rfl⟩ := buildRow_eq_ok hrow
  · exact hrep
  · constructor
    · intro series
      simp [get_host_add, get_other_add, hrep.split]
    · intro series
      dsimp only
      rw [get_host_add, hrep.host, filter_append, map_append, sum_append]
      congr 1
      split
      · next hser => simp [hser]
      · next hser => simp [hser]

theorem buildWaitMetrics_covers (hdisks : ∀ key ∈ current, disks (key.major, key.minor) ≠ "")
    (h : buildWaitMetrics previous current containers disks retired = .ok report) :
    Covers previous current.entries report.deltas := by
  refine Loop.foldlM_induction (fun rows report => (∀ row ∈ rows, row.1 ∈ current) →
    Covers previous rows report.deltas) (fun _ => ⟨rfl, fun _ hd => absurd hd not_mem_nil⟩) ?_ h ?_
  · intro rows row report report' ih hrow hrows
    have hrep := ih fun row hmem => hrows row (mem_append_left _ hmem)
    have hnamed := hdisks row.1 (hrows row (by simp))
    obtain ⟨hdisk, -⟩ | ⟨delta, css, operation, hdelta, rfl⟩ := buildRow_eq_ok hrow
    · exact absurd hdisk hnamed
    · refine ⟨by simp [hrep.keys], fun d hd => ?_⟩
      obtain hd | hd := mem_append.1 hd
      · obtain ⟨counters, hmem, hcou⟩ := hrep.counters d hd
        exact ⟨counters, mem_append_left _ hmem, hcou⟩
      · obtain rfl := mem_singleton.1 hd
        exact ⟨row.2, by simp, hdelta⟩
  · exact fun row hmem => mem_keys_of_mem hmem

end Build

end Huatuo.IoControl
