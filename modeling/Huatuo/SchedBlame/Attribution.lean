import Huatuo.SchedBlame.StateProof

/-!
# Who is blamed for the waiting of a target

The matrix of charges has a row for each CSS ID, and a CSS ID is translated to the cgid that it
stands for when a report is made. `blame` is what the report is about: the time of the slices in
which a target waited while another cgroup ran, each slice under the cgid that its CSS ID stood for
when it was handled.

The two agree as long as a CSS ID that is charged keeps its cgid until the next evaluation
(`Kept`). The kernel reuses a CSS ID when its cgroup is gone, and the identity record of the new
cgroup then takes the charges of the old one along.

`Attributed` is the invariant of an interval: for each cgid, the charges of the CSS IDs that stand
for it add up to its blame.
-/

namespace Huatuo.SchedBlame

open Words Function List
open scoped UInt64.CommRing

section

variable (scaledDuration : UInt64 → UInt64)

/-! ## Blame -/

/-- The time of a slice in which `t` waits while the cgroup `g`, not its own, runs. -/
def sliceBlame (s : State) (t : Nat) (g : UInt64) (packedSlice : PackedSlice) : Nat :=
  let css := (unpackSliceBase packedSlice).1.toNat
  if s.cssKnown css ∧ s.cssCgids css = g ∧ (s.targets t).cgid ≠ g ∧
    sliceHasTarget packedSlice t then
    (scaledDuration (unpackSliceBase packedSlice).2).toNat
  else 0

def recordBlame (s : State) (t : Nat) (g : UInt64) (record : Record) : Nat :=
  match record.kind with
  | .batch => (record.batch.slices.map (sliceBlame scaledDuration s t g)).sum
  | _ => 0

def blame (t : Nat) (g : UInt64) : State → List Record → Nat
  | _, [] => 0
  | s, record :: rest =>
    recordBlame scaledDuration s t g record + blame t g (handleRecord scaledDuration s record) rest

theorem blame_append (t : Nat) (g : UInt64) (s : State) (records records' : List Record) :
    blame scaledDuration t g s (records ++ records') =
      blame scaledDuration t g s records +
        blame scaledDuration t g (records.foldl (handleRecord scaledDuration) s) records' := by
  induction records generalizing s with
  | nil => exact (Nat.zero_add _).symm
  | cons record rest ih => simp only [cons_append, blame, ih, foldl_cons, Nat.add_assoc]

/-- A CSS ID that is charged for the waiting of `t` keeps its cgid. -/
def KeptBy (s : State) (t : Nat) (record : Record) : Prop :=
  record.kind = .identity → record.identity.cgid ≠ 0 →
    s.externalChargeNsMatrix (externalChargeIndex record.identity.cssID.toNat t) ≠ 0 →
    s.cssCgids record.identity.cssID.toNat = record.identity.cgid

def Kept (t : Nat) : State → List Record → Prop
  | _, [] => True
  | s, record :: rest => KeptBy s t record ∧ Kept t (handleRecord scaledDuration s record) rest

end

/-- The charge that a list of competitors has for a cgid. -/
def chargeFor (competitors : List CompetitorCharge) (g : UInt64) : UInt64 :=
  ((competitors.find? fun entry => entry.cgid = g).map CompetitorCharge.chargeNs).getD 0

/-! ## The charges of one slice -/

variable {c t : Nat} {s : State} {charges : List CompetitorCharge}

theorem charges_chargeExternal (css dense : Nat) (amount : UInt64) (s : State) {i : Nat}
    (hi : i < maxTargets) (ht : t < maxTargets) :
    (chargeExternal css dense amount s i).externalChargeNsMatrix (externalChargeIndex c t) =
      s.externalChargeNsMatrix (externalChargeIndex c t) +
        if c = css ∧ t = i ∧ i ≠ dense ∧ s.activeTargetBitmap.contains i then amount else 0 := by
  unfold chargeExternal
  split
  · next hchar =>
    simp only
    by_cases hcell : c = css ∧ t = i
    · obtain ⟨rfl, rfl⟩ := hcell
      simp [hchar]
    · have hne : externalChargeIndex c t ≠ externalChargeIndex css i := fun heq =>
        hcell ((externalChargeIndex_inj ht hi).1 heq)
      rw [update_of_ne hne, if_neg fun hall => hcell ⟨hall.1, hall.2.1⟩, add_zero]
  · next hskip =>
    rw [if_neg fun hall => hskip hall.2.2, add_zero]

/-- Charging a list of targets charges each once. -/
theorem charges_foldl (css dense : Nat) (amount : UInt64) (ht : t < maxTargets) (targets : List Nat)
    (s : State) (hnd : targets.Nodup) (hlt : ∀ i ∈ targets, i < maxTargets) :
    (targets.foldl (chargeExternal css dense amount) s).externalChargeNsMatrix
        (externalChargeIndex c t) =
      s.externalChargeNsMatrix (externalChargeIndex c t) +
        if c = css ∧ t ∈ targets ∧ t ≠ dense ∧
          s.activeTargetBitmap.contains t then amount else 0 := by
  induction targets generalizing s with
  | nil => simp
  | cons i rest ih =>
    obtain ⟨hfresh, hrest⟩ := nodup_cons.1 hnd
    have hi : i < maxTargets := hlt i mem_cons_self
    rw [foldl_cons, ih _ hrest fun j hj => hlt j (mem_cons_of_mem i hj),
      charges_chargeExternal css dense amount s hi ht,
      (sameAssignment_chargeExternal css dense amount s i).bitmap, add_assoc]
    congr 1
    by_cases hti : t = i
    · subst hti
      simp [hfresh]
    · simp [hti]

theorem mem_waitingTargets {packedSlice : PackedSlice} :
    t ∈ waitingTargets packedSlice ↔ t < maxTargets ∧ sliceHasTarget packedSlice t := by
  rw [waitingTargets, mem_filter, mem_range]

theorem charges_chargeWaiting (packedSlice : PackedSlice) (css dense : Nat) (amount : UInt64)
    (s : State) (ht : t < maxTargets) :
    (chargeWaiting packedSlice css dense amount s).externalChargeNsMatrix
        (externalChargeIndex c t) =
      s.externalChargeNsMatrix (externalChargeIndex c t) +
        if c = css ∧ sliceHasTarget packedSlice t ∧ t ≠ dense ∧ s.activeTargetBitmap.contains t then
          amount
        else 0 := by
  have hnd : (waitingTargets packedSlice).Nodup := nodup_range.filter _
  rw [chargeWaiting_eq, charges_foldl css dense amount ht _ s hnd
    fun i hi => (mem_waitingTargets.1 hi).1]
  simp only [mem_waitingTargets, and_iff_right ht]

/-- A slice charges the CSS ID that ran for `t` if `t` waited and was not the one that ran. -/
theorem charges_handlePackedSlice (scaledDuration : UInt64 → UInt64) (h : Assigned s)
    (packedSlice : PackedSlice) (ht : t < maxTargets) (hact : (s.targets t).active) :
    (handlePackedSlice scaledDuration s packedSlice).externalChargeNsMatrix
      (externalChargeIndex c t) =
      s.externalChargeNsMatrix (externalChargeIndex c t) +
        if c = (unpackSliceBase packedSlice).1.toNat ∧ s.cssKnown c ∧
            (s.targets t).cgid ≠ s.cssCgids c ∧ sliceHasTarget packedSlice t then
          scaledDuration (unpackSliceBase packedSlice).2
        else 0 := by
  have hcss := unpackSliceBase_lt packedSlice
  have hbit : s.activeTargetBitmap.contains t = true := (h.bitmap t ht).trans hact
  simp only [SchedBlame.handlePackedSlice]
  generalize (unpackSliceBase packedSlice).1.toNat = css at *
  have hdense := h.dense_eq_iff hcss ht
  split
  · next hskip =>
    rw [Bool.or_eq_true, Bool.not_eq_true', beq_iff_eq] at hskip
    obtain hunk | hzero := hskip
    · rw [if_neg, add_zero]
      rintro ⟨rfl, hknown, -⟩
      exact absurd hknown (by simp [hunk])
    · simp [hzero]
  · next hrun =>
    have hknown : s.cssKnown css := by
      by_contra hunk
      exact hrun (by simp [hunk])
    have hcond : (c = css ∧ sliceHasTarget packedSlice t ∧ t ≠ s.targetDenseByCSSID css ∧
        s.activeTargetBitmap.contains t) ↔
          c = css ∧ s.cssKnown c ∧ (s.targets t).cgid ≠ s.cssCgids c ∧
            sliceHasTarget packedSlice t := by
      constructor
      · rintro ⟨rfl, hwaits, hother, -⟩
        exact ⟨rfl, hknown, fun hown => hother (hdense.2 ⟨hknown, hact, hown⟩).symm, hwaits⟩
      · rintro ⟨rfl, -, hother, hwaits⟩
        exact ⟨rfl, hwaits, fun hown => hother (hdense.1 hown.symm).2.2, hbit⟩
    split
    · simp [charges_chargeWaiting _ _ _ _ _ ht, SchedBlame.chargeRuntime, hcond]
    · simp [charges_chargeWaiting _ _ _ _ _ ht, hcond]

/-! ## Attribution -/

/-- The charges against `t`, added up by cgid, are the blame `b`; no CSS ID that is charged stands
for `t` itself. -/
structure Attributed (s : State) (t : Nat) (b : UInt64 → Nat) : Prop where
  other : ∀ c < maxCSSIDs, s.externalChargeNsMatrix (externalChargeIndex c t) ≠ 0 →
    s.cssCgids c ≠ (s.targets t).cgid
  charged : ∀ g, (∑ c ∈ Finset.range maxCSSIDs,
    if s.cssCgids c = g then s.externalChargeNsMatrix (externalChargeIndex c t) else 0) =
      UInt64.ofNat (b g)

section

variable (scaledDuration : UInt64 → UInt64) {s : State} {t : Nat} {b : UInt64 → Nat}

theorem Attributed.congr {s' : State} (h : Attributed s t b)
    (hcha : s'.externalChargeNsMatrix = s.externalChargeNsMatrix) (hsame : SameAssignment s s') :
    Attributed s' t b := by
  obtain ⟨hother, hchar⟩ := h
  refine ⟨?_, ?_⟩
  · rwa [hcha, hsame.cssCgids, hsame.targets]
  · rwa [hcha, hsame.cssCgids]

theorem Attributed.handlePackedSlice (h : Attributed s t b) (hs : Assigned s) (hbal : Balanced s)
    (ht : t < maxTargets) (hact : (s.targets t).active) (packedSlice : PackedSlice) :
    Attributed (handlePackedSlice scaledDuration s packedSlice) t
      fun g => b g + sliceBlame scaledDuration s t g packedSlice := by
  have hcell (c : Nat) := charges_handlePackedSlice scaledDuration hs packedSlice (c := c) ht hact
  have hsame := (hbal.handlePackedSlice scaledDuration packedSlice).2
  have hcss := unpackSliceBase_lt packedSlice
  -- a cell that is charged now was charged before, or is the one of the slice
  have hcases {c : Nat} (hne : (SchedBlame.handlePackedSlice scaledDuration s
      packedSlice).externalChargeNsMatrix (externalChargeIndex c t) ≠ 0) :
      s.externalChargeNsMatrix (externalChargeIndex c t) ≠ 0 ∨
        (s.targets t).cgid ≠ s.cssCgids c := by
    rw [hcell] at hne
    by_contra hnone
    obtain ⟨hzero, hnot⟩ := not_or.1 hnone
    refine hne ?_
    rw [if_neg fun hall => hnot hall.2.2.1, add_zero]
    exact not_not.1 hzero
  refine ⟨fun c hc hne => ?_, fun g => ?_⟩
  · rw [hsame.cssCgids, hsame.targets]
    exact (hcases hne).elim (h.other c hc) Ne.symm
  · have hsplit (c : Nat) : (if s.cssCgids c = g then
          s.externalChargeNsMatrix (externalChargeIndex c t) +
            (if c = (unpackSliceBase packedSlice).1.toNat ∧ s.cssKnown c ∧
                (s.targets t).cgid ≠ s.cssCgids c ∧ sliceHasTarget packedSlice t then
              scaledDuration (unpackSliceBase packedSlice).2 else 0) else 0) =
        (if s.cssCgids c = g then s.externalChargeNsMatrix (externalChargeIndex c t) else 0) +
          if c = (unpackSliceBase packedSlice).1.toNat then
            UInt64.ofNat (sliceBlame scaledDuration s t g packedSlice) else 0 := by
      by_cases hc : c = (unpackSliceBase packedSlice).1.toNat
      · subst hc
        by_cases hg : s.cssCgids (unpackSliceBase packedSlice).1.toNat = g
        · simp only [sliceBlame, hg, true_and, if_true]
          split <;> simp
        · simp [sliceBlame, hg]
      · simp [hc]
    simp only [hsame.cssCgids, hcell, hsplit]
    rw [Finset.sum_add_distrib, h.charged, Finset.sum_ite_eq' (Finset.range maxCSSIDs),
      if_pos (Finset.mem_range.2 hcss), UInt64.ofNat_add]

/-- A record keeps the charges attributed, if the CSS IDs that are charged keep their cgids. -/
theorem Attributed.handleIdentity (h : Attributed s t b) (hs : Assigned s) {identity : Identity}
    (hkept : identity.cgid ≠ 0 →
      s.externalChargeNsMatrix (externalChargeIndex identity.cssID.toNat t) ≠ 0 →
      s.cssCgids identity.cssID.toNat = identity.cgid) :
    Attributed (handleIdentity s identity) t b := by
  obtain heq | ⟨-, hcgid, targets, heq, howns⟩ := handleIdentity_spec hs.distinct identity
  · rwa [heq]
  · have hsam {c : Nat} (hne : s.externalChargeNsMatrix (externalChargeIndex c t) ≠ 0) :
        update s.cssCgids identity.cssID.toNat identity.cgid c = s.cssCgids c := by
      by_cases hc : c = identity.cssID.toNat
      · subst hc
        rw [update_self, hkept hcgid hne]
      · rw [update_of_ne hc]
    rw [heq]
    refine ⟨fun c hc hne => ?_, fun g => ?_⟩
    · simp only [hsam hne, (howns t).1]
      exact h.other c hc hne
    · rw [← h.charged g]
      refine Finset.sum_congr rfl fun c _ => ?_
      by_cases hzero : s.externalChargeNsMatrix (externalChargeIndex c t) = 0
      · simp [hzero]
      · simp only [hsam hzero]

/-! ## An interval -/

/-- A ledger in which the active target `t` has the blame `b`. -/
structure Accounted (s : State) (t : Nat) (b : UInt64 → Nat) : Prop where
  balanced : Balanced s
  assigned : Assigned s
  active : (s.targets t).active
  attributed : Attributed s t b

theorem sliceBlame_congr {s' : State} (hsame : SameAssignment s s') :
    sliceBlame scaledDuration s' = sliceBlame scaledDuration s := by
  funext t g packedSlice
  simp only [sliceBlame, hsame.cssKnown, hsame.cssCgids, hsame.targets]

theorem Accounted.handlePackedSlice (h : Accounted s t b) (ht : t < maxTargets)
    (packedSlice : PackedSlice) :
    Accounted (handlePackedSlice scaledDuration s packedSlice) t
      fun g => b g + sliceBlame scaledDuration s t g packedSlice := by
  obtain ⟨hbal, hsame⟩ := h.balanced.handlePackedSlice scaledDuration packedSlice
  exact ⟨hbal, hsame.assigned h.assigned, hsame.targets ▸ h.active,
    h.attributed.handlePackedSlice scaledDuration h.assigned h.balanced ht h.active packedSlice⟩

/-- The slices of a batch are handled under one assignment. -/
theorem Accounted.handleSlices (h : Accounted s t b) (ht : t < maxTargets)
    (slices : List PackedSlice) :
    Accounted (slices.foldl (SchedBlame.handlePackedSlice scaledDuration) s) t
      fun g => b g + (slices.map (sliceBlame scaledDuration s t g)).sum := by
  induction slices generalizing s b with
  | nil => exact h
  | cons packedSlice rest ih =>
    have hsame := (h.balanced.handlePackedSlice scaledDuration packedSlice).2
    have hrest := ih (h.handlePackedSlice scaledDuration ht packedSlice)
    simp only [sliceBlame_congr scaledDuration hsame, Nat.add_assoc] at hrest
    simpa only [foldl_cons, map_cons, sum_cons] using hrest

theorem Accounted.handleRecord (h : Accounted s t b) (ht : t < maxTargets) {record : Record}
    (hkept : KeptBy s t record) :
    Accounted (handleRecord scaledDuration s record) t
      fun g => b g + recordBlame scaledDuration s t g record := by
  obtain ⟨hbal, hassigned, hact, hatt⟩ := h
  cases hkind : record.kind with simp only [SchedBlame.handleRecord, recordBlame, hkind]
  | invalid => exact ⟨hbal, hassigned, hact, hatt⟩
  | identity =>
    refine ⟨hbal.handleIdentity hassigned.distinct _, hassigned.handleIdentity _, ?_,
      hatt.handleIdentity hassigned (hkept hkind)⟩
    obtain heq | ⟨-, -, targets, heq, howns⟩ :=
      handleIdentity_spec hassigned.distinct record.identity
    · rwa [heq]
    · rw [heq]
      exact (howns t).2.trans hact
  | throttle =>
    obtain ⟨hbal', hsame⟩ := hbal.handleThrottle record.throttle
    refine ⟨hbal', hsame.assigned hassigned, hsame.targets ▸ hact,
      hatt.congr ?_ hsame⟩
    unfold handleThrottle
    (repeat' split) <;> rfl
  | batch =>
    exact Accounted.handleSlices scaledDuration ⟨hbal, hassigned, hact, hatt⟩ ht _

/-- The records of an interval add their blame. -/
theorem Accounted.handleRecords (h : Accounted s t b) (ht : t < maxTargets) {records : List Record}
    (hkept : Kept scaledDuration t s records) :
    Accounted (records.foldl (SchedBlame.handleRecord scaledDuration) s) t
      fun g => b g + blame scaledDuration t g s records := by
  induction records generalizing s b with
  | nil => exact h
  | cons record rest ih =>
    have hrest := ih (h.handleRecord scaledDuration ht hkept.1) hkept.2
    simpa only [foldl_cons, blame, Nat.add_assoc] using hrest

/-- An evaluation sets the charges to zero. -/
theorem charges_evaluate (externalAnomalyK : Float) (s : State) :
    (evaluateExternalContentionRatios externalAnomalyK s).1.externalChargeNsMatrix = fun _ => 0 :=
      rfl

theorem accounted_evaluate (externalAnomalyK : Float) (hassigned : Assigned s)
    (hact : (s.targets t).active) :
    Accounted (evaluateExternalContentionRatios externalAnomalyK s).1 t fun _ => 0 := by
  obtain ⟨hsame, hbal⟩ := evaluate_spec externalAnomalyK s
  refine ⟨hbal, hsame.assigned hassigned, hsame.targets ▸ hact, fun c _ hne => ?_, fun g => ?_⟩
  · exact absurd (congrFun (charges_evaluate externalAnomalyK s) _) hne
  · rw [charges_evaluate]
    exact Finset.sum_eq_zero fun c _ => ite_self 0

end

/-! ## The report -/

theorem mem_addCharge {cgid charge : UInt64} {entry : CompetitorCharge}
    (h : entry ∈ addCharge cgid charge charges) : entry.cgid = cgid ∨ entry ∈ charges := by
  induction charges with
  | nil =>
    rw [addCharge, mem_singleton] at h
    exact .inl (h ▸ rfl)
  | cons head rest ih =>
    rw [addCharge] at h
    split at h
    · refine (mem_cons.1 h).imp (fun heq => ?_) (mem_cons_of_mem head)
      rw [heq]
    · obtain rfl | hrest := mem_cons.1 h
      · exact .inr mem_cons_self
      · exact (ih hrest).imp_right (mem_cons_of_mem head)

theorem nodup_addCharge (cgid charge : UInt64) (h : (charges.map CompetitorCharge.cgid).Nodup) :
    ((addCharge cgid charge charges).map CompetitorCharge.cgid).Nodup := by
  induction charges with
  | nil => simp [addCharge]
  | cons head rest ih =>
    rw [map_cons, nodup_cons] at h
    rw [addCharge]
    split
    · next heq =>
      rw [map_cons, nodup_cons]
      exact ⟨heq ▸ h.1, h.2⟩
    · next hne =>
      rw [map_cons, nodup_cons]
      refine ⟨fun hmem => ?_, ih h.2⟩
      obtain ⟨entry, hent, heq⟩ := mem_map.1 hmem
      obtain hnew | hold := mem_addCharge hent
      · exact hne (heq ▸ hnew)
      · exact h.1 (heq ▸ mem_map_of_mem hold)

theorem chargeFor_cons (entry : CompetitorCharge) (rest : List CompetitorCharge) (g : UInt64) :
    chargeFor (entry :: rest) g = if entry.cgid = g then entry.chargeNs else chargeFor rest g := by
  by_cases h : entry.cgid = g <;> simp [chargeFor, h]

theorem chargeFor_addCharge (cgid charge g : UInt64) (charges : List CompetitorCharge) :
    chargeFor (addCharge cgid charge charges) g =
      chargeFor charges g + if cgid = g then charge else 0 := by
  induction charges with
  | nil =>
    rw [addCharge, chargeFor_cons]
    exact (zero_add _).symm
  | cons head rest ih =>
    rw [addCharge]
    split
    · next heq =>
      subst heq
      simp only [chargeFor_cons]
      split <;> simp
    · next hne =>
      simp only [chargeFor_cons, ih]
      split
      · next hg => rw [if_neg fun heq => hne (hg.trans heq.symm), add_zero]
      · rfl

theorem chargeFor_of_mem {entry : CompetitorCharge}
    (hnd : (charges.map CompetitorCharge.cgid).Nodup) (h : entry ∈ charges) :
    chargeFor charges entry.cgid = entry.chargeNs := by
  induction charges with
  | nil => cases h
  | cons head rest ih =>
    rw [map_cons, nodup_cons] at hnd
    rw [chargeFor_cons]
    obtain rfl | hrest := mem_cons.1 h
    · exact if_pos rfl
    · have hne : head.cgid ≠ entry.cgid := fun heq =>
        hnd.1 (heq ▸ mem_map_of_mem hrest)
      rw [if_neg hne, ih hnd.2 hrest]

theorem chargeFor_of_not_mem {g : UInt64} (h : ∀ entry ∈ charges, entry.cgid ≠ g) :
    chargeFor charges g = 0 := by
  have hnone : charges.find? (fun entry => entry.cgid = g) = none :=
    List.find?_eq_none.2 fun entry hent => by simpa using h entry hent
  rw [chargeFor, hnone]
  rfl

theorem chargeFor_perm {charges' : List CompetitorCharge} (hperm : charges.Perm charges')
    (hnd : (charges.map CompetitorCharge.cgid).Nodup) (g : UInt64) :
    chargeFor charges g = chargeFor charges' g := by
  by_cases hlis : ∃ entry ∈ charges, entry.cgid = g
  · obtain ⟨entry, hent, rfl⟩ := hlis
    rw [chargeFor_of_mem hnd hent,
      chargeFor_of_mem ((hperm.map _).nodup_iff.1 hnd) (hperm.mem_iff.1 hent)]
  · have hnone : ∀ entry ∈ charges, entry.cgid ≠ g := fun entry hent heq =>
      hlis ⟨entry, hent, heq⟩
    rw [chargeFor_of_not_mem hnone,
      chargeFor_of_not_mem fun entry hent => hnone entry (hperm.mem_iff.2 hent)]

/-- The list of competitors has one entry for each cgid that a charged CSS ID stands for, with the
charges of all these CSS IDs. -/
theorem chargeByCgid_spec (hassigned : Assigned s) (h : BalancedAt s t) :
    ((chargeByCgid s t).map CompetitorCharge.cgid).Nodup ∧
      (∀ entry ∈ chargeByCgid s t, ∃ c < maxCSSIDs, entry.cgid = s.cssCgids c ∧
        s.externalChargeNsMatrix (externalChargeIndex c t) ≠ 0) ∧
      ∀ g, chargeFor (chargeByCgid s t) g = ∑ c ∈ Finset.range maxCSSIDs,
        if s.cssCgids c = g then s.externalChargeNsMatrix (externalChargeIndex c t) else 0 := by
  refine chargeByCgid_induction hassigned h
    (P := fun n charges => (charges.map CompetitorCharge.cgid).Nodup ∧
      (∀ entry ∈ charges, ∃ c < maxCSSIDs, entry.cgid = s.cssCgids c ∧
        s.externalChargeNsMatrix (externalChargeIndex c t) ≠ 0) ∧
      ∀ g, chargeFor charges g = ∑ c ∈ Finset.range n,
        if s.cssCgids c = g then s.externalChargeNsMatrix (externalChargeIndex c t) else 0)
    ⟨nodup_nil, fun entry hent => absurd hent not_mem_nil, fun g => rfl⟩ ?_ ?_
  · rintro n charges hzero ⟨hnd, hents, hcha⟩
    exact ⟨hnd, hents, fun g => by simp [Finset.sum_range_succ, hcha, hzero]⟩
  · rintro n hn charges hne ⟨hnd, hents, hcha⟩
    refine ⟨nodup_addCharge _ _ hnd, fun entry hent => ?_, fun g => ?_⟩
    · obtain hnew | hold := mem_addCharge hent
      · exact ⟨n, hn, hnew, hne⟩
      · exact hents entry hold
    · rw [Finset.sum_range_succ, ← hcha]
      exact chargeFor_addCharge _ _ _ _

theorem externalCompetitors_spec (hassigned : Assigned s) (h : BalancedAt s t) :
    ((externalCompetitors s t).map CompetitorCharge.cgid).Nodup ∧
      (∀ entry ∈ externalCompetitors s t, ∃ c < maxCSSIDs, entry.cgid = s.cssCgids c ∧
        s.externalChargeNsMatrix (externalChargeIndex c t) ≠ 0) ∧
      ∀ g, chargeFor (externalCompetitors s t) g = ∑ c ∈ Finset.range maxCSSIDs,
        if s.cssCgids c = g then s.externalChargeNsMatrix (externalChargeIndex c t) else 0 := by
  obtain ⟨hnd, hents, hcha⟩ := chargeByCgid_spec hassigned h
  have hperm : (externalCompetitors s t).Perm (chargeByCgid s t) := mergeSort_perm _ _
  have hnd' := (hperm.map CompetitorCharge.cgid).nodup_iff.2 hnd
  exact ⟨hnd', fun entry hent => hents entry (hperm.mem_iff.1 hent),
    fun g => (chargeFor_perm hperm hnd' g).trans (hcha g)⟩

/-- The report of an interval, whatever happened before it: each competitor is listed once, with the
time that it ran while the target waited, and the target itself is not listed. -/
theorem competitors_blamed (scaledDuration : UInt64 → UInt64) (calls : List Call)
    (hdistinct : ∀ c ∈ calls, c.Distinct) (externalAnomalyK : Float)
    (records : List Record) {t : Nat}
    (ht : t < maxTargets) (hactive : ((runCalls scaledDuration calls).targets t).active)
    (hkept : Kept scaledDuration t (call scaledDuration (runCalls scaledDuration calls)
      (.evaluate externalAnomalyK)) records) :
    let s := call scaledDuration (runCalls scaledDuration calls) (.evaluate externalAnomalyK)
    let s' := records.foldl (handleRecord scaledDuration) s
    ((externalCompetitors s' t).map CompetitorCharge.cgid).Nodup ∧
      (∀ entry ∈ externalCompetitors s' t, entry.cgid ≠ (s'.targets t).cgid) ∧
      ∀ g, blame scaledDuration t g s records < 2 ^ 64 →
        (chargeFor (externalCompetitors s' t) g).toNat = blame scaledDuration t g s records := by
  intro s s'
  have hassigned := (runCalls_spec scaledDuration hdistinct).2
  have hstart : Accounted s t fun _ => 0 := accounted_evaluate externalAnomalyK hassigned hactive
  have hend : Accounted s' t fun g => 0 + blame scaledDuration t g s records :=
    hstart.handleRecords scaledDuration ht hkept
  obtain ⟨hnodup, hentries, hcharges⟩ := externalCompetitors_spec hend.assigned (hend.balanced t ht)
  refine ⟨hnodup, fun entry hentry => ?_, fun g hfits => ?_⟩
  · obtain ⟨c, hc, heq, hne⟩ := hentries entry hentry
    exact heq ▸ hend.attributed.other c hc hne
  · rw [hcharges, hend.attributed.charged, Nat.zero_add, UInt64.toNat_ofNat_of_lt' hfits]

/-! ## A reused CSS ID -/

theorem handleIdentity_accepted (s : State) (identity : Identity)
    (hcss : identity.cssID.toNat < maxCSSIDs) (hcgid : identity.cgid ≠ 0) :
    (handleIdentity s identity).cssCgids =
        update s.cssCgids identity.cssID.toNat identity.cgid ∧
      (handleIdentity s identity).cssKnown = update s.cssKnown identity.cssID.toNat true ∧
      (handleIdentity s identity).externalChargeNsMatrix = s.externalChargeNsMatrix ∧
      SameOwners s.targets (handleIdentity s identity).targets := by
  have hacc : ¬ (identity.cssID.toNat ≥ maxCSSIDs ∨ identity.cgid = 0) :=
    not_or.2 ⟨Nat.not_le.2 hcss, hcgid⟩
  rw [handleIdentity, if_neg hacc]
  simp only
  split
  · exact ⟨rfl, rfl, rfl, sameOwners_forgetCSSID _ _⟩
  · exact ⟨rfl, rfl, rfl, (sameOwners_forgetCSSID _ _).trans (sameOwners_update _ _ _ _)⟩

theorem sameOwners_setTargets (s : State) (targets : Nat → Target) :
    SameOwners targets (setTargets s targets).targets := by
  rw [setTargets]
  generalize clearReusedTargetSlots s targets = cleared
  obtain ⟨dense, targets', heq, howns, -⟩ :=
    rebuild_spec { cleared with targets, activeTargetBitmap := targetsBitmap targets }
  rw [heq]
  exact howns

/-- An evaluation starts an interval. -/
theorem evaluate_start (externalAnomalyK : Float) (hassigned : Assigned s) {targets : Nat → Target}
    (howns : SameOwners targets s.targets) (hact : (targets t).active) :
    (evaluateExternalContentionRatios externalAnomalyK s).1.externalChargeNsMatrix = (fun _ => 0) ∧
      SameOwners targets (evaluateExternalContentionRatios externalAnomalyK s).1.targets ∧
      Accounted (evaluateExternalContentionRatios externalAnomalyK s).1 t fun _ => 0 := by
  refine ⟨charges_evaluate externalAnomalyK s, ?_,
    accounted_evaluate externalAnomalyK hassigned ((howns t).2.trans hact)⟩
  rw [(evaluate_spec externalAnomalyK s).1.targets]
  exact howns

def identityRecord (cssID : UInt16) (cgid : UInt64) : Record :=
  { kind := .identity, identity := { cssID, cgid } }

theorem handleRecord_identityRecord (scaledDuration : UInt64 → UInt64) (s : State) (cssID : UInt16)
    (cgid : UInt64) :
    handleRecord scaledDuration s (identityRecord cssID cgid) = handleIdentity s { cssID, cgid } :=
      rfl

/-- The task group 5 runs for 7 ns while the second target waits. -/
def sliceRecord : Record :=
  { kind := .batch
    batch :=
      { count := 1
        packedSlices := .replicate maxBatchSlices (packSlice 7 { base := 2 } 5) } }

/-- The targets of `sampleTargets`, right after an evaluation. -/
def sampleStart : State := call id (runCalls id [.setTargets sampleTargets]) (.evaluate 2)

theorem sampleStart_spec : sampleStart.externalChargeNsMatrix = (fun _ => 0) ∧
    SameOwners sampleTargets sampleStart.targets ∧ Accounted sampleStart 1 fun _ => 0 := by
  rw [sampleStart, call, runCalls, foldl_cons, foldl_nil, call]
  exact evaluate_start 2 (setTargets_spec start_spec.1 start_spec.2 distinct_sampleTargets).2.1
    (sameOwners_setTargets {} sampleTargets) rfl

/-- Task group 5 runs as the cgroup 20 while the second target waits. -/
def runRecords : List Record := [identityRecord 5 20, sliceRecord]

theorem runRecords_spec (hcha : s.externalChargeNsMatrix = fun _ => 0)
    (howns : SameOwners sampleTargets s.targets) (h : Accounted s 1 fun _ => 0) :
    let s' := runRecords.foldl (handleRecord id) s
    Kept id 1 s runRecords ∧ blame id 1 20 s runRecords = 7 ∧ SameOwners sampleTargets s'.targets ∧
      ∀ c, s'.externalChargeNsMatrix (externalChargeIndex c 1) = if c = 5 then 7 else 0 := by
  have hsli : sliceRecord.batch.slices = [packSlice 7 { base := 2 } 5] := by decide +kernel
  have hunp : unpackSliceBase (packSlice 7 { base := 2 } 5) = (5, 7) := by decide +kernel
  have hwaits : sliceHasTarget (packSlice 7 { base := 2 } 5) 1 = true := by decide +kernel
  have hkept : KeptBy s 1 (identityRecord 5 20) := fun _ _ hne => absurd (congrFun hcha _) hne
  obtain ⟨hcgids₁, hknown₁, hcha₁, howns₁⟩ :=
    handleIdentity_accepted s { cssID := 5, cgid := 20 } (by decide) (by decide)
  have h₁ : Accounted (handleIdentity s { cssID := 5, cgid := 20 }) 1 fun _ => 0 :=
    h.handleRecord id (by decide) hkept
  have hs' : runRecords.foldl (handleRecord id) s = handlePackedSlice id
      (handleIdentity s { cssID := 5, cgid := 20 }) (packSlice 7 { base := 2 } 5) := by
    simp only [runRecords, foldl_cons, foldl_nil, handleRecord_identityRecord]
    rw [handleRecord, show sliceRecord.kind = .batch from rfl]
    simp only [handleBatch, hsli, foldl_cons, foldl_nil]
  have hblame : blame id 1 20 s runRecords = sliceBlame id
      (handleIdentity s { cssID := 5, cgid := 20 }) 1 20 (packSlice 7 { base := 2 } 5) := by
    simp [runRecords, blame, handleRecord, identityRecord, recordBlame,
      show sliceRecord.kind = .batch from rfl, hsli]
  have hown : ((handleIdentity s { cssID := 5, cgid := 20 }).targets 1).cgid = 11 :=
    (howns₁ 1).1.trans (howns 1).1
  have hsame := (h₁.balanced.handlePackedSlice id (packSlice 7 { base := 2 } 5)).2
  refine ⟨⟨hkept, by simp [KeptBy, sliceRecord], trivial⟩, ?_, ?_, fun c => ?_⟩
  · rw [hblame, sliceBlame, hunp, hknown₁, hcgids₁, hown, hwaits]
    exact if_pos ⟨update_self _ _ _, update_self _ _ _, by decide, rfl⟩
  · rw [hs', hsame.targets]
    exact howns.trans howns₁
  · rw [hs', charges_handlePackedSlice id h₁.assigned _ (by decide) h₁.active, hcha₁, hcha,
      hunp, hown, hknown₁, hcgids₁, hwaits]
    by_cases hc : c = 5
    · subst hc
      simp
    · simp [hc]

theorem competitors_blamed_sample :
    (chargeFor (externalCompetitors (runRecords.foldl (handleRecord id) sampleStart) 1) 20).toNat =
      7 := by
  obtain ⟨hcharges, howners, hstart⟩ := sampleStart_spec
  obtain ⟨hkept, hblame, -⟩ := runRecords_spec hcharges howners hstart
  have hcalls : ∀ c ∈ [Call.setTargets sampleTargets], c.Distinct := by
    simp [Call.Distinct, distinct_sampleTargets]
  have hactive : ((runCalls id [.setTargets sampleTargets]).targets 1).active := by
    rw [runCalls, foldl_cons, foldl_nil, call]
    exact (sameOwners_setTargets {} sampleTargets 1).2
  have hreport := (competitors_blamed id [.setTargets sampleTargets] hcalls 2 runRecords
    (t := 1) (by decide) hactive hkept).2.2 20
  rw [← sampleStart, hblame] at hreport
  exact hreport (by decide)

/-- Task group 5 gets the cgid of the second target, for which it is charged. -/
theorem reused_css_spec {b : UInt64 → Nat} (h : Accounted s 1 b)
    (howns : SameOwners sampleTargets s.targets)
    (hcells : ∀ c, s.externalChargeNsMatrix (externalChargeIndex c 1) = if c = 5 then 7 else 0) :
    chargeFor (externalCompetitors (handleIdentity s { cssID := 5, cgid := 11 }) 1) 20 = 0 ∧
      ∃ entry ∈ externalCompetitors (handleIdentity s { cssID := 5, cgid := 11 }) 1,
        entry.cgid = ((handleIdentity s { cssID := 5, cgid := 11 }).targets 1).cgid := by
  obtain ⟨hcgids, -, hcha, howns'⟩ :=
    handleIdentity_accepted s { cssID := 5, cgid := 11 } (by decide) (by decide)
  obtain ⟨-, -, hrep⟩ := externalCompetitors_spec (h.assigned.handleIdentity _)
    (h.balanced.handleIdentity h.assigned.distinct { cssID := 5, cgid := 11 } 1 (by decide))
  generalize handleIdentity s { cssID := 5, cgid := 11 } = s' at *
  have hcgid : s'.cssCgids 5 = 11 := by
    rw [hcgids]
    exact update_self _ _ _
  have hown : (s'.targets 1).cgid = 11 := (howns' 1).1.trans (howns 1).1
  simp only [hcha, hcells] at hrep
  constructor
  · rw [hrep]
    refine Finset.sum_eq_zero fun c _ => ?_
    by_cases hc : c = 5
    · subst hc
      simp [hcgid]
    · simp [hc]
  · by_contra hnone
    have hzero : chargeFor (externalCompetitors s' 1) 11 = 0 :=
      chargeFor_of_not_mem fun entry hent heq => hnone ⟨entry, hent, heq.trans hown.symm⟩
    have hseven : chargeFor (externalCompetitors s' 1) 11 = 7 := by
      rw [hrep, Finset.sum_eq_single 5 (fun c _ hc => by simp [hc]) (fun hmem => ?_), hcgid]
      · rfl
      · exact absurd (Finset.mem_range.2 (by decide)) hmem
    rw [hzero] at hseven
    exact absurd hseven (by decide)

def reuseRecords : List Record := runRecords ++ [identityRecord 5 11]

theorem foldl_reuseRecords (s : State) :
    reuseRecords.foldl (handleRecord id) s =
      handleIdentity (runRecords.foldl (handleRecord id) s) { cssID := 5, cgid := 11 } := by
  rw [reuseRecords, foldl_append, foldl_cons, foldl_nil, handleRecord_identityRecord]

theorem blame_reuseRecords (s : State) :
    blame id 1 20 s reuseRecords = blame id 1 20 s runRecords := by
  rw [reuseRecords, blame_append]
  generalize runRecords.foldl (handleRecord id) s = s'
  rfl

/-- The charges of a cgroup that is gone are reported for the one that gets its CSS ID; here that is
the target itself, which is listed as its own competitor. -/
theorem reused_css_blamed :
    blame id 1 20 sampleStart reuseRecords = 7 ∧
      chargeFor (externalCompetitors (reuseRecords.foldl (handleRecord id) sampleStart) 1) 20 = 0 ∧
      ∃ entry ∈ externalCompetitors (reuseRecords.foldl (handleRecord id) sampleStart) 1,
        entry.cgid = ((reuseRecords.foldl (handleRecord id) sampleStart).targets 1).cgid := by
  obtain ⟨hcharges, howners, hstart⟩ := sampleStart_spec
  obtain ⟨hkept, hblame, howners', hcells⟩ := runRecords_spec hcharges howners hstart
  have hend := hstart.handleRecords id (by decide) hkept
  rw [foldl_reuseRecords, blame_reuseRecords]
  exact ⟨hblame, reused_css_spec hend howners' hcells⟩

end Huatuo.SchedBlame
