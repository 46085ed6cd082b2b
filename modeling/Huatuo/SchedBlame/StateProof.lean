import Huatuo.SchedBlame.State
import Mathlib.Algebra.BigOperators.Group.Finset.Piecewise
import Mathlib.Data.UInt

/-!
# The sched-blame ledger balances

After any sequence of calls the row of charges against a target adds up to its external contention,
no target waited for itself longer than it ran, and the index from task groups to targets is the one
that a rebuild would give.

`Balanced` speaks about the totals and the matrix, target by target; `Assigned` about the targets,
the bitmap and the index. They are kept by different steps: a record changes the totals under fixed
targets, and a change of targets only ever clears slots.
-/

namespace Huatuo.SchedBlame

open Words Function List
open scoped UInt64.CommRing

/-! ## The bitmap of active targets -/

variable {i c t : Nat} {s : State} {targets targets' : Nat → Target}

theorem contains_set (bitmap : TargetBitmap) {targetIndex : Nat} (ht : targetIndex < maxTargets)
    (hi : i < maxTargets) :
    (bitmap.set i).contains targetIndex =
      (bitmap.contains targetIndex || decide (i = targetIndex)) := by
  have hmax : maxTargets = 84 := rfl
  have hbits : baseBitmapBits = 20 := rfl
  unfold TargetBitmap.set TargetBitmap.contains
  rw [if_pos hi, if_pos ht, if_pos ht]
  by_cases hbase : i < baseBitmapBits <;> by_cases htbase : targetIndex < baseBitmapBits
  · simp only [if_pos hbase, if_pos htbase]
    exact bit32_or_mask _ (by omega) (by omega)
  · have hne : i ≠ targetIndex := by omega
    simp [hbase, htbase, hne]
  · have hne : i ≠ targetIndex := by omega
    simp [hbase, htbase, hne]
  · have hshift : i - baseBitmapBits = targetIndex - baseBitmapBits ↔ i = targetIndex := by omega
    simp only [if_neg hbase, if_neg htbase]
    rw [bit64_or_mask _ (by omega) (by omega)]
    simp only [hshift]

theorem contains_empty (targetIndex : Nat) : ({} : TargetBitmap).contains targetIndex = false := by
  simp [TargetBitmap.contains, bit32, bit64]

theorem contains_targetsBitmap (targets : Nat → Target) {targetIndex : Nat}
    (ht : targetIndex < maxTargets) :
    (targetsBitmap targets).contains targetIndex = (targets targetIndex).active := by
  -- the first n rounds set the flags below n
  have hrou : ∀ n ≤ maxTargets,
      ((List.range n).foldl (fun bitmap i => if (targets i).active then bitmap.set i else bitmap)
        ({} : TargetBitmap)).contains targetIndex =
        (decide (targetIndex < n) && (targets targetIndex).active) := by
    intro n hn
    induction n with
    | zero => simp [contains_empty]
    | succ n ih =>
      rw [range_succ, foldl_concat]
      have hlast : targetIndex < n + 1 ↔ targetIndex < n ∨ n = targetIndex := by omega
      split
      · next hact =>
        rw [contains_set _ ht (by omega), ih (by omega)]
        by_cases heq : n = targetIndex
        · simp [← heq, hact]
        · simp [hlast, heq]
      · next hact =>
        rw [ih (by omega)]
        by_cases heq : n = targetIndex
        · simp [← heq, hact]
        · simp [hlast, heq]
  rw [targetsBitmap, hrou _ le_rfl]
  simp [ht]

/-! ## The waiting targets of a slice -/

variable (packedSlice : PackedSlice)

def waitingTargets : List Nat :=
  (List.range maxTargets).filter (sliceHasTarget packedSlice)

theorem setBits_base :
    setBits 32 ((packedSlice.packedBase >>> 12) &&& 0xfffff).toNat =
      (List.range baseBitmapBits).filter (sliceHasTarget packedSlice) := by
  have hword : ((packedSlice.packedBase >>> 12) &&& 0xfffff).toNat =
      (packedSlice.packedBase.toNat >>> 12) % 2 ^ 20 := by
    rw [UInt64.toNat_and, UInt64.toNat_shiftRight]
    exact Nat.and_two_pow_sub_one_eq_mod _ 20
  have hbit (i : Nat) : ((packedSlice.packedBase.toNat >>> 12) % 2 ^ 20).testBit i =
      (decide (i < baseBitmapBits) && sliceHasTarget packedSlice i) := by
    rw [Nat.testBit_mod_two_pow, Nat.testBit_shiftRight]
    by_cases hi : i < 20
    · have htgt : i < maxTargets := hi.trans (by decide)
      have hbase : i < baseBitmapBits := hi
      rw [sliceHasTarget, if_pos htgt, if_pos hbase, bit64_eq _ (by unfold cssIDBits; omega)]
      simp [hbase, hi, cssIDBits]
    · simp [baseBitmapBits, hi]
  have hrg : List.range 32 = List.range baseBitmapBits ++ (List.range 12).map (20 + ·) := rfl
  have hlow : (List.range baseBitmapBits).filter
      ((packedSlice.packedBase.toNat >>> 12) % 2 ^ 20).testBit =
        (List.range baseBitmapBits).filter (sliceHasTarget packedSlice) :=
    filter_congr fun i hi => by rw [hbit, decide_eq_true (mem_range.1 hi), Bool.true_and]
  have hhigh : ((List.range 12).map (20 + ·)).filter
      ((packedSlice.packedBase.toNat >>> 12) % 2 ^ 20).testBit = [] := by
    refine filter_eq_nil_iff.2 fun i hi => ?_
    obtain ⟨j, -, rfl⟩ := mem_map.1 hi
    have hge : ¬ 20 + j < baseBitmapBits := Nat.not_lt.2 (Nat.le_add_right 20 j)
    rw [hbit, decide_eq_false hge, Bool.false_and]
    decide
  rw [setBits, hword, hrg, filter_append, hlow, hhigh, append_nil]

theorem setBits_extra :
    (setBits 64 packedSlice.bitmapExtra.toNat).map (baseBitmapBits + ·) =
      ((List.range 64).map (baseBitmapBits + ·)).filter (sliceHasTarget packedSlice) := by
  rw [setBits, filter_map]
  congr 1
  refine filter_congr fun i hi => ?_
  have hlt : i < 64 := mem_range.1 hi
  have htgt : baseBitmapBits + i < maxTargets := by
    unfold maxTargets extraBitmapU64Count
    omega
  rw [comp_apply, sliceHasTarget, if_pos htgt, if_neg (by omega), Nat.add_sub_cancel_left,
    bit64_eq _ hlt]

/-- The two loops together charge the waiting targets, each once. -/
theorem chargeWaiting_eq (competitorCSSID competitorDenseID : Nat)
    (amount : UInt64) (state : State) :
    chargeWaiting packedSlice competitorCSSID competitorDenseID amount state =
      (waitingTargets packedSlice).foldl (chargeExternal competitorCSSID competitorDenseID amount)
        state := by
  have hbase : ((packedSlice.packedBase >>> 12) &&& 0xfffff).toNat < 2 ^ 32 := by
    rw [UInt64.toNat_and]
    exact Nat.lt_of_le_of_lt Nat.and_le_right (by decide)
  have hrg : List.range maxTargets =
      List.range baseBitmapBits ++ (List.range 64).map (baseBitmapBits + ·) := by
    rw [← range_add]
    rfl
  simp only [chargeWaiting]
  rw [forEachBit_eq _ _ hbase (length_setBits_le 32 _), setBits_base,
    forEachBit_eq _ _ packedSlice.bitmapExtra.toNat_lt (length_setBits_le 64 _), waitingTargets,
    hrg, filter_append, foldl_append, ← setBits_extra, foldl_map]

/-! ## Charges -/

theorem externalChargeIndex_inj {c' t' : Nat} (ht : t < maxTargets) (ht' : t' < maxTargets) :
    externalChargeIndex c t = externalChargeIndex c' t' ↔ c = c' ∧ t = t' := by
  constructor
  · intro h
    simp only [externalChargeIndex, maxTargets, baseBitmapBits, extraBitmapU64Count] at h ht ht'
    omega
  · rintro ⟨rfl, rfl⟩
    rfl

/-- The totals of a target agree with each other and with its row of charges. -/
structure BalancedAt (s : State) (t : Nat) : Prop where
  external : ∑ c ∈ Finset.range maxCSSIDs, s.externalChargeNsMatrix (externalChargeIndex c t) =
    s.externalContentionNsByTarget t
  known : ∀ c < maxCSSIDs, s.externalChargeNsMatrix (externalChargeIndex c t) ≠ 0 → s.cssKnown c
  runtime : s.runtimeNsByTarget t = UInt64.ofNat (s.runtimeTotal t)
  internal : ∃ n ≤ s.runtimeTotal t, s.internalContentionNsByTarget t = UInt64.ofNat n

def Balanced (s : State) : Prop := ∀ t < maxTargets, BalancedAt s t

/-- The balance speaks about the totals, and about the CSS IDs that are known. -/
theorem Balanced.congr {s' : State} (h : Balanced s)
    (hmat : s'.externalChargeNsMatrix = s.externalChargeNsMatrix)
    (hext : s'.externalContentionNsByTarget = s.externalContentionNsByTarget)
    (hrunt : s'.runtimeNsByTarget = s.runtimeNsByTarget)
    (hint : s'.internalContentionNsByTarget = s.internalContentionNsByTarget)
    (htotal : s'.runtimeTotal = s.runtimeTotal) (hknown : ∀ c, s.cssKnown c → s'.cssKnown c) :
    Balanced s' := by
  intro t ht
  obtain ⟨hsum, hcha, hrun, hself⟩ := h t ht
  refine ⟨?_, fun c hc hne => hknown c (hcha c hc (hmat ▸ hne)), ?_, ?_⟩
  · rw [hmat, hext, hsum]
  · rw [hrunt, htotal, hrun]
  · rwa [hint, htotal]

/-- A slot with nothing in it. -/
structure Cleared (s : State) (t : Nat) : Prop where
  charges : ∀ c < maxCSSIDs, s.externalChargeNsMatrix (externalChargeIndex c t) = 0
  external : s.externalContentionNsByTarget t = 0
  runtime : s.runtimeNsByTarget t = 0
  internal : s.internalContentionNsByTarget t = 0
  throttled : s.throttledTimeNsByTarget t = 0
  history : s.externalContentionRatioHistory t = {}
  total : s.runtimeTotal t = 0

theorem Cleared.balancedAt (h : Cleared s t) : BalancedAt s t where
  external := by
    rw [h.external]
    exact Finset.sum_eq_zero fun c hc => h.charges c (Finset.mem_range.1 hc)
  known := fun c hc hne => absurd (h.charges c hc) hne
  runtime := by
    rw [h.runtime, h.total]
    rfl
  internal := ⟨0, Nat.zero_le _, h.internal⟩

theorem Balanced.chargeExternal (h : Balanced s) {css : Nat} (hcss : css < maxCSSIDs)
    (hknown : s.cssKnown css) (dense : Nat) (amount : UInt64) (hi : i < maxTargets) :
    Balanced (chargeExternal css dense amount s i) := by
  unfold SchedBlame.chargeExternal
  split
  · intro t ht
    obtain ⟨hext, hcha, hrunt, hint⟩ := h t ht
    have hent (c : Nat) : externalChargeIndex c t = externalChargeIndex css i ↔ c = css ∧ t = i :=
      externalChargeIndex_inj ht hi
    refine ⟨?_, fun c hc hne => ?_, hrunt, hint⟩
    · by_cases hti : t = i
      · have hterm (c : Nat) : update s.externalChargeNsMatrix (externalChargeIndex css i)
            (s.externalChargeNsMatrix (externalChargeIndex css i) + amount)
            (externalChargeIndex c t) =
              s.externalChargeNsMatrix (externalChargeIndex c t) +
                if c = css then amount else 0 := by
          by_cases hc : c = css
          · rw [hc, hti, update_self, if_pos rfl]
          · rw [update_of_ne (fun heq => hc ((hent c).1 heq).1), if_neg hc, add_zero]
        simp only [hterm]
        rw [Finset.sum_add_distrib, hext, Finset.sum_ite_eq', if_pos (Finset.mem_range.2 hcss),
          hti, update_self]
      · have hterm (c : Nat) : update s.externalChargeNsMatrix (externalChargeIndex css i)
            (s.externalChargeNsMatrix (externalChargeIndex css i) + amount)
            (externalChargeIndex c t) = s.externalChargeNsMatrix (externalChargeIndex c t) :=
          update_of_ne (fun heq => hti ((hent c).1 heq).2) _ _
        simp [hterm, hext, update_of_ne hti]
    · by_cases hc' : c = css
      · exact hc' ▸ hknown
      have hterm : update s.externalChargeNsMatrix (externalChargeIndex css i)
          (s.externalChargeNsMatrix (externalChargeIndex css i) + amount)
          (externalChargeIndex c t) = s.externalChargeNsMatrix (externalChargeIndex c t) :=
        update_of_ne (fun heq => hc' ((hent c).1 heq).1) _ _
      exact hcha c hc (hterm ▸ hne)
  · exact h

theorem Balanced.chargeRuntime (h : Balanced s) (i : Nat) (waiting : Bool) (amount : UInt64) :
    Balanced (chargeRuntime i waiting amount s) := by
  intro t ht
  obtain ⟨hext, hcha, hrunt, n, hn, hint⟩ := h t ht
  refine ⟨hext, hcha, ?_, ?_⟩ <;> simp only [SchedBlame.chargeRuntime]
  · by_cases hti : t = i
    · subst hti
      rw [update_self, update_self, hrunt, UInt64.ofNat_add, UInt64.ofNat_toNat]
    · rw [update_of_ne hti, update_of_ne hti, hrunt]
  · by_cases hti : t = i
    · subst hti
      rw [update_self]
      cases waiting with
      | true =>
        refine ⟨n + amount.toNat, by omega, ?_⟩
        rw [if_pos rfl, update_self, hint, UInt64.ofNat_add, UInt64.ofNat_toNat]
      | false => exact ⟨n, by omega, hint⟩
    · rw [update_of_ne hti]
      refine ⟨n, hn, ?_⟩
      cases waiting with
      | true => rw [if_pos rfl, update_of_ne hti, hint]
      | false => exact hint

/-! ## The index from task groups to targets -/

/-- Targets that differ in their CSS IDs only. -/
def SameOwners (targets targets' : Nat → Target) : Prop :=
  ∀ i, (targets' i).cgid = (targets i).cgid ∧ (targets' i).active = (targets i).active

theorem SameOwners.trans {targets'' : Nat → Target} (h : SameOwners targets targets')
    (h' : SameOwners targets' targets'') : SameOwners targets targets'' :=
  fun i => ⟨(h' i).1.trans (h i).1, (h' i).2.trans (h i).2⟩

theorem sameOwners_update (targets : Nat → Target) (i : Nat) (cssID : UInt16) (cssKnown : Bool) :
    SameOwners targets (update targets i { targets i with cssID, cssKnown }) := by
  intro j
  by_cases hji : j = i
  · subst hji
    rw [update_self]
    exact ⟨rfl, rfl⟩
  · rw [update_of_ne hji]
    exact ⟨rfl, rfl⟩

theorem SameOwners.denseIDByCgid_eq (h : SameOwners targets targets') :
    denseIDByCgid targets' = denseIDByCgid targets := by
  simp only [denseIDByCgid, (h _).1, (h _).2]

theorem SameOwners.distinct (h : SameOwners targets targets') (hdist : DistinctTargets targets) :
    DistinctTargets targets' := by
  intro i hi j hj hact hact' hcgid
  rw [(h i).2] at hact
  rw [(h j).2] at hact'
  rw [(h i).1, (h j).1] at hcgid
  exact hdist i hi j hj hact hact' hcgid

/-- The map holds the active target of a cgid. -/
theorem denseIDByCgid_eq_some (hdist : DistinctTargets targets) {cgid : UInt64} :
    denseIDByCgid targets cgid = some t ↔
      t < maxTargets ∧ (targets t).active ∧ (targets t).cgid = cgid := by
  -- after n rounds it holds those below n
  have hrou : ∀ n ≤ maxTargets, ((List.range n).foldl (fun (dense : UInt64 → Option Nat) i =>
      if (targets i).active then update dense (targets i).cgid (some i) else dense)
        fun _ => none) cgid = some t ↔ t < n ∧ (targets t).active ∧ (targets t).cgid = cgid := by
    intro n hn
    induction n with
    | zero => simp
    | succ n ih =>
      rw [range_succ, foldl_concat]
      have ih := ih (by omega)
      by_cases hact : (targets n).active
      · rw [if_pos hact]
        by_cases hcgid : (targets n).cgid = cgid
        · subst hcgid
          rw [update_self, Option.some.injEq]
          constructor
          · rintro rfl
            exact ⟨by omega, hact, rfl⟩
          · rintro ⟨ht, hact', hcgid'⟩
            exact hdist n (by omega) t (by omega) hact hact' hcgid'.symm
        · rw [update_of_ne (Ne.symm hcgid), ih]
          have hne : (targets t).cgid = cgid → t ≠ n := fun h heq => hcgid (heq ▸ h)
          constructor
          · rintro ⟨ht, hrest⟩
            exact ⟨by omega, hrest⟩
          · rintro ⟨ht, hact', hcgid'⟩
            exact ⟨by have := hne hcgid'; omega, hact', hcgid'⟩
      · rw [if_neg hact, ih]
        constructor
        · rintro ⟨ht, hrest⟩
          exact ⟨by omega, hrest⟩
        · rintro ⟨ht, hact', hcgid'⟩
          have hne : t ≠ n := fun heq => hact (heq ▸ hact')
          exact ⟨by omega, hact', hcgid'⟩
  exact hrou _ le_rfl

/-- The loop of `handleIdentity` finds what the map of a rebuild holds. -/
theorem find?_eq_denseIDByCgid (hdist : DistinctTargets targets) (cgid : UInt64) :
    ((List.range maxTargets).find? fun t => (targets t).active && cgid = (targets t).cgid) =
      denseIDByCgid targets cgid := by
  apply Option.ext
  intro t
  rw [denseIDByCgid_eq_some hdist]
  constructor
  · intro hfind
    have hfound := List.find?_some hfind
    simp only [Bool.and_eq_true, decide_eq_true_eq] at hfound
    exact ⟨mem_range.1 (mem_of_find?_eq_some hfind), hfound.1, hfound.2.symm⟩
  · rintro ⟨ht, hact, hcgid⟩
    rw [List.find?_range_eq_some]
    refine ⟨by simp [hact, hcgid], mem_range.2 ht, fun j hj => ?_⟩
    by_contra hother
    simp only [Bool.not_eq_eq_eq_not, Bool.not_true, Bool.not_eq_false, Bool.and_eq_true,
      decide_eq_true_eq] at hother
    have heq := hdist t ht j (by omega) hact hother.1 (hcgid.trans hother.2)
    omega

/-- The target of a task group, as a rebuild finds it. -/
def lookup (s : State) (c : Nat) : Nat :=
  if s.cssKnown c then (denseIDByCgid s.targets (s.cssCgids c)).getD nonTarget else nonTarget

structure Assigned (s : State) : Prop where
  distinct : DistinctTargets s.targets
  bitmap : ∀ t < maxTargets, s.activeTargetBitmap.contains t = (s.targets t).active
  cgid : ∀ c, s.cssKnown c → s.cssCgids c ≠ 0
  dense : ∀ c < maxCSSIDs, s.targetDenseByCSSID c = lookup s c

/-- A rebuild changes the index and the CSS IDs of targets. -/
theorem rebuild_spec (s : State) : ∃ dense targets,
    rebuildTargetDenseByCSSID s = { s with targetDenseByCSSID := dense, targets := targets } ∧
      SameOwners s.targets targets ∧ ∀ c < maxCSSIDs, dense c = lookup s c := by
  -- after n rounds the index is right below n and empty from n on
  have hrou : ∀ n, ∃ dense targets,
      (List.range n).foldl (rebuildCSSID (denseIDByCgid s.targets))
        { s with
          targetDenseByCSSID := fun _ => nonTarget
          targets := fun t => { s.targets t with cssKnown := false } } =
          { s with targetDenseByCSSID := dense, targets := targets } ∧
        SameOwners s.targets targets ∧ ∀ c, dense c = if c < n then lookup s c else nonTarget := by
    intro n
    induction n with
    | zero => exact ⟨_, _, rfl, fun i => ⟨rfl, rfl⟩, fun c => rfl⟩
    | succ n ih =>
      obtain ⟨dense, targets, heq, howns, hdense⟩ := ih
      have hkeep (hnone : lookup s n = nonTarget) (c : Nat) :
          dense c = if c < n + 1 then lookup s c else nonTarget := by
        by_cases hcn : c = n
        · subst hcn
          simp [hdense, hnone]
        · have hlt : c < n + 1 ↔ c < n := by omega
          simp only [hdense, hlt]
      rw [range_succ, foldl_concat, heq, rebuildCSSID]
      split
      · next hknown =>
        have hknown : s.cssKnown n = true := hknown
        split
        · next hnone =>
          have hnone : denseIDByCgid s.targets (s.cssCgids n) = none := hnone
          exact ⟨dense, targets, rfl, howns, hkeep (by simp [lookup, hknown, hnone])⟩
        · next t hsome =>
          have hsome : denseIDByCgid s.targets (s.cssCgids n) = some t := hsome
          refine ⟨_, _, rfl, howns.trans (sameOwners_update _ t _ _), fun c => ?_⟩
          by_cases hcn : c = n
          · subst hcn
            simp [lookup, hknown, hsome]
          · have hlt : c < n + 1 ↔ c < n := by omega
            simp only [update_of_ne hcn, hdense, hlt]
      · next hknown =>
        have hknown : ¬ s.cssKnown n = true := hknown
        exact ⟨dense, targets, rfl, howns, hkeep (by simp [lookup, hknown])⟩
  obtain ⟨dense, targets, heq, howns, hdense⟩ := hrou maxCSSIDs
  exact ⟨dense, targets, heq, howns, fun c hc => by rw [hdense, if_pos hc]⟩

theorem sameOwners_forgetCSSID (s : State) (cssID : UInt16) :
    SameOwners s.targets (forgetCSSID s cssID).targets := by
  simp only [forgetCSSID]
  split
  · exact sameOwners_update _ _ _ _
  · exact fun i => ⟨rfl, rfl⟩

/-- An identity record makes a CSS ID known and assigns it as a rebuild would. -/
theorem handleIdentity_spec (hdist : DistinctTargets s.targets) (identity : Identity) :
    handleIdentity s identity = s ∨
    identity.cssID.toNat < maxCSSIDs ∧ identity.cgid ≠ 0 ∧ ∃ targets,
      handleIdentity s identity =
        { s with
          cssCgids := update s.cssCgids identity.cssID.toNat identity.cgid
          cssKnown := update s.cssKnown identity.cssID.toNat true
          targetDenseByCSSID := update s.targetDenseByCSSID identity.cssID.toNat
            ((denseIDByCgid s.targets identity.cgid).getD nonTarget)
          targets } ∧ SameOwners s.targets targets := by
  by_cases hrej : identity.cssID.toNat ≥ maxCSSIDs ∨ identity.cgid = 0
  · exact .inl (if_pos hrej)
  obtain ⟨hcss, hcgid⟩ := not_or.1 hrej
  refine .inr ⟨Nat.lt_of_not_le hcss, hcgid, ?_⟩
  set known : State :=
    { s with
      cssCgids := update s.cssCgids identity.cssID.toNat identity.cgid
      cssKnown := update s.cssKnown identity.cssID.toNat true }
  have howns : SameOwners s.targets (forgetCSSID known identity.cssID).targets :=
    sameOwners_forgetCSSID known identity.cssID
  have hfind := find?_eq_denseIDByCgid (howns.distinct hdist) identity.cgid
  rw [howns.denseIDByCgid_eq] at hfind
  simp only [handleIdentity, if_neg hrej]
  cases hdense : denseIDByCgid s.targets identity.cgid with simp only [hdense, known] at hfind ⊢
  | none => exact ⟨_, by rw [hfind]; rfl, howns⟩
  | some t =>
    refine ⟨_, ?_, howns.trans
      (sameOwners_update _ t (UInt16.ofNat identity.cssID.toNat) true)⟩
    rw [hfind]
    simp only [assignCSSID, forgetCSSID, update_idem, Option.getD_some, known]

/-! ## One call -/

theorem Assigned.handleIdentity (h : Assigned s) (identity : Identity) :
    Assigned (handleIdentity s identity) := by
  obtain heq | ⟨hcss, hcgid, targets, heq, howns⟩ := handleIdentity_spec h.distinct identity
  · rwa [heq]
  · rw [heq]
    refine ⟨howns.distinct h.distinct, fun t ht => (h.bitmap t ht).trans (howns t).2.symm,
      fun c hknown => ?_, fun c hc => ?_⟩
    · by_cases hci : c = identity.cssID.toNat
      · simpa [hci] using hcgid
      · simp only [update_of_ne hci] at hknown ⊢
        exact h.cgid c hknown
    · by_cases hci : c = identity.cssID.toNat
      · simp [lookup, hci, howns.denseIDByCgid_eq]
      · simp only [lookup, update_of_ne hci, howns.denseIDByCgid_eq]
        exact h.dense c hc

theorem Balanced.handleIdentity (h : Balanced s) (hdist : DistinctTargets s.targets)
    (identity : Identity) : Balanced (handleIdentity s identity) := by
  obtain heq | ⟨-, -, targets, heq, -⟩ := handleIdentity_spec hdist identity
  · rwa [heq]
  · rw [heq]
    refine h.congr rfl rfl rfl rfl rfl fun c hknown => ?_
    by_cases hci : c = identity.cssID.toNat
    · simp [hci]
    · simpa only [update_of_ne hci] using hknown

/-- Steps that change the totals only. -/
structure SameAssignment (s s' : State) : Prop where
  cssCgids : s'.cssCgids = s.cssCgids
  cssKnown : s'.cssKnown = s.cssKnown
  dense : s'.targetDenseByCSSID = s.targetDenseByCSSID
  targets : s'.targets = s.targets
  bitmap : s'.activeTargetBitmap = s.activeTargetBitmap

namespace SameAssignment

theorem refl (s : State) : SameAssignment s s := ⟨rfl, rfl, rfl, rfl, rfl⟩

theorem trans {s s' s'' : State} (h : SameAssignment s s') (h' : SameAssignment s' s'') :
    SameAssignment s s'' :=
  ⟨h'.cssCgids.trans h.cssCgids, h'.cssKnown.trans h.cssKnown, h'.dense.trans h.dense,
    h'.targets.trans h.targets, h'.bitmap.trans h.bitmap⟩

theorem assigned {s s' : State} (h : SameAssignment s s') (hs : Assigned s) : Assigned s' where
  distinct := h.targets ▸ hs.distinct
  bitmap := by
    rw [h.bitmap, h.targets]
    exact hs.bitmap
  cgid := by
    rw [h.cssKnown, h.cssCgids]
    exact hs.cgid
  dense := by
    simp only [lookup, h.dense, h.cssKnown, h.cssCgids, h.targets]
    exact hs.dense

end SameAssignment

theorem sameAssignment_chargeExternal (css dense : Nat) (amount : UInt64) (s : State) (i : Nat) :
    SameAssignment s (chargeExternal css dense amount s i) := by
  unfold chargeExternal
  split <;> exact ⟨rfl, rfl, rfl, rfl, rfl⟩

/-- Charging the waiting targets keeps the balance and the assignment. -/
theorem Balanced.chargeWaiting (h : Balanced s) {css : Nat} (hcss : css < maxCSSIDs)
    (hknown : s.cssKnown css) (packedSlice : PackedSlice) (dense : Nat) (amount : UInt64) :
    Balanced (chargeWaiting packedSlice css dense amount s) ∧
      SameAssignment s (chargeWaiting packedSlice css dense amount s) := by
  rw [chargeWaiting_eq]
  refine List.foldlRecOn (waitingTargets packedSlice) _
    (motive := fun s' => Balanced s' ∧ SameAssignment s s') ⟨h, .refl s⟩ ?_
  rintro s' ⟨hbal, hsame⟩ t ht
  have htgt : t < maxTargets := mem_range.1 (mem_filter.1 ht).1
  have hknown' : s'.cssKnown css := by rwa [hsame.cssKnown]
  exact ⟨hbal.chargeExternal hcss hknown' dense amount htgt,
    hsame.trans (sameAssignment_chargeExternal css dense amount s' t)⟩

theorem unpackSliceBase_lt : (unpackSliceBase packedSlice).1.toNat < maxCSSIDs := by
  have hmask : (packedSlice.packedBase &&& cssIDMask).toNat < maxCSSIDs := by
    rw [UInt64.toNat_and]
    exact Nat.lt_of_le_of_lt Nat.and_le_right (by decide)
  rw [unpackSliceBase, UInt64.toNat_toUInt16]
  exact Nat.lt_of_le_of_lt (Nat.mod_le _ _) hmask

theorem Balanced.handlePackedSlice (h : Balanced s) (scaledDuration : UInt64 → UInt64)
    (packedSlice : PackedSlice) :
    Balanced (handlePackedSlice scaledDuration s packedSlice) ∧
      SameAssignment s (handlePackedSlice scaledDuration s packedSlice) := by
  simp only [SchedBlame.handlePackedSlice]
  split
  · exact ⟨h, .refl s⟩
  rename_i hrun
  have hknown : s.cssKnown (unpackSliceBase packedSlice).1.toNat := by
    by_contra hunk
    exact hrun (by simp [hunk])
  have hcss := unpackSliceBase_lt packedSlice
  split
  · obtain ⟨hbal, hsame⟩ :=
      (h.chargeRuntime _ _ _).chargeWaiting hcss (by exact hknown) packedSlice _ _
    exact ⟨hbal, hsame.cssCgids, hsame.cssKnown, hsame.dense, hsame.targets, hsame.bitmap⟩
  · exact h.chargeWaiting hcss hknown packedSlice _ _

theorem Balanced.handleBatch (h : Balanced s) (scaledDuration : UInt64 → UInt64) (batch : Batch) :
    Balanced (handleBatch scaledDuration s batch) ∧
      SameAssignment s (handleBatch scaledDuration s batch) := by
  refine List.foldlRecOn batch.slices _ (motive := fun s' => Balanced s' ∧ SameAssignment s s')
    ⟨h, .refl s⟩ ?_
  rintro s' ⟨hbal, hsame⟩ packedSlice -
  exact (hbal.handlePackedSlice scaledDuration packedSlice).imp_right hsame.trans

theorem Balanced.handleThrottle (h : Balanced s) (throttle : Throttle) :
    Balanced (handleThrottle s throttle) ∧ SameAssignment s (handleThrottle s throttle) := by
  unfold SchedBlame.handleThrottle
  split
  · exact ⟨h.congr rfl rfl rfl rfl rfl fun _ => id, rfl, rfl, rfl, rfl, rfl⟩
  split
  · exact ⟨h.congr rfl rfl rfl rfl rfl fun _ => id, rfl, rfl, rfl, rfl, rfl⟩
  · exact ⟨h, .refl s⟩

/-! ## New targets -/

theorem clearCharges_self (matrix : Nat → UInt64) (t : Nat) (hc : c < maxCSSIDs) :
    clearCharges t matrix (externalChargeIndex c t) = 0 := by
  have hrou : ∀ n, c < n → (List.range n).foldl (fun matrix c =>
      update matrix (externalChargeIndex c t) 0) matrix (externalChargeIndex c t) = 0 := by
    intro n hn
    induction n with
    | zero => omega
    | succ n ih =>
      rw [range_succ, foldl_concat]
      by_cases hcn : c = n
      · rw [hcn, update_self]
      · have hlt : c < n := by omega
        rw [update_apply, ih hlt, ite_self]
  exact hrou _ hc

theorem clearCharges_other (matrix : Nat → UInt64) (ht : t < maxTargets) (hi : i < maxTargets)
    (hti : t ≠ i) (c : Nat) :
    clearCharges i matrix (externalChargeIndex c t) = matrix (externalChargeIndex c t) := by
  refine List.foldlRecOn (List.range maxCSSIDs) _
    (motive := fun m : Nat → UInt64 => m (externalChargeIndex c t) =
      matrix (externalChargeIndex c t))
    rfl ?_
  intro m hm c' _
  rw [update_of_ne (fun heq => hti ((externalChargeIndex_inj ht hi).1 heq).2), hm]

theorem cleared_clearReusedTargetSlot (s : State) (t : Nat) :
    Cleared (clearReusedTargetSlot s t) t := by
  refine ⟨fun c hc => ?_, ?_, ?_, ?_, ?_, ?_, ?_⟩ <;>
    simp only [clearReusedTargetSlot, update_self]
  exact clearCharges_self _ t hc

theorem sameAssignment_clearReusedTargetSlot (s : State) (t : Nat) :
    SameAssignment s (clearReusedTargetSlot s t) := by
  unfold clearReusedTargetSlot
  exact ⟨rfl, rfl, rfl, rfl, rfl⟩

section

variable {s : State} {t i : Nat}

theorem Cleared.clearReusedTargetSlot (h : Cleared s t) (ht : t < maxTargets)
    (hi : i < maxTargets) :
    Cleared (clearReusedTargetSlot s i) t := by
  by_cases hti : t = i
  · subst hti
    exact cleared_clearReusedTargetSlot s t
  · refine ⟨fun c hc => ?_, ?_, ?_, ?_, ?_, ?_, ?_⟩ <;>
      simp only [SchedBlame.clearReusedTargetSlot, update_of_ne hti]
    · rw [clearCharges_other _ ht hi hti]
      exact h.charges c hc
    · exact h.external
    · exact h.runtime
    · exact h.internal
    · exact h.throttled
    · exact h.history
    · exact h.total

theorem Balanced.clearReusedTargetSlot (h : Balanced s) (hi : i < maxTargets) :
    Balanced (clearReusedTargetSlot s i) := by
  intro t ht
  by_cases hti : t = i
  · subst hti
    exact (cleared_clearReusedTargetSlot s t).balancedAt
  · obtain ⟨hext, hcha, hrunt, hint⟩ := h t ht
    refine ⟨?_, fun c hc => ?_, ?_, ?_⟩ <;>
      simp only [SchedBlame.clearReusedTargetSlot, update_of_ne hti,
        clearCharges_other _ ht hi hti]
    · exact hext
    · exact hcha c hc
    · exact hrunt
    · exact hint

end

/-- The slots whose owner changes are cleared, and the totals stay in balance. -/
theorem clearReusedTargetSlots_spec (h : Balanced s) (targets : Nat → Target) :
    Balanced (clearReusedTargetSlots s targets) ∧
      SameAssignment s (clearReusedTargetSlots s targets) ∧
      ∀ t < maxTargets, sameTargetOwner (s.targets t) (targets t) = false →
        Cleared (clearReusedTargetSlots s targets) t := by
  have hrou : ∀ n ≤ maxTargets, ∃ s', (List.range n).foldl (fun cleared t =>
      if sameTargetOwner (cleared.targets t) (targets t) then cleared
      else clearReusedTargetSlot cleared t) s = s' ∧ Balanced s' ∧ SameAssignment s s' ∧
        ∀ t < n, sameTargetOwner (s.targets t) (targets t) = false → Cleared s' t := by
    intro n hn
    induction n with
    | zero => exact ⟨s, rfl, h, .refl s, fun t ht => absurd ht (Nat.not_lt_zero t)⟩
    | succ n ih =>
      obtain ⟨s', heq, hbal, hsame, hcle⟩ := ih (by omega)
      rw [range_succ, foldl_concat, heq, hsame.targets]
      refine ⟨_, rfl, ?_⟩
      split
      · next hown =>
        refine ⟨hbal, hsame, fun t ht hchan => hcle t ?_ hchan⟩
        have hne : t ≠ n := fun htn => by simp [htn, hown] at hchan
        omega
      · refine ⟨hbal.clearReusedTargetSlot hn, hsame.trans
          (sameAssignment_clearReusedTargetSlot s' n), fun t ht hchan => ?_⟩
        by_cases htn : t = n
        · rw [htn]
          exact cleared_clearReusedTargetSlot s' n
        · exact (hcle t (by omega) hchan).clearReusedTargetSlot (by omega) hn
  obtain ⟨s', heq, hspec⟩ := hrou maxTargets le_rfl
  rw [clearReusedTargetSlots, heq]
  exact hspec

theorem setTargets_spec (h : Balanced s) (hassigned : Assigned s)
    (hdist : DistinctTargets targets) :
    Balanced (setTargets s targets) ∧ Assigned (setTargets s targets) ∧
      ∀ t < maxTargets, sameTargetOwner (s.targets t) (targets t) = false →
        Cleared (setTargets s targets) t := by
  obtain ⟨hbal, hsame, hcle⟩ := clearReusedTargetSlots_spec h targets
  rw [setTargets]
  generalize clearReusedTargetSlots s targets = cleared at *
  obtain ⟨dense, targets', heq, howns, hdense⟩ :=
    rebuild_spec { cleared with targets, activeTargetBitmap := targetsBitmap targets }
  rw [heq]
  refine ⟨hbal.congr rfl rfl rfl rfl rfl fun _ => id, ?_, fun t ht hchan => ?_⟩
  · refine ⟨howns.distinct hdist,
      fun t ht => (contains_targetsBitmap targets ht).trans (howns t).2.symm, ?_, fun c hc => ?_⟩
    · exact (hsame.assigned hassigned).cgid
    · have hlk := hdense c hc
      simp only [lookup, howns.denseIDByCgid_eq] at hlk ⊢
      exact hlk
  · obtain ⟨hchar, hext, hrunt, hint, hthr, hhis, htotal⟩ :=
      hcle t ht hchan
    exact ⟨hchar, hext, hrunt, hint, hthr, hhis, htotal⟩

/-! ## Evaluation -/

theorem evaluateTargets_eq (externalAnomalyK : Float) (s : State) (indexes : List Nat) :
    ∃ history, (evaluateTargets externalAnomalyK s indexes).1 =
      { s with externalContentionRatioHistory := history } := by
  induction indexes generalizing s with
  | nil => exact ⟨_, rfl⟩
  | cons t rest ih =>
    simp only [evaluateTargets]
    split
    · simp only
      split
      · exact ih s
      rename_i value _
      obtain ⟨history, heq⟩ := ih _
      exact ⟨history, heq⟩
    · exact ih s

theorem evaluate_spec (externalAnomalyK : Float) (s : State) :
    SameAssignment s (evaluateExternalContentionRatios externalAnomalyK s).1 ∧
      Balanced (evaluateExternalContentionRatios externalAnomalyK s).1 := by
  obtain ⟨history, heq⟩ := evaluateTargets_eq externalAnomalyK s (List.range maxTargets)
  simp only [evaluateExternalContentionRatios, heq]
  refine ⟨⟨rfl, rfl, rfl, rfl, rfl⟩, fun t _ => ⟨?_, ?_, rfl, 0, Nat.zero_le _, rfl⟩⟩
  · exact Finset.sum_const_zero
  · exact fun c _ hne => absurd rfl hne

/-! ## Competitors -/

theorem sum_addCharge (cgid charge : UInt64) (charges : List CompetitorCharge) :
    ((addCharge cgid charge charges).map CompetitorCharge.chargeNs).sum =
      (charges.map CompetitorCharge.chargeNs).sum + charge := by
  induction charges with
  | nil => simp [addCharge]
  | cons entry rest ih =>
    rw [addCharge]
    split
    · simp [add_right_comm]
    · simp [ih, add_assoc]

/-- The loop over the CSS IDs. It skips no charge: a charged task group is known, and so is its
cgid. -/
theorem chargeByCgid_induction (hassigned : Assigned s) (h : BalancedAt s t)
    {P : Nat → List CompetitorCharge → Prop} (hnil : P 0 [])
    (hskip : ∀ n charges, s.externalChargeNsMatrix (externalChargeIndex n t) = 0 →
      P n charges → P (n + 1) charges)
    (hadd : ∀ n < maxCSSIDs, ∀ charges, s.externalChargeNsMatrix (externalChargeIndex n t) ≠ 0 →
      P n charges → P (n + 1)
        (addCharge (s.cssCgids n) (s.externalChargeNsMatrix (externalChargeIndex n t)) charges)) :
    P maxCSSIDs (chargeByCgid s t) := by
  unfold chargeByCgid
  -- after n rounds, the list is of the CSS IDs below n
  suffices hrou : ∀ n ≤ maxCSSIDs, P n ((List.range n).foldl _ []) from hrou _ le_rfl
  intro n hn
  induction n with
  | zero => exact hnil
  | succ n ih =>
    have ih := ih (by omega)
    rw [range_succ, foldl_concat]
    dsimp only
    by_cases hzero : s.externalChargeNsMatrix (externalChargeIndex n t) = 0
    · rw [if_pos (by simp [hzero])]
      exact hskip n _ hzero ih
    · have hknown := h.known n hn hzero
      rw [if_neg (by simp [hknown, hzero, hassigned.cgid n hknown])]
      exact hadd n hn _ hzero ih

theorem sum_externalCompetitors (hassigned : Assigned s) (h : BalancedAt s t) :
    ((externalCompetitors s t).map CompetitorCharge.chargeNs).sum =
      s.externalContentionNsByTarget t := by
  have hperm : (externalCompetitors s t).Perm (chargeByCgid s t) := mergeSort_perm _ _
  rw [(hperm.map _).sum_eq, ← h.external]
  refine chargeByCgid_induction hassigned h
    (P := fun n charges => (charges.map CompetitorCharge.chargeNs).sum =
      ∑ c ∈ Finset.range n, s.externalChargeNsMatrix (externalChargeIndex c t))
    rfl (fun n charges hzero ih => ?_) fun n _ charges _ ih => ?_
  · rw [Finset.sum_range_succ, hzero, add_zero, ih]
  · rw [Finset.sum_range_succ, sum_addCharge, ih]

/-! ## Runs -/

theorem call_spec (hbal : Balanced s) (hassigned : Assigned s) (scaledDuration : UInt64 → UInt64)
    {c : Call} (hc : c.Distinct) :
    Balanced (call scaledDuration s c) ∧ Assigned (call scaledDuration s c) := by
  cases c with
  | handleRecord record =>
    simp only [call, handleRecord]
    split
    · exact ⟨hbal, hassigned⟩
    · exact ⟨hbal.handleIdentity hassigned.distinct _, hassigned.handleIdentity _⟩
    · exact (hbal.handleThrottle _).imp_right fun hsame => hsame.assigned hassigned
    · exact (hbal.handleBatch scaledDuration _).imp_right fun hsame => hsame.assigned hassigned
  | setTargets targets =>
    obtain ⟨hbal', hassigned', -⟩ := setTargets_spec hbal hassigned hc
    exact ⟨hbal', hassigned'⟩
  | evaluate externalAnomalyK =>
    obtain ⟨hsame, hbal'⟩ := evaluate_spec externalAnomalyK s
    exact ⟨hbal', hsame.assigned hassigned⟩

theorem start_spec : Balanced {} ∧ Assigned {} := by
  refine ⟨fun t _ => Cleared.balancedAt ⟨fun _ _ => rfl, rfl, rfl, rfl, rfl, rfl, rfl⟩,
    fun i _ j _ hact => ?_, fun t _ => ?_, fun c hknown => ?_, fun c _ => rfl⟩
  · exact absurd hact Bool.false_ne_true
  · exact contains_empty t
  · exact absurd hknown Bool.false_ne_true

theorem runCalls_spec (scaledDuration : UInt64 → UInt64) {calls : List Call}
    (hdist : ∀ c ∈ calls, c.Distinct) :
    Balanced (runCalls scaledDuration calls) ∧ Assigned (runCalls scaledDuration calls) :=
  List.foldlRecOn calls _ (motive := fun s => Balanced s ∧ Assigned s) start_spec
    fun _ hs c hc => call_spec hs.1 hs.2 scaledDuration (hdist c hc)

theorem BalancedAt.internal_le (h : BalancedAt s t) (hfits : s.runtimeTotal t < 2 ^ 64) :
    s.internalContentionNsByTarget t ≤ s.runtimeNsByTarget t := by
  obtain ⟨n, hn, hint⟩ := h.internal
  rw [hint, h.runtime, UInt64.le_iff_toNat_le, UInt64.toNat_ofNat_of_lt' (hn.trans_lt hfits),
    UInt64.toNat_ofNat_of_lt' hfits]
  exact hn

/-- Whether a task group belongs to a target. -/
def Owns (s : State) (c t : Nat) : Prop :=
  s.cssKnown c ∧ (s.targets t).active ∧ (s.targets t).cgid = s.cssCgids c

theorem Assigned.dense_eq_iff (h : Assigned s) (hc : c < maxCSSIDs) (ht : t < maxTargets) :
    s.targetDenseByCSSID c = t ↔ Owns s c t := by
  have hne : nonTarget ≠ t := fun heq => absurd (heq ▸ ht) (by decide)
  rw [h.dense c hc, lookup, Owns]
  split
  · next hknown =>
    have hsome : denseIDByCgid s.targets (s.cssCgids c) = some t ↔
        (s.targets t).active ∧ (s.targets t).cgid = s.cssCgids c := by
      rw [denseIDByCgid_eq_some h.distinct]
      exact and_iff_right ht
    rw [and_iff_right hknown, ← hsome]
    cases denseIDByCgid s.targets (s.cssCgids c) <;> simp [hne]
  · next hunk => simp [hunk, hne]

theorem Assigned.dense_eq_nonTarget (h : Assigned s) (hc : c < maxCSSIDs)
    (hnone : ∀ t < maxTargets, ¬ Owns s c t) : s.targetDenseByCSSID c = nonTarget := by
  rw [h.dense c hc, lookup]
  split
  · next hknown =>
    cases hdense : denseIDByCgid s.targets (s.cssCgids c) with
    | none => rfl
    | some t =>
      obtain ⟨ht, hact, hcgid⟩ := (denseIDByCgid_eq_some h.distinct).1 hdense
      exact absurd ⟨hknown, hact, hcgid⟩ (hnone t ht)
  · rfl

/-- An owner is the container ID and the cgid of an active target. -/
theorem sameTargetOwner_eq_false {left right : Target}
    (h : left.active ≠ right.active ∨ right.active ∧ (left.containerID ≠ right.containerID ∨
      left.cgid ≠ right.cgid)) : sameTargetOwner left right = false := by
  cases hleft : left.active <;> cases hright : right.active <;>
    simp_all [sameTargetOwner, imp_iff_not_or]

/-- After any sequence of calls: the charges against a target add up to its external contention, in
the matrix and in the list of its competitors; a target waited for itself no longer than it ran,
unless its runtime wrapped around; a task group is indexed under the active target with its cgid, or
under none, and a rebuild changes nothing; and a slot that gets another owner starts from zero. -/
theorem ledger_balances (scaledDuration : UInt64 → UInt64) (calls : List Call)
    (hdistinct : ∀ c ∈ calls, c.Distinct) : let s := runCalls scaledDuration calls
    (∀ t < maxTargets,
      ∑ c ∈ Finset.range maxCSSIDs, s.externalChargeNsMatrix (externalChargeIndex c t) =
        s.externalContentionNsByTarget t ∧
      ((externalCompetitors s t).map CompetitorCharge.chargeNs).sum =
        s.externalContentionNsByTarget t ∧
      (s.runtimeTotal t < 2 ^ 64 → s.internalContentionNsByTarget t ≤ s.runtimeNsByTarget t)) ∧
    (∀ c < maxCSSIDs,
      (∀ t < maxTargets, s.targetDenseByCSSID c = t ↔ Owns s c t) ∧
      ((∀ t < maxTargets, ¬ Owns s c t) → s.targetDenseByCSSID c = nonTarget) ∧
      (rebuildTargetDenseByCSSID s).targetDenseByCSSID c = s.targetDenseByCSSID c) ∧
    ∀ targets, DistinctTargets targets → ∀ t < maxTargets,
      ((s.targets t).active ≠ (targets t).active ∨
        (targets t).active ∧ ((s.targets t).containerID ≠ (targets t).containerID ∨
          (s.targets t).cgid ≠ (targets t).cgid)) → Cleared (setTargets s targets) t := by
  intro s
  obtain ⟨hbalanced, hassigned⟩ : Balanced s ∧ Assigned s := runCalls_spec scaledDuration hdistinct
  refine ⟨fun t ht => ?_, fun c hc => ?_, fun targets htargets => ?_⟩
  · exact ⟨(hbalanced t ht).external, sum_externalCompetitors hassigned (hbalanced t ht),
      (hbalanced t ht).internal_le⟩
  · refine ⟨fun t ht => hassigned.dense_eq_iff hc ht, hassigned.dense_eq_nonTarget hc, ?_⟩
    obtain ⟨dense, targets, heq, -, hdense⟩ := rebuild_spec s
    rw [heq, hassigned.dense c hc]
    exact hdense c hc
  · exact fun t ht hother => (setTargets_spec hbalanced hassigned htargets).2.2 t ht
      (sameTargetOwner_eq_false hother)

def sampleTargets : Nat → Target
  | 0 => { cgid := 10, containerID := "a" }
  | 1 => { cgid := 11, containerID := "b" }
  | _ => {}

/-- The task group of the first target runs while both wait. -/
def sampleCalls : List Call :=
  [.setTargets sampleTargets,
    .handleRecord { kind := .identity, identity := { cssID := 5, cgid := 10 } },
    .handleRecord
      { kind := .batch
        batch :=
          { count := 1
            packedSlices := .replicate maxBatchSlices (packSlice 7 { base := 3 } 5) } }]

theorem distinct_sampleTargets : DistinctTargets sampleTargets := by
  intro i _ j _ hi hj hcgid
  match i, j with
  | 0, 0 => rfl
  | 0, 1 | 1, 0 => exact absurd hcgid (by decide)
  | 1, 1 => rfl
  | _ + 2, _ => exact absurd hi Bool.false_ne_true
  | 0, _ + 2 | 1, _ + 2 => exact absurd hj Bool.false_ne_true

/-- The first targets: there is nothing to clear, and no task group to index. -/
theorem setTargets_new (targets : Nat → Target) : setTargets {} targets =
    { targets := fun t => { targets t with cssKnown := false }
      activeTargetBitmap := targetsBitmap targets } := by
  have hslot (i : Nat) : clearReusedTargetSlot {} i = {} := by
    have hcharges : clearCharges i (fun _ => 0) = fun _ => 0 :=
      List.foldl_fixed' (fun c => update_eq_self _ _) _
    simp only [clearReusedTargetSlot, hcharges, update_eq_self]
  have hslots : clearReusedTargetSlots {} targets = {} :=
    List.foldl_fixed' (fun i => by rw [hslot, ite_self]) _
  rw [setTargets, hslots]
  exact List.foldl_fixed' (fun c => rfl) _

theorem ledger_balances_sample : let s := runCalls id sampleCalls
    s.externalContentionNsByTarget 1 = 7 ∧ s.internalContentionNsByTarget 0 = 7 ∧
    s.runtimeNsByTarget 0 = 7 ∧ s.targetDenseByCSSID 5 = 0 ∧
    ∑ c ∈ Finset.range maxCSSIDs, s.externalChargeNsMatrix (externalChargeIndex c 1) =
      s.externalContentionNsByTarget 1 ∧
    ((externalCompetitors s 1).map CompetitorCharge.chargeNs).sum =
      s.externalContentionNsByTarget 1 ∧
    (rebuildTargetDenseByCSSID s).targetDenseByCSSID 5 = 0 ∧
      Cleared (setTargets s fun _ => {}) 1 := by
  have hdistinct : ∀ c ∈ sampleCalls, c.Distinct := by
    simp [sampleCalls, Call.Distinct, distinct_sampleTargets]
  obtain ⟨hsums, hdense, hcleared⟩ := ledger_balances id sampleCalls hdistinct
  have hrun : runCalls id sampleCalls =
      sampleCalls.tail.foldl (call id) (setTargets {} sampleTargets) := by
    rw [runCalls, sampleCalls, List.foldl_cons, List.tail_cons, call]
  have hvalues : (runCalls id sampleCalls).externalContentionNsByTarget 1 = 7 ∧
      (runCalls id sampleCalls).internalContentionNsByTarget 0 = 7 ∧
      (runCalls id sampleCalls).runtimeNsByTarget 0 = 7 ∧
      (runCalls id sampleCalls).targetDenseByCSSID 5 = 0 ∧
      ((runCalls id sampleCalls).targets 1).active = true := by
    simp only [hrun, setTargets_new]
    decide +kernel
  obtain ⟨hexternal, hinternal, hruntime, hindex, hactive⟩ := hvalues
  refine ⟨hexternal, hinternal, hruntime, hindex, (hsums 1 (by decide)).1,
    (hsums 1 (by decide)).2.1, (hdense 5 (by decide)).2.2.trans hindex, ?_⟩
  refine hcleared (fun _ => {}) (fun i _ j _ hi => absurd hi Bool.false_ne_true) 1 (by decide)
    (.inl ?_)
  rw [hactive]
  decide

end Huatuo.SchedBlame
