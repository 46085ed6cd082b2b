import Huatuo.IoControl.Residence
import Huatuo.IoControl.WaitProof
import Huatuo.Lib.Tickets
import Mathlib.Data.UInt

/-!
# Every residence is settled once

A start time is in one place at a time: under the address of its bio in the pending map while the
bio waits, and in the frame of a CPU from the entry of a callback to its return probe. `PcInv` says
for each program point what the CPU can rely on. Others cannot disturb it (`PcInv.mono`): the entry
of a bio is changed only by the CPU that has its lock, a frame only by its own CPU, and owners and
rows are never removed.

The numbers of the admissions are tickets: each is at a bio that waits, or at a CPU, and is spent
when its wake returns 0.
-/

namespace Huatuo.IoControl.Residence

open Function Option
open IoControl (WaitKey waitAdd unpack units)

section

variable {β γ ι : Type}

/-! ## Program points -/

/-- The bio whose wait queue the CPU has locked. -/
def Pc.holds : Pc β γ → Option β
  | admitClock w | admitUpdate w => some w.bio
  | wakeClock w | wakeLookup w | ownerLookup w | ownerInsert w | ownerLookupAgain w
  | aggregateLookup w | aggregateInsert w | pendingDelete w | callback w | restore w => some w.bio
  | idle | woken _ | counterLoad _ | counterStore _ _ => none

def Admission.pending (admission : Admission) : Pending where
  startNs := admission.startNs
  operation := admission.operation
  id := admission.id

/-- What is in the pending map for an admission. -/
def Admission.entry (admission : Admission) : Option Pending :=
  if admission.isReadWrite then some admission.pending else none

/-- The admission started in the past. -/
def Timed (s : State β γ ι) (admission : Admission) : Prop :=
  admission.startNs ≠ 0 ∧ admission.startNs.toNat ≤ s.clock.toNat

/-- The callback was entered after the admission. -/
def Entered (w : Wake β γ) : Prop :=
  w.admission.startNs ≠ 0 ∧ w.admission.startNs.toNat ≤ w.entryNs.toNat

/-- The frame has the sample of the callback. -/
structure Sampled (s : State β γ ι) (c : ι) (w : Wake β γ) : Prop where
  entered : Entered w
  readWrite : w.admission.isReadWrite
  endNs : (s.frames c).endNs = w.entryNs
  pending : (s.frames c).pending = w.admission.pending

/-- The frame has the key of the owner. -/
def Keyed (s : State β γ ι) (c : ι) (w : Wake β γ) : Prop :=
  ∃ owner, s.ownerStateMap w.iocg = some owner ∧ (s.frames c).key = owner.key w.admission.operation

/-- The frame is ready to be settled. -/
structure Ready (s : State β γ ι) (c : ι) (w : Wake β γ) : Prop where
  sampled : Sampled s c w
  keyed : Keyed s c w
  row : ∃ counter, s.waitAggMap (s.frames c).key = some counter
  bioPtr : (s.frames c).bioPtr = some w.bio

/-- The frame of a callback that runs: idle if there is nothing to settle. -/
def Framed (s : State β γ ι) (c : ι) (w : Wake β γ) : Prop :=
  if w.admission.isReadWrite then Ready s c w else (s.frames c).bioPtr = none

/-- The bio of a waiter has this entry, and its admission is over. -/
def Listed (s : State β γ ι) (w : Waiter β γ) (entry : Option Pending) : Prop :=
  s.pendingMap w.bio = entry ∧ Timed s w.admission

def PcInv (s : State β γ ι) (c : ι) : Pc β γ → Prop
  | .idle => True
  | .admitClock w => s.pendingMap w.bio = none
  | .admitUpdate w => Listed s w none ∧ w.admission.isReadWrite
  | .wakeClock w => Listed s w.toWaiter w.admission.entry
  | .wakeLookup w =>
    Listed s w.toWaiter w.admission.entry ∧ Entered w ∧ (s.frames c).bioPtr = none
  | .ownerLookup w | .ownerInsert w => Listed s w.toWaiter w.admission.entry ∧ Sampled s c w
  | .ownerLookupAgain w =>
    Listed s w.toWaiter w.admission.entry ∧ Sampled s c w ∧
      ∃ owner, s.ownerStateMap w.iocg = some owner
  | .aggregateLookup w | .aggregateInsert w =>
    Listed s w.toWaiter w.admission.entry ∧ Sampled s c w ∧ Keyed s c w
  | .pendingDelete w =>
    Listed s w.toWaiter w.admission.entry ∧ Sampled s c w ∧ Keyed s c w ∧
      ∃ counter, s.waitAggMap (s.frames c).key = some counter
  | .callback w | .restore w => Listed s w.toWaiter none ∧ Framed s c w
  | .woken w | .counterLoad w => Framed s c w
  | .counterStore w packed =>
    Ready s c w ∧ ∃ counter, s.waitAggMap (s.frames c).key = some counter ∧ counter c = packed

/-- A step of another CPU. -/
structure Undisturbed (s s' : State β γ ι) (c : ι) : Prop where
  frame : s'.frames c = s.frames c
  owner : ∀ g owner, s.ownerStateMap g = some owner → s'.ownerStateMap g = some owner
  row : ∀ key counter, s.waitAggMap key = some counter →
    ∃ counter', s'.waitAggMap key = some counter' ∧ counter' c = counter c
  clock : s.clock.toNat ≤ s'.clock.toNat

section

variable {s s' : State β γ ι} {c : ι} {w : Wake β γ}

theorem Timed.mono {admission : Admission} (hclock : s.clock.toNat ≤ s'.clock.toNat)
    (h : Timed s admission) : Timed s' admission :=
  ⟨h.1, h.2.trans hclock⟩

theorem Sampled.congr (h : Sampled s c w) (hfr : s'.frames c = s.frames c) : Sampled s' c w :=
  ⟨h.entered, h.readWrite, hfr ▸ h.endNs, hfr ▸ h.pending⟩

namespace Undisturbed

variable (h : Undisturbed s s' c)
include h

theorem sampled (hs : Sampled s c w) : Sampled s' c w := hs.congr h.frame

theorem keyed (hk : Keyed s c w) : Keyed s' c w := by
  obtain ⟨owner, hown, hkey⟩ := hk
  exact ⟨owner, h.owner _ _ hown, h.frame ▸ hkey⟩

theorem isRow {packed : UInt64}
    (hr : ∃ counter, s.waitAggMap (s.frames c).key = some counter ∧ counter c = packed) :
    ∃ counter, s'.waitAggMap (s'.frames c).key = some counter ∧ counter c = packed := by
  obtain ⟨counter, hcou, rfl⟩ := hr
  rw [h.frame]
  exact h.row _ _ hcou

theorem someRow (hr : ∃ counter, s.waitAggMap (s.frames c).key = some counter) :
    ∃ counter, s'.waitAggMap (s'.frames c).key = some counter := by
  obtain ⟨counter, hcou⟩ := hr
  obtain ⟨counter', hcou', -⟩ := h.isRow ⟨counter, hcou, rfl⟩
  exact ⟨counter', hcou'⟩

theorem ready (hr : Ready s c w) : Ready s' c w :=
  ⟨h.sampled hr.sampled, h.keyed hr.keyed, h.someRow hr.row, h.frame ▸ hr.bioPtr⟩

theorem framed (hf : Framed s c w) : Framed s' c w := by
  unfold Framed at hf ⊢
  split at hf
  · next hrw => exact if_pos hrw ▸ h.ready hf
  · next hrw => rw [if_neg hrw, h.frame, hf]

theorem listed {w : Waiter β γ} {entry : Option Pending} (hl : Listed s w entry)
    (hpend : s'.pendingMap w.bio = s.pendingMap w.bio) : Listed s' w entry :=
  ⟨hpend.trans hl.1, hl.2.mono h.clock⟩

theorem pcInv {pc : Pc β γ} (hpc : PcInv s c pc)
    (hpend : ∀ bio, pc.holds = some bio → s'.pendingMap bio = s.pendingMap bio) :
    PcInv s' c pc := by
  cases pc with
  | idle => trivial
  | admitClock w => exact (hpend _ rfl).trans hpc
  | admitUpdate w => exact ⟨h.listed hpc.1 (hpend _ rfl), hpc.2⟩
  | wakeClock w => exact h.listed hpc (hpend _ rfl)
  | wakeLookup w => exact ⟨h.listed hpc.1 (hpend _ rfl), hpc.2.1, h.frame ▸ hpc.2.2⟩
  | ownerLookup w | ownerInsert w => exact ⟨h.listed hpc.1 (hpend _ rfl), h.sampled hpc.2⟩
  | ownerLookupAgain w =>
    obtain ⟨hlis, hsam, owner, hown⟩ := hpc
    exact ⟨h.listed hlis (hpend _ rfl), h.sampled hsam, owner, h.owner _ _ hown⟩
  | aggregateLookup w | aggregateInsert w =>
    exact ⟨h.listed hpc.1 (hpend _ rfl), h.sampled hpc.2.1, h.keyed hpc.2.2⟩
  | pendingDelete w =>
    exact ⟨h.listed hpc.1 (hpend _ rfl), h.sampled hpc.2.1, h.keyed hpc.2.2.1, h.someRow hpc.2.2.2⟩
  | callback w | restore w => exact ⟨h.listed hpc.1 (hpend _ rfl), h.framed hpc.2⟩
  | woken w | counterLoad w => exact h.framed hpc
  | counterStore w packed => exact ⟨h.ready hpc.1, h.isRow hpc.2⟩

end Undisturbed

/-! ## The invariant -/

def BioInv (s : State β γ ι) (bio : β) : Prop :=
  match s.bios bio with
  | .free => s.pendingMap bio = none
  | .busy => True
  | .waiting iocg admission => Listed s ⟨iocg, bio, admission⟩ admission.entry

variable {bio : β}

theorem bioInv_of_busy (h : s.bios bio = .busy) : BioInv s bio := by
  rw [BioInv, h]
  trivial

theorem bioInv_of_free (h : s.bios bio = .free) (hpend : s.pendingMap bio = none) :
    BioInv s bio := by
  rw [BioInv, h]
  exact hpend

structure Inv (s : State β γ ι) : Prop where
  healthy : s.failure = none
  clock : s.clock ≠ 0
  bio : ∀ bio, BioInv s bio
  busy : ∀ bio, s.bios bio = .busy ↔ ∃ c, (s.pcs c).holds = some bio
  holder : ∀ c c' bio, (s.pcs c).holds = some bio → (s.pcs c').holds = some bio → c = c'
  pc : ∀ c, PcInv s c (s.pcs c)
  settled : s.settlements = s.finished

theorem Inv.point {s : State β γ ι} (h : Inv s) {c : ι} {pc : Pc β γ} (hpc : s.pcs c = pc) :
    PcInv s c pc :=
  hpc ▸ h.pc c

/-- A step of one CPU, which changes the state and the entry of at most one bio; no other CPU has
the lock of that bio. -/
theorem Inv.next (h : Inv s) (c : ι) (touched : Option β) (hhea : s'.failure = none)
    (hpcs : ∀ c', c' ≠ c → s'.pcs c' = s.pcs c') (hoth : ∀ c', c' ≠ c → Undisturbed s s' c')
    (hclock : s.clock.toNat ≤ s'.clock.toNat)
    (hkeep : ∀ bio, touched ≠ some bio → s'.bios bio = s.bios bio ∧
      s'.pendingMap bio = s.pendingMap bio)
    (hmine : ∀ bio, touched = some bio → ∀ c', c' ≠ c → (s.pcs c').holds ≠ some bio)
    (hbef : ∀ bio, (s.pcs c).holds = some bio → touched = some bio)
    (hafter : ∀ bio, (s'.pcs c).holds = some bio → touched = some bio)
    (hbusy : ∀ bio, touched = some bio → (s'.bios bio = .busy ↔ (s'.pcs c).holds = some bio))
    (hbio : ∀ bio, touched = some bio → BioInv s' bio) (hpc : PcInv s' c (s'.pcs c))
    (hset : s'.settlements = s'.finished) : Inv s' := by
  have hother {c' : ι} {bio : β} (hc' : c' ≠ c) (hholds : (s'.pcs c').holds = some bio) :
      touched ≠ some bio ∧ (s.pcs c').holds = some bio := by
    rw [hpcs c' hc'] at hholds
    exact ⟨fun htou => hmine bio htou c' hc' hholds, hholds⟩
  refine ⟨hhea, fun hzero => ?_, fun bio => ?_, fun bio => ?_, fun c₁ c₂ bio h₁ h₂ => ?_,
    fun c' => ?_, hset⟩
  · have hpos : s.clock.toNat ≠ 0 := fun heq => h.clock (UInt64.toNat_inj.1 heq)
    rw [hzero] at hclock
    exact hpos (Nat.le_zero.1 hclock)
  · by_cases htou : touched = some bio
    · exact hbio bio htou
    obtain ⟨hstt, hpend⟩ := hkeep bio htou
    have hbio := h.bio bio
    unfold BioInv at hbio ⊢
    rw [hstt]
    split at hbio
    · exact hpend.trans hbio
    · trivial
    · exact ⟨hpend.trans hbio.1, hbio.2.mono hclock⟩
  · by_cases htou : touched = some bio
    · rw [hbusy bio htou]
      refine ⟨fun hholds => ⟨c, hholds⟩, fun ⟨c', hholds⟩ => ?_⟩
      by_contra hnot
      have hc' : c' ≠ c := fun heq => hnot (heq ▸ hholds)
      exact (hother hc' hholds).1 htou
    · rw [(hkeep bio htou).1, h.busy bio]
      constructor
      · rintro ⟨c', hholds⟩
        have hc' : c' ≠ c := fun heq => htou (hbef bio (heq ▸ hholds))
        exact ⟨c', by rwa [hpcs c' hc']⟩
      · rintro ⟨c', hholds⟩
        have hc' : c' ≠ c := fun heq => htou (hafter bio (heq ▸ hholds))
        exact ⟨c', (hother hc' hholds).2⟩
  · by_cases hc₁ : c₁ = c <;> by_cases hc₂ : c₂ = c
    · rw [hc₁, hc₂]
    · exact absurd (hafter bio (hc₁ ▸ h₁)) (hother hc₂ h₂).1
    · exact absurd (hafter bio (hc₂ ▸ h₂)) (hother hc₁ h₁).1
    · exact h.holder c₁ c₂ bio (hother hc₁ h₁).2 (hother hc₂ h₂).2
  · by_cases hc' : c' = c
    · exact hc' ▸ hpc
    rw [hpcs c' hc']
    refine (hoth c' hc').pcInv (h.pc c') fun bio hholds => (hkeep bio ?_).2
    exact fun htou => hmine bio htou c' hc' hholds

end

/-! ## One step -/

section

variable [DecidableEq ι] {s s' : State β γ ι} {c : ι}

/-- What a step of the CPU `c` leaves to the others; owners and rows may be added. -/
structure Local (s s' : State β γ ι) (c : ι) (pc : Pc β γ) : Prop where
  healthy : s'.failure = none
  pcs : s'.pcs = update s.pcs c pc
  clock : s'.clock = s.clock
  frames : ∀ c', c' ≠ c → s'.frames c' = s.frames c'
  owner : ∀ g owner, s.ownerStateMap g = some owner → s'.ownerStateMap g = some owner
  row : ∀ key counter, s.waitAggMap key = some counter →
    ∃ counter', s'.waitAggMap key = some counter' ∧ ∀ c', c' ≠ c → counter' c' = counter c'

variable {pc : Pc β γ}

theorem Local.undisturbed {c' : ι} (h : Local s s' c pc) (hc' : c' ≠ c) : Undisturbed s s' c' := by
  refine ⟨h.frames c' hc', h.owner, fun key counter hkey => ?_, le_of_eq (by rw [h.clock])⟩
  obtain ⟨counter', hkey', hslots⟩ := h.row key counter hkey
  exact ⟨counter', hkey', hslots c' hc'⟩

variable {pc : Pc β γ}

/-- A step on the bio that the CPU has locked, or takes; afterwards it has it still, or the bio
waits or is free. -/
theorem Inv.touch (h : Inv s) (hlocal : Local s s' c pc) (bio : β)
    (hbef : (s.pcs c).holds = some bio ∨ (s.pcs c).holds = none ∧ s.bios bio ≠ .busy)
    (hafter : pc.holds = some bio ∧ s'.bios bio = .busy ∨ pc.holds = none ∧ s'.bios bio ≠ .busy)
    (hkeep : ∀ other, other ≠ bio → s'.bios other = s.bios other ∧
      s'.pendingMap other = s.pendingMap other) (hbio : BioInv s' bio) (hpc : PcInv s' c pc)
    (hset : s'.settlements = s'.finished) : Inv s' := by
  have hself : s'.pcs c = pc := by rw [hlocal.pcs, update_self]
  refine h.next c (some bio) hlocal.healthy (fun c' hc' => ?_)
    (fun c' hc' => hlocal.undisturbed hc') (le_of_eq (by rw [hlocal.clock]))
    (fun other hne => hkeep other fun heq => hne (heq ▸ rfl)) ?_ (fun other hother => ?_)
    (fun other hother => ?_) ?_ ?_ (hself ▸ hpc) hset
  · rw [hlocal.pcs, update_of_ne hc']
  · rintro _ ⟨⟩ c' hc' hholds
    obtain hloc | ⟨-, hnot⟩ := hbef
    · exact hc' (h.holder c' c bio hholds hloc)
    · exact hnot ((h.busy bio).2 ⟨c', hholds⟩)
  · obtain hloc | ⟨hnone, -⟩ := hbef
    · exact hloc.symm.trans hother
    · simp [hnone] at hother
  · rw [hself] at hother
    obtain ⟨hloc, -⟩ | ⟨hnone, -⟩ := hafter
    · exact hloc.symm.trans hother
    · simp [hnone] at hother
  · rintro _ ⟨⟩
    rw [hself]
    obtain ⟨hloc, hstt⟩ | ⟨hnone, hstt⟩ := hafter
    · exact ⟨fun _ => hloc, fun _ => hstt⟩
    · rw [hnone]
      exact ⟨fun hbusy => absurd hbusy hstt, nofun⟩
  · rintro _ ⟨⟩
    exact hbio

/-- A step on the bio that the CPU has locked and keeps locked. -/
theorem Inv.continue (h : Inv s) (hlocal : Local s s' c pc) {bio : β}
    (hbef : (s.pcs c).holds = some bio) (hafter : pc.holds = some bio) (hbios : s'.bios = s.bios)
    (hpend : ∀ other, other ≠ bio → s'.pendingMap other = s.pendingMap other) (hpc : PcInv s' c pc)
    (hset : s'.settlements = s.settlements) (hfin : s'.finished = s.finished) : Inv s' := by
  have hbusy : s'.bios bio = .busy := by
    rw [hbios]
    exact (h.busy bio).2 ⟨c, hbef⟩
  refine h.touch hlocal bio (.inl hbef) (.inl ⟨hafter, hbusy⟩)
    (fun other hne => ⟨by rw [hbios], hpend other hne⟩) (bioInv_of_busy hbusy) hpc ?_
  rw [hset, hfin, h.settled]

/-- The CPU lets the bio wait. -/
theorem Inv.release (h : Inv s) (hlocal : Local s s' c .idle) {w : Waiter β γ}
    (hbef : (s.pcs c).holds = some w.bio) (hwaits : s'.bios w.bio = .waiting w.iocg w.admission)
    (hkeep : ∀ other, other ≠ w.bio →
      s'.bios other = s.bios other ∧ s'.pendingMap other = s.pendingMap other)
    (hlis : Listed s' w w.admission.entry) (hset : s'.settlements = s.settlements)
    (hfin : s'.finished = s.finished) : Inv s' := by
  refine h.touch hlocal w.bio (.inl hbef) (.inr ⟨rfl, by rw [hwaits]; exact nofun⟩) hkeep ?_
    trivial ?_
  · simpa [BioInv, hwaits] using hlis
  · rw [hset, hfin, h.settled]

/-- A step of a return probe whose bio is free. -/
theorem Inv.unlocked (h : Inv s) (hlocal : Local s s' c pc) (hbef : (s.pcs c).holds = none)
    (hafter : pc.holds = none) (hbios : s'.bios = s.bios) (hpend : s'.pendingMap = s.pendingMap)
    (hpc : PcInv s' c pc) (hset : s'.settlements = s'.finished) : Inv s' := by
  have hself : s'.pcs c = pc := by rw [hlocal.pcs, update_self]
  refine h.next c none hlocal.healthy (fun c' hc' => ?_)
    (fun c' hc' => hlocal.undisturbed hc') (le_of_eq (by rw [hlocal.clock]))
    (fun other _ => ⟨by rw [hbios], by rw [hpend]⟩) nofun (fun other hother => ?_)
    (fun other hother => ?_) nofun nofun (hself ▸ hpc) hset
  · rw [hlocal.pcs, update_of_ne hc']
  · simp [hbef] at hother
  · simp [hself, hafter] at hother

/-- A step that adds no owner and no row. -/
theorem Local.of_maps (hhea : s'.failure = none) (hpcs : s'.pcs = update s.pcs c pc)
    (hclock : s'.clock = s.clock) (hfrs : ∀ c', c' ≠ c → s'.frames c' = s.frames c')
    (hown : s'.ownerStateMap = s.ownerStateMap) (hrow : s'.waitAggMap = s.waitAggMap) :
    Local s s' c pc :=
  ⟨hhea, hpcs, hclock, hfrs, fun _ _ hg => by rwa [hown],
    fun _ counter hkey => ⟨counter, by rwa [hrow], fun _ _ => rfl⟩⟩

end

section

variable [DecidableEq β] [DecidableEq γ] [DecidableEq ι] {identity : γ → OwnerState}
  {s s' : State β γ ι} {c : ι}

theorem inv_admitClock (h : Inv s) {w : Waiter β γ} (hpc : s.pcs c = .admitClock w)
    (hrun : s.run identity c (.admitClock w) = some s') : Inv s' := by
  have hpend : s.pendingMap w.bio = none := h.point hpc
  simp only [State.run, h.healthy, isSome_none, Bool.false_or, Bool.not_eq_true'] at hrun
  split at hrun
  · next hother =>
    cases hrun
    refine h.release
      (w := { w with admission := { w.admission with startNs := s.clock } })
      (.of_maps h.healthy rfl rfl (fun _ _ => rfl) rfl rfl) (congrArg Pc.holds hpc)
        (update_self _ _ _)
      (fun other hne => ⟨update_of_ne hne _ _, rfl⟩) ⟨?_, h.clock, le_rfl⟩ rfl rfl
    have hent : Admission.entry { w.admission with startNs := s.clock } = none :=
      if_neg (by simp [hother])
    exact hpend.trans hent.symm
  · next hrw =>
    cases hrun
    exact h.continue (.of_maps h.healthy rfl rfl (fun _ _ => rfl) rfl rfl)
      (congrArg Pc.holds hpc) rfl rfl
      (fun _ _ => rfl) ⟨⟨hpend, h.clock, le_rfl⟩, Bool.not_eq_false _ ▸ hrw⟩ rfl rfl

theorem inv_admitUpdate {w : Waiter β γ} (h : Inv s) (hpc : s.pcs c = .admitUpdate w)
    (hrun : s.run identity c (.admitUpdate w) = some s') : Inv s' := by
  obtain ⟨⟨-, htimed⟩, hrw⟩ := h.point hpc
  cases hrun
  refine h.release (.of_maps h.healthy rfl rfl (fun _ _ => rfl) rfl rfl) (congrArg Pc.holds hpc)
    (update_self _ _ _)
    (fun other hne => ⟨update_of_ne hne _ _, update_of_ne hne _ _⟩)
    ⟨(update_self _ _ _).trans (if_pos hrw).symm, htimed⟩ rfl rfl

variable {w : Wake β γ}

theorem inv_wakeClock (h : Inv s) (hpc : s.pcs c = .wakeClock w)
    (hrun : s.run identity c (.wakeClock w) = some s') : Inv s' := by
  have hlis : Listed s w.toWaiter w.admission.entry := h.point hpc
  simp only [State.run, h.healthy, isSome_none, Bool.false_eq_true, if_false] at hrun
  cases hrun
  refine h.continue (.of_maps h.healthy rfl rfl (fun c' hc' => update_of_ne hc' _ _) rfl rfl)
    (congrArg Pc.holds hpc) rfl rfl (fun _ _ => rfl) ⟨hlis, hlis.2, ?_⟩ rfl rfl
  simp only [State.goto, State.clearFrame, State.setFrame, update_self]

variable {w : Wake β γ}

theorem inv_wakeLookup (h : Inv s) (hpc : s.pcs c = .wakeLookup w)
    (hrun : s.run identity c (.wakeLookup w) = some s') : Inv s' := by
  obtain ⟨hlis, hente, hidle⟩ := h.point hpc
  cases hrw : w.admission.isReadWrite with
  | false =>
    have hnone : s.pendingMap w.bio = none := hlis.1.trans (if_neg (by simp [hrw]))
    simp only [State.run, hnone] at hrun
    cases hrun
    refine h.continue (.of_maps h.healthy rfl rfl (fun _ _ => rfl) rfl rfl)
      (congrArg Pc.holds hpc) rfl rfl
      (fun _ _ => rfl) ⟨⟨hnone, hlis.2⟩, ?_⟩ rfl rfl
    rw [Framed, if_neg (by simp [hrw])]
    exact hidle
  | true =>
    have hsome : s.pendingMap w.bio = some w.admission.pending := hlis.1.trans (if_pos hrw)
    have hvalid : ¬ (w.admission.pending.startNs = 0 ∨ w.admission.pending.reserved ≠ 0) :=
      not_or.2 ⟨hente.1, not_not.2 rfl⟩
    simp only [State.run, hsome, if_neg hvalid] at hrun
    cases hrun
    refine h.continue (.of_maps h.healthy rfl rfl (fun c' hc' => update_of_ne hc' _ _) rfl rfl)
      (congrArg Pc.holds hpc) rfl rfl (fun _ _ => rfl) ⟨hlis, hente, hrw, ?_, ?_⟩ rfl rfl
    · simp only [State.goto, State.setFrame, update_self]
    · simp only [State.goto, State.setFrame, update_self]

omit [DecidableEq β] [DecidableEq γ] in
/-- The key of an owner that is there goes into the frame. -/
theorem inv_setKey (h : Inv s) {pc : Pc β γ} (hpc : s.pcs c = pc) (hholds : pc.holds = some w.bio)
    (hlis : Listed s w.toWaiter w.admission.entry) (hsam : Sampled s c w) {owner : OwnerState}
    (hown : s.ownerStateMap w.iocg = some owner) :
    Inv ((s.setFrame c { s.frames c with key := owner.key (s.frames c).pending.operation }).goto c
      (.aggregateLookup w)) := by
  refine h.continue (.of_maps h.healthy rfl rfl (fun c' hc' => update_of_ne hc' _ _) rfl rfl)
    (hpc ▸ hholds) rfl rfl (fun _ _ => rfl)
    ⟨hlis, ⟨hsam.entered, hsam.readWrite, ?_, ?_⟩, owner, hown, ?_⟩ rfl rfl
  · simpa [State.goto, State.setFrame] using hsam.endNs
  · simpa [State.goto, State.setFrame] using hsam.pending
  · simp only [State.goto, State.setFrame, update_self, hsam.pending]
    rfl

theorem inv_ownerLookup (hiden : ∀ g, (identity g).cssSerial ≠ 0) (h : Inv s)
    (hpc : s.pcs c = .ownerLookup w) (hrun : s.run identity c (.ownerLookup w) = some s') :
    Inv s' := by
  obtain ⟨hlis, hsam⟩ := h.point hpc
  simp only [State.run, if_neg (hiden w.iocg)] at hrun
  split at hrun
  · next owner hown =>
    cases hrun
    exact inv_setKey h hpc rfl hlis hsam hown
  · cases hrun
    exact h.continue (.of_maps h.healthy rfl rfl (fun _ _ => rfl) rfl rfl)
      (congrArg Pc.holds hpc) rfl rfl
      (fun _ _ => rfl) ⟨hlis, hsam.congr rfl⟩ rfl rfl

section

variable (h : Inv s)
include h

theorem inv_ownerInsert (hpc : s.pcs c = .ownerInsert w)
    (hrun : s.run identity c (.ownerInsert w) = some s') : Inv s' := by
  obtain ⟨hlis, hsam⟩ := h.point hpc
  cases hrun
  refine h.continue ⟨h.healthy, rfl, rfl, fun _ _ => rfl, fun g owner hg => ?_,
    fun _ counter hkey => ⟨counter, hkey, fun _ _ => rfl⟩⟩ (congrArg Pc.holds hpc) rfl rfl
    (fun _ _ => rfl) ⟨hlis, hsam.congr rfl, _, update_self _ _ _⟩ rfl rfl
  by_cases hgw : g = w.iocg
  · subst hgw
    simp only [State.goto, update_self, State.owner, hg, getD_some]
  · exact (update_of_ne hgw _ _).trans hg

theorem inv_ownerLookupAgain (hpc : s.pcs c = .ownerLookupAgain w)
    (hrun : s.run identity c (.ownerLookupAgain w) = some s') : Inv s' := by
  obtain ⟨hlis, hsam, owner, hown⟩ := h.point hpc
  simp only [State.run, hown] at hrun
  cases hrun
  exact inv_setKey h hpc rfl hlis hsam hown

theorem inv_aggregateLookup (hpc : s.pcs c = .aggregateLookup w)
    (hrun : s.run identity c (.aggregateLookup w) = some s') : Inv s' := by
  obtain ⟨hlis, hsam, hkeyed⟩ := h.point hpc
  simp only [State.run] at hrun
  split at hrun
  · next hsome =>
    cases hrun
    exact h.continue (.of_maps h.healthy rfl rfl (fun _ _ => rfl) rfl rfl)
      (congrArg Pc.holds hpc) rfl rfl
      (fun _ _ => rfl) ⟨hlis, hsam.congr rfl, hkeyed, isSome_iff_exists.1 hsome⟩ rfl rfl
  · cases hrun
    exact h.continue (.of_maps h.healthy rfl rfl (fun _ _ => rfl) rfl rfl)
      (congrArg Pc.holds hpc) rfl rfl
      (fun _ _ => rfl) ⟨hlis, hsam.congr rfl, hkeyed⟩ rfl rfl

theorem inv_aggregateInsert (hpc : s.pcs c = .aggregateInsert w)
    (hrun : s.run identity c (.aggregateInsert w) = some s') : Inv s' := by
  obtain ⟨hlis, hsam, hkeyed⟩ := h.point hpc
  cases hrun
  refine h.continue ⟨h.healthy, rfl, rfl, fun _ _ => rfl, fun _ _ => id,
    fun key counter hkey => ⟨counter, ?_, fun _ _ => rfl⟩⟩ (congrArg Pc.holds hpc) rfl rfl
    (fun _ _ => rfl) ⟨hlis, hsam.congr rfl, hkeyed, _, update_self _ _ _⟩ rfl rfl
  by_cases hself : key = (s.frames c).key
  · subst hself
    simp only [State.goto, update_self, hkey, getD_some]
  · exact (update_of_ne hself _ _).trans hkey

theorem inv_pendingDelete (hpc : s.pcs c = .pendingDelete w)
    (hrun : s.run identity c (.pendingDelete w) = some s') : Inv s' := by
  obtain ⟨hlis, hsam, hkeyed, hrow⟩ := h.point hpc
  have hsome : (s.pendingMap w.bio).isSome := by
    rw [hlis.1, Admission.entry, if_pos hsam.readWrite]
    rfl
  simp only [State.run, if_pos hsome] at hrun
  cases hrun
  refine h.continue (.of_maps h.healthy rfl rfl (fun c' hc' => update_of_ne hc' _ _) rfl rfl)
    (congrArg Pc.holds hpc) rfl rfl (fun _ hne => update_of_ne hne _ _)
    ⟨⟨update_self _ _ _, hlis.2⟩, ?_⟩ rfl rfl
  rw [Framed, if_pos hsam.readWrite]
  refine ⟨⟨hsam.entered, hsam.readWrite, ?_, ?_⟩, ?_, ?_, ?_⟩ <;>
    simp only [State.goto, State.setFrame, State.setPending, Keyed, update_self]
  · exact hsam.endNs
  · exact hsam.pending
  · exact hkeyed
  · exact hrow

theorem inv_restore (hpc : s.pcs c = .restore w) (hrun : s.run identity c (.restore w) = some s') :
    Inv s' := by
  obtain ⟨hlis, hfra⟩ := h.point hpc
  rw [Framed] at hfra
  split at hfra
  · next hrw =>
    obtain ⟨hsam, -, -, hbio⟩ := hfra
    have hnone : ¬ (s.pendingMap w.bio).isSome := by simp [hlis.1]
    simp only [State.run, hbio, if_neg hnone] at hrun
    cases hrun
    refine h.release (w := w.toWaiter)
      (.of_maps h.healthy rfl rfl (fun c' hc' => update_of_ne hc' _ _) rfl rfl)
      (congrArg Pc.holds hpc) (update_self _ _ _)
      (fun other hne => ⟨update_of_ne hne _ _, update_of_ne hne _ _⟩)
      ⟨?_, hlis.2⟩ rfl rfl
    simp only [State.waitsOn, State.admitted, State.goto, State.setBio, State.clearFrame,
      State.setFrame, State.setPending, update_self, hsam.pending, Admission.entry, if_pos hrw]
  · next hrw =>
    simp only [State.run, hfra] at hrun
    cases hrun
    exact h.release (w := w.toWaiter) (.of_maps h.healthy rfl rfl (fun _ _ => rfl) rfl rfl)
      (congrArg Pc.holds hpc) (update_self _ _ _)
      (fun other hne => ⟨update_of_ne hne _ _, rfl⟩)
      ⟨hlis.1.trans (if_neg hrw).symm, hlis.2⟩ rfl rfl

theorem inv_counterLoad (hpc : s.pcs c = .counterLoad w)
    (hrun : s.run identity c (.counterLoad w) = some s') : Inv s' := by
  have hfra : Framed s c w := h.point hpc
  rw [Framed] at hfra
  split at hfra
  · next hrw =>
    obtain ⟨hsam, hkeyed, ⟨counter, hcou⟩, hbio⟩ := hfra
    have htime : ¬ (s.frames c).endNs < (s.frames c).pending.startNs := by
      rw [hsam.endNs, hsam.pending, UInt64.lt_iff_toNat_lt]
      exact Nat.not_lt.2 hsam.entered.2
    simp only [State.run, hbio, isNone_some, Bool.false_eq_true, if_false, hcou,
      if_neg htime] at hrun
    cases hrun
    exact h.unlocked (.of_maps h.healthy rfl rfl (fun _ _ => rfl) rfl rfl)
      (congrArg Pc.holds hpc) rfl rfl
      rfl ⟨⟨hsam.congr rfl, hkeyed, ⟨counter, hcou⟩, hbio⟩, counter, hcou, rfl⟩ h.settled
  · next hrw =>
    simp only [State.run, hfra, isNone_none, if_true] at hrun
    cases hrun
    refine h.unlocked (.of_maps h.healthy rfl rfl (fun _ _ => rfl) rfl rfl)
      (congrArg Pc.holds hpc) rfl rfl
      rfl trivial ?_
    simp [State.finish, State.goto, if_neg hrw, h.settled]

theorem inv_counterStore {packed : UInt64} (hpc : s.pcs c = .counterStore w packed)
    (hrun : s.run identity c (.counterStore w packed) = some s') : Inv s' := by
  obtain ⟨⟨hsam, ⟨owner, hown, hkey⟩, -, -⟩, -⟩ := h.point hpc
  cases hrun
  refine h.unlocked ⟨h.healthy, rfl, rfl, fun c' hc' => update_of_ne hc' _ _, fun _ _ => id,
    fun key counter hkey => ?_⟩ (congrArg Pc.holds hpc) rfl rfl rfl trivial ?_
  · by_cases hself : key = (s.frames c).key
    · subst hself
      refine ⟨update counter c (waitAdd packed ((s.frames c).endNs -
        (s.frames c).pending.startNs)), ?_, fun c' hc' => update_of_ne hc' _ _⟩
      simp only [State.finish, State.goto, State.clearFrame, State.setFrame, update_self, hkey,
        map_some]
    · exact ⟨counter, (update_of_ne hself _ _).trans hkey, fun _ _ => rfl⟩
  · simp only [State.finish, State.goto, State.clearFrame, State.setFrame, State.owner, hown,
      getD_some, if_pos hsam.readWrite, hsam.endNs, hsam.pending, hkey, h.settled]
    rfl

end

theorem inv_run (hiden : ∀ g, (identity g).cssSerial ≠ 0) (h : Inv s)
    (hrun : s.run identity c (s.pcs c) = some s') : Inv s' := by
  cases hpc : s.pcs c with
  | idle | callback w | woken w =>
    rw [hpc] at hrun
    cases hrun
  | admitClock w => exact inv_admitClock h hpc (hpc ▸ hrun)
  | admitUpdate w => exact inv_admitUpdate h hpc (hpc ▸ hrun)
  | wakeClock w => exact inv_wakeClock h hpc (hpc ▸ hrun)
  | wakeLookup w => exact inv_wakeLookup h hpc (hpc ▸ hrun)
  | ownerLookup w => exact inv_ownerLookup hiden h hpc (hpc ▸ hrun)
  | ownerInsert w => exact inv_ownerInsert h hpc (hpc ▸ hrun)
  | ownerLookupAgain w => exact inv_ownerLookupAgain h hpc (hpc ▸ hrun)
  | aggregateLookup w => exact inv_aggregateLookup h hpc (hpc ▸ hrun)
  | aggregateInsert w => exact inv_aggregateInsert h hpc (hpc ▸ hrun)
  | pendingDelete w => exact inv_pendingDelete h hpc (hpc ▸ hrun)
  | restore w => exact inv_restore h hpc (hpc ▸ hrun)
  | counterLoad w => exact inv_counterLoad h hpc (hpc ▸ hrun)
  | counterStore w packed => exact inv_counterStore h hpc (hpc ▸ hrun)

omit [DecidableEq β] [DecidableEq γ] [DecidableEq ι] in
theorem inv_tick {clock : UInt64} (h : Inv s) (hclock : s.clock ≤ clock) :
    Inv { s with clock } := by
  have hle : s.clock.toNat ≤ clock.toNat := UInt64.le_iff_toNat_le.1 hclock
  have hoth (c : ι) : Undisturbed s { s with clock } c :=
    ⟨rfl, fun _ _ => id, fun _ counter hkey => ⟨counter, hkey, rfl⟩, hle⟩
  refine ⟨h.healthy, fun hzero => ?_, fun bio => ?_, h.busy, h.holder,
    fun c => (hoth c).pcInv (h.pc c) fun _ _ => rfl, h.settled⟩
  · have hpos : s.clock.toNat ≠ 0 := fun heq => h.clock (UInt64.toNat_inj.1 heq)
    have hclock0 : clock = 0 := hzero
    rw [hclock0] at hle
    exact hpos (Nat.le_zero.1 hle)
  · have hbio := h.bio bio
    unfold BioInv at hbio ⊢
    dsimp only
    split at hbio
    · exact hbio
    · trivial
    · exact ⟨hbio.1, hbio.2.mono hle⟩

omit [DecidableEq γ] in
theorem inv_admit (h : Inv s) {iocg : γ} {bio : β} (hpc : s.pcs c = .idle)
    (hbio : s.bios bio = .free) (admission : Admission) (admissions : Nat) :
    Inv { (s.setBio bio .busy).goto c (.admitClock ⟨iocg, bio, admission⟩) with admissions } := by
  have hnone : s.pendingMap bio = none := by
    have hfree := h.bio bio
    unfold BioInv at hfree
    rwa [hbio] at hfree
  have hbusy : (s.setBio bio .busy).bios bio = .busy := update_self _ _ _
  refine h.touch (.of_maps h.healthy rfl rfl (fun _ _ => rfl) rfl rfl) bio
    (.inr ⟨congrArg Pc.holds hpc, by rw [hbio]; exact nofun⟩) (.inl ⟨rfl, hbusy⟩)
    (fun other hne => ⟨update_of_ne hne _ _, rfl⟩) (bioInv_of_busy hbusy) hnone h.settled

omit [DecidableEq γ] in
theorem inv_wake (h : Inv s) {iocg : γ} {bio : β} {admission : Admission} (hpc : s.pcs c = .idle)
    (hbio : s.bios bio = .waiting iocg admission) :
    Inv ((s.setBio bio .busy).goto c (.wakeClock ⟨⟨iocg, bio, admission⟩, 0⟩)) := by
  have hlis : Listed s ⟨iocg, bio, admission⟩ admission.entry := by
    have hwaits := h.bio bio
    unfold BioInv at hwaits
    rwa [hbio] at hwaits
  have hbusy : (s.setBio bio .busy).bios bio = .busy := update_self _ _ _
  refine h.touch (.of_maps h.healthy rfl rfl (fun _ _ => rfl) rfl rfl) bio
    (.inr ⟨congrArg Pc.holds hpc, by rw [hbio]; exact nofun⟩) (.inl ⟨rfl, hbusy⟩)
    (fun other hne => ⟨update_of_ne hne _ _, rfl⟩) (bioInv_of_busy hbusy) hlis h.settled

omit [DecidableEq γ] in
theorem inv_wakeIssuer (h : Inv s) (hpc : s.pcs c = .callback w) :
    Inv ((s.setBio w.bio .free).goto c (.woken w)) := by
  obtain ⟨hlis, hfra⟩ := h.point hpc
  have hfree : (s.setBio w.bio .free).bios w.bio = .free := update_self _ _ _
  have hund : Undisturbed s ((s.setBio w.bio .free).goto c (.woken w)) c :=
    ⟨rfl, fun _ _ => id, fun _ counter hkey => ⟨counter, hkey, rfl⟩, le_rfl⟩
  refine h.touch (.of_maps h.healthy rfl rfl (fun _ _ => rfl) rfl rfl) w.bio
    (.inl (congrArg Pc.holds hpc)) (.inr ⟨rfl, fun hbusy => ?_⟩)
    (fun other hne => ⟨update_of_ne hne _ _, rfl⟩) (bioInv_of_free hfree hlis.1)
    (hund.framed hfra) h.settled
  cases hfree.symm.trans hbusy

omit [DecidableEq β] [DecidableEq γ] in
theorem inv_leave (h : Inv s) :
    (s.pcs c = .callback w → Inv (s.goto c (.restore w))) ∧
      (s.pcs c = .woken w → Inv (s.goto c (.counterLoad w))) := by
  have hund (pc : Pc β γ) : Undisturbed s (s.goto c pc) c :=
    ⟨rfl, fun _ _ => id, fun _ counter hkey => ⟨counter, hkey, rfl⟩, le_rfl⟩
  constructor
  · intro hpc
    obtain ⟨hlis, hfra⟩ := h.point hpc
    exact h.continue (.of_maps h.healthy rfl rfl (fun _ _ => rfl) rfl rfl)
      (congrArg Pc.holds hpc) rfl rfl
      (fun _ _ => rfl) ⟨hlis, (hund _).framed hfra⟩ rfl rfl
  · intro hpc
    exact h.unlocked (.of_maps h.healthy rfl rfl (fun _ _ => rfl) rfl rfl)
      (congrArg Pc.holds hpc) rfl rfl
      rfl ((hund _).framed (h.point hpc)) h.settled

theorem inv_step {a : Action β γ ι} (hiden : ∀ g, (identity g).cssSerial ≠ 0) (h : Inv s)
    (hstep : step identity s a = some s') : Inv s' := by
  cases a with simp only [step] at hstep
  | tick clock =>
    split at hstep <;> cases hstep
    rename_i hclock
    exact inv_tick h hclock
  | enter c iocg bio opf =>
    split at hstep <;> cases hstep
    rename_i hpc hbio
    exact inv_admit h hpc hbio _ _
  | wake c bio =>
    split at hstep <;> cases hstep
    rename_i iocg admission hpc hbio
    exact inv_wake h hpc hbio
  | wakeIssuer c =>
    split at hstep <;> cases hstep
    rename_i w hpc
    exact inv_wakeIssuer h hpc
  | leave c =>
    split at hstep
    · next w hpc =>
      cases hstep
      exact (inv_leave h).1 hpc
    · next w hpc =>
      cases hstep
      exact (inv_leave h).2 hpc
    · cases hstep
  | run c => exact inv_run hiden h hstep

end

/-! ## Tickets -/

section

variable {s s' : State β γ ι} {c : ι}

def Pc.ticket : Pc β γ → Option Nat
  | idle => none
  | admitClock w | admitUpdate w => some w.admission.id
  | wakeClock w | wakeLookup w | ownerLookup w | ownerInsert w | ownerLookupAgain w
  | aggregateLookup w | aggregateInsert w | pendingDelete w | callback w | woken w | restore w
  | counterLoad w | counterStore w _ => some w.admission.id

def BioState.ticket : BioState γ → Option Nat
  | free | busy => none
  | waiting _ admission => some admission.id

/-- The ticket at a bio, or at a CPU. -/
def State.ticket (s : State β γ ι) : β ⊕ ι → Option Nat
  | .inl bio => (s.bios bio).ticket
  | .inr c => (s.pcs c).ticket

def State.spent (s : State β γ ι) : List Nat := s.finished.map Settled.id

def Ticketed (s : State β γ ι) : Prop := Tickets s.ticket s.admissions s.spent

theorem Ticketed.keep (h : Ticketed s) (htic : s'.ticket = s.ticket)
    (hadm : s'.admissions = s.admissions) (hfin : s'.finished = s.finished) : Ticketed s' := by
  unfold Ticketed State.spent
  rw [htic, hadm, hfin]
  exact h

variable [DecidableEq β] [DecidableEq ι]

omit [DecidableEq β] [DecidableEq ι] in
theorem ticket_eq_elim (s : State β γ ι) :
    s.ticket = Sum.elim (BioState.ticket ∘ s.bios) (Pc.ticket ∘ s.pcs) := by
  funext x
  cases x <;> rfl

/-- A CPU goes to another program point, and no bio starts or stops waiting. -/
theorem ticket_goto (pc : Pc β γ) (hpcs : s'.pcs = update s.pcs c pc)
    (hbios : ∀ bio, (s'.bios bio).ticket = (s.bios bio).ticket) :
    s'.ticket = update s.ticket (.inr c) pc.ticket := by
  have hold : BioState.ticket ∘ s'.bios = BioState.ticket ∘ s.bios := funext hbios
  rw [ticket_eq_elim, ticket_eq_elim, Sum.update_elim_inr, hold, hpcs, comp_update]

variable {pc : Pc β γ}

theorem Ticketed.goto (h : Ticketed s) (hpcs : s'.pcs = update s.pcs c pc)
    (hpc : (s.pcs c).ticket = pc.ticket) (hbios : ∀ bio, (s'.bios bio).ticket = (s.bios bio).ticket)
    (hadm : s'.admissions = s.admissions) (hfin : s'.finished = s.finished) : Ticketed s' := by
  refine h.keep ?_ hadm hfin
  rw [ticket_goto pc hpcs hbios, ← hpc]
  exact update_eq_self (Sum.inr c) s.ticket

/-- The ticket goes from the CPU to the bio, which waits. -/
theorem Ticketed.admitted (h : Ticketed s) {w : Waiter β γ}
    (hpc : (s.pcs c).ticket = some w.admission.id) (hpcs : s'.pcs = update s.pcs c .idle)
    (hbios : s'.bios = update s.bios w.bio (.waiting w.iocg w.admission))
    (hadm : s'.admissions = s.admissions) (hfin : s'.finished = s.finished) : Ticketed s' := by
  have htic : s'.ticket = update (update s.ticket (.inr c) none) (.inl w.bio)
      (some w.admission.id) := by
    rw [ticket_eq_elim, ticket_eq_elim, Sum.update_elim_inr, Sum.update_elim_inl, hpcs, hbios,
      comp_update, comp_update]
    rfl
  unfold Ticketed State.spent
  rw [htic, hadm, hfin]
  exact Tickets.move h (x := .inr c) hpc _

/-- The ticket goes from the bio to the CPU. -/
theorem Ticketed.wake {bio : β} {iocg : γ} {admission : Admission} (h : Ticketed s)
    (hbio : s.bios bio = .waiting iocg admission) (hpc : pc.ticket = some admission.id)
    (hpcs : s'.pcs = update s.pcs c pc) (hbios : s'.bios = update s.bios bio .busy)
    (hadm : s'.admissions = s.admissions) (hfin : s'.finished = s.finished) : Ticketed s' := by
  have htic : s'.ticket = update (update s.ticket (.inl bio) none) (.inr c)
      (some admission.id) := by
    rw [ticket_eq_elim, ticket_eq_elim, Sum.update_elim_inl, Sum.update_elim_inr, hpcs, hbios,
      comp_update, comp_update, hpc]
    rfl
  have htic' : s.ticket (.inl bio) = some admission.id := by
    rw [State.ticket, hbio]
    rfl
  unfold Ticketed State.spent
  rw [htic, hadm, hfin]
  exact Tickets.move h htic' _

theorem Ticketed.finish {w : Wake β γ} {identity : γ → OwnerState} (h : Ticketed s)
    (hpc : (s.pcs c).ticket = some w.admission.id) : Ticketed (s.finish identity c w) := by
  have htic : (s.finish identity c w).ticket = update s.ticket (.inr c) none :=
    ticket_goto .idle rfl fun _ => rfl
  unfold Ticketed State.spent
  rw [htic]
  simp only [State.finish]
  split
  · exact Tickets.spend h (x := .inr c) hpc
  · exact Tickets.drop h _

variable [DecidableEq γ] {identity : γ → OwnerState}

/-- A ticket stays at the CPU, goes to the bio that waits, or is spent. -/
theorem ticketed_run (h : Ticketed s) (hrun : step identity s (.run c) = some s') :
    Ticketed s' := by
  simp only [step] at hrun
  cases hpc : s.pcs c with rw [hpc] at hrun
  | idle | callback w | woken w => cases hrun
  | admitClock w =>
    have htic : (s.pcs c).ticket = some w.admission.id := congrArg Pc.ticket hpc
    simp only [State.run] at hrun
    split at hrun <;> cases hrun
    · exact h.admitted (w := { w with admission := { w.admission with startNs := s.clock } })
        htic rfl rfl
        rfl rfl
    · exact h.goto rfl htic (fun _ => rfl) rfl rfl
  | admitUpdate w =>
    cases hrun
    exact h.admitted (congrArg Pc.ticket hpc) rfl rfl rfl rfl
  | wakeClock w | wakeLookup w | ownerLookup w | ownerInsert w | ownerLookupAgain w
  | aggregateLookup w
  | aggregateInsert w | pendingDelete w | restore w | counterLoad w | counterStore w packed =>
    have htic : (s.pcs c).ticket = some w.admission.id := congrArg Pc.ticket hpc
    simp only [State.run] at hrun
    (repeat' split at hrun) <;> cases hrun <;>
      first
      | exact h.goto rfl htic (fun _ => rfl) rfl rfl
      | exact h.admitted (w := w.toWaiter) htic rfl rfl rfl rfl
      | exact (h.keep rfl rfl rfl).finish htic

theorem ticketed_step {a : Action β γ ι} (hinv : Inv s) (h : Ticketed s)
    (hstep : step identity s a = some s') : Ticketed s' := by
  cases a with simp only [step] at hstep
  | tick clock =>
    split at hstep <;> cases hstep
    exact h.keep rfl rfl rfl
  | enter c iocg bio opf =>
    split at hstep <;> cases hstep
    rename_i hpc hbio
    have hbios (other : β) :
        (update s.bios bio .busy other).ticket = (s.bios other).ticket := by
      by_cases hother : other = bio
      · subst hother
        rw [update_self, hbio]
        rfl
      · rw [update_of_ne hother]
    unfold Ticketed
    rw [ticket_goto (s := s) _ rfl hbios]
    exact Tickets.issue h _
  | wake c bio =>
    split at hstep <;> cases hstep
    rename_i iocg admission hpc hbio
    exact h.wake hbio rfl rfl rfl rfl rfl
  | wakeIssuer c =>
    split at hstep <;> cases hstep
    rename_i w hpc
    have hbusy : s.bios w.bio = .busy := (hinv.busy w.bio).2 ⟨c, congrArg Pc.holds hpc⟩
    refine h.goto rfl (by rw [hpc]; rfl) (fun other => ?_) rfl rfl
    by_cases hother : other = w.bio
    · have hfree : (s.setBio w.bio .free).bios w.bio = .free := update_self _ _ _
      rw [hother, hbusy]
      exact (congrArg BioState.ticket hfree :)
    · exact congrArg BioState.ticket (update_of_ne hother _ _)
  | leave c =>
    split at hstep
    · next w hpc =>
      cases hstep
      exact h.goto rfl (by rw [hpc]; rfl) (fun _ => rfl) rfl rfl
    · next w hpc =>
      cases hstep
      exact h.goto rfl (by rw [hpc]; rfl) (fun _ => rfl) rfl rfl
    · cases hstep
  | run c => exact ticketed_run h hstep

end

variable {s : State β γ ι}

/-- What is in the pending map belongs to an admission whose wake has not returned 0. -/
theorem pending_unspent (hinv : Inv s) (h : Ticketed s) {bio : β} {pending : Pending}
    (hpend : s.pendingMap bio = some pending) : pending.id ∉ s.spent := by
  have hent {admission : Admission} (hsome : s.pendingMap bio = admission.entry) :
      pending.id = admission.id := by
    rw [hpend, Admission.entry] at hsome
    split at hsome
    · exact congrArg Pending.id (Option.some.inj hsome)
    · cases hsome
  cases hbio : s.bios bio with
  | free =>
    have hfree := hinv.bio bio
    unfold BioInv at hfree
    rw [hbio] at hfree
    cases hpend.symm.trans hfree
  | waiting iocg admission =>
    have hwaits := hinv.bio bio
    unfold BioInv at hwaits
    rw [hbio] at hwaits
    rw [hent hwaits.1]
    exact h.unspent (.inl bio) _ (congrArg BioState.ticket hbio)
  | busy =>
    -- the entry of a bio that is locked is that of its holder
    obtain ⟨c, hholds⟩ := (hinv.busy bio).1 hbio
    cases hpc : s.pcs c with rw [hpc] at hholds
    | idle | woken w | counterLoad w | counterStore w packed => cases hholds
    | admitClock w =>
      cases hholds
      cases hpend.symm.trans (hinv.point hpc)
    | admitUpdate w | callback w | restore w =>
      cases hholds
      cases hpend.symm.trans (hinv.point hpc).1.1
    | wakeClock w =>
      cases hholds
      rw [hent (hinv.point hpc).1]
      exact h.unspent (.inr c) _ (congrArg Pc.ticket hpc)
    | wakeLookup w | ownerLookup w | ownerInsert w | ownerLookupAgain w | aggregateLookup w
    | aggregateInsert w | pendingDelete w =>
      cases hholds
      rw [hent (hinv.point hpc).1.1]
      exact h.unspent (.inr c) _ (congrArg Pc.ticket hpc)

/-! ## Rows -/

def State.row (s : State β γ ι) (key : WaitKey) : ι → UInt64 := (s.waitAggMap key).getD fun _ => 0

variable [DecidableEq ι] (settlements : List (Settled ι))

/-- The counter of a CPU in a row after some settlements, the last one first. -/
def settle (key : WaitKey) (c : ι) (packed : UInt64) : UInt64 :=
  settlements.foldr
    (fun settled packed =>
      if settled.key = key ∧ settled.cpu = c then waitAdd packed settled.waitNs else packed)
    packed

/-- The waits that settlements have added to a counter. -/
def waits (key : WaitKey) (c : ι) : List UInt64 :=
  (settlements.filter fun settled => settled.key = key ∧ settled.cpu = c).map Settled.waitNs

theorem settle_eq_foldl (key : WaitKey) (c : ι) (packed : UInt64) :
    settle settlements key c packed = (waits settlements key c).reverse.foldl waitAdd packed := by
  induction settlements with
  | nil => rfl
  | cons settled settlements ih =>
    rw [settle, List.foldr_cons, ← settle, ih]
    by_cases h : settled.key = key ∧ settled.cpu = c <;> simp [waits, h]

/-- A counter has one more IO for each wait, and its whole units of 10us. -/
structure Counts (packed packed' : UInt64) (waits : List UInt64) : Prop where
  ioCount : (unpack packed').ioCount.toNat =
    ((unpack packed).ioCount.toNat + waits.length) % 2 ^ 26
  wait10US : (unpack packed').wait10US.toNat =
    ((unpack packed).wait10US.toNat + units waits) % 2 ^ 38

theorem counts_settle (key : WaitKey) (c : ι) (packed : UInt64) :
    Counts packed (settle settlements key c packed) (waits settlements key c) := by
  rw [settle_eq_foldl]
  constructor
  · rw [toNat_ioCount_unpack_foldl, toNat_ioCount_unpack, List.length_reverse]
  · rw [toNat_wait10US_unpack_foldl, toNat_wait10US_unpack, units, List.map_reverse,
      List.sum_reverse, ← units]

/-- The rows are what the settlements have made of the rows at the start. -/
def Tallied (start : WaitKey → ι → UInt64) (s : State β γ ι) : Prop :=
  ∀ key c, s.row key c = settle s.settlements key c (start key c)

section

variable {start : WaitKey → ι → UInt64} {s s' : State β γ ι} {c : ι}

theorem Tallied.keep (h : Tallied start s) (hrow : s'.row = s.row)
    (hset : s'.settlements = s.settlements) : Tallied start s' := by
  intro key c
  rw [hrow, hset]
  exact h key c

variable [DecidableEq β] [DecidableEq γ] {identity : γ → OwnerState}

theorem tallied_counterStore {w : Wake β γ} {packed : UInt64} (hinv : Inv s) (h : Tallied start s)
    (hpc : s.pcs c = .counterStore w packed)
    (hrun : s.run identity c (.counterStore w packed) = some s') : Tallied start s' := by
  obtain ⟨-, counter, hcou, rfl⟩ := hinv.point hpc
  cases hrun
  intro key c'
  have hold : s.row key c' = settle s.settlements key c' (start key c') := h key c'
  simp only [State.row, State.finish, State.clearFrame, State.setFrame, State.goto, settle,
    List.foldr_cons] at hold ⊢
  rw [← hold]
  by_cases hkey : key = (s.frames c).key
  · subst hkey
    rw [update_self, hcou]
    by_cases hc' : c' = c
    · subst hc'
      simp
    · simp [hc', Ne.symm hc']
  · rw [update_of_ne hkey, if_neg fun heq => hkey heq.1.symm]

theorem tallied_run (hinv : Inv s) (h : Tallied start s)
    (hrun : step identity s (.run c) = some s') :
    Tallied start s' := by
  simp only [step] at hrun
  cases hpc : s.pcs c with
  | counterStore w packed => exact tallied_counterStore hinv h hpc (hpc ▸ hrun)
  | aggregateInsert w =>
    rw [hpc] at hrun
    cases hrun
    refine h.keep (funext fun key => ?_) rfl
    simp only [State.row, State.goto]
    by_cases hkey : key = (s.frames c).key
    · subst hkey
      rw [update_self, getD_some]
    · rw [update_of_ne hkey]
  | idle | callback w | woken w | admitClock w | admitUpdate w | wakeClock w | wakeLookup w
  | ownerLookup w | ownerInsert w | ownerLookupAgain w | aggregateLookup w | pendingDelete w
  | restore w
  | counterLoad w =>
    rw [hpc] at hrun
    simp only [State.run] at hrun
    (repeat' split at hrun) <;> cases hrun <;> exact h.keep rfl rfl

theorem tallied_step {a : Action β γ ι} (hinv : Inv s) (h : Tallied start s)
    (hstep : step identity s a = some s') : Tallied start s' := by
  cases a with
  | run c => exact tallied_run hinv h hstep
  | tick clock | enter c iocg bio opf | wake c bio | wakeIssuer c | leave c =>
    simp only [step] at hstep
    split at hstep <;> cases hstep <;> exact h.keep rfl rfl

end

/-! ## Runs -/

/-- The programs are attached: there may be owners and rows from before. -/
def State.start (clock : UInt64) (owners : γ → Option OwnerState)
    (rows : WaitKey → Option (ι → UInt64)) : State β γ ι where
  clock
  ownerStateMap := owners
  waitAggMap := rows

omit [DecidableEq ι] in
theorem inv_start {clock : UInt64} (hclock : clock ≠ 0) (owners : γ → Option OwnerState)
    (rows : WaitKey → Option (ι → UInt64)) : Inv (State.start (β := β) clock owners rows) where
  healthy := rfl
  clock := hclock
  bio := fun _ => rfl
  busy := fun _ => ⟨nofun, nofun⟩
  holder := nofun
  pc := fun _ => trivial
  settled := rfl

omit [DecidableEq ι] in
theorem ticketed_start (clock : UInt64) (owners : γ → Option OwnerState)
    (rows : WaitKey → Option (ι → UInt64)) : Ticketed (State.start (β := β) clock owners rows) := by
  have hnone : (State.start (β := β) clock owners rows).ticket = fun _ => none := by
    funext x
    cases x <;> rfl
  unfold Ticketed
  rw [hnone]
  exact Tickets.empty _

variable [DecidableEq β] [DecidableEq γ]

structure Accounted (start : WaitKey → ι → UInt64) (s : State β γ ι) : Prop where
  inv : Inv s
  ticketed : Ticketed s
  tallied : Tallied start s

theorem accounted_reachable {identity : γ → OwnerState} (hiden : ∀ g, (identity g).cssSerial ≠ 0)
    {clock : UInt64} (hclock : clock ≠ 0) (owners : γ → Option OwnerState)
    (rows : WaitKey → Option (ι → UInt64))
    (h : Runs.Reachable (step identity) (State.start clock owners rows) s) :
    Accounted (fun key => (rows key).getD fun _ => 0) s := by
  refine h.invariant ?_ fun s a s' _ h hstep => ?_
  · exact ⟨inv_start hclock owners rows, ticketed_start clock owners rows, fun _ _ => rfl⟩
  · exact ⟨inv_step hiden h.inv hstep, ticketed_step h.inv h.ticketed hstep,
      tallied_step h.inv h.tallied hstep⟩

/-- **A residence is settled once.** In every run the settlements are those of the reads and writes
whose wake returned 0, in that order: under the key of the group that was woken, with the time from
the admission to the entry of that wake. No admission is settled twice, nothing of it is left in the
pending map, and the rows have nothing but the settlements: each adds one to the IOs of a counter,
and its wait. -/
theorem residence_settled_once {identity : γ → OwnerState}
    (hidentity : ∀ g, (identity g).cssSerial ≠ 0) {clock : UInt64} (hclock : clock ≠ 0)
    (owners : γ → Option OwnerState) (rows : WaitKey → Option (ι → UInt64))
    (h : Runs.Reachable (step identity) (State.start clock owners rows) s) :
    s.settlements = s.finished ∧
      (s.settlements.map Settled.id).Nodup ∧
      (∀ bio pending, s.pendingMap bio = some pending → ∀ t ∈ s.finished, t.id ≠ pending.id) ∧
      ∀ key c, s.row key c = settle s.finished key c ((rows key).getD (fun _ => 0) c) ∧
        Counts ((rows key).getD (fun _ => 0) c) (s.row key c) (waits s.finished key c) := by
  obtain ⟨hinv, hticketed, htallied⟩ := accounted_reachable hidentity hclock owners rows h
  refine ⟨hinv.settled, ?_, fun bio pending hpending t ht heq => ?_, fun key c => ?_⟩
  · rw [hinv.settled]
    exact hticketed.nodup
  · exact pending_unspent hinv hticketed hpending (heq ▸ List.mem_map_of_mem ht)
  · rw [htallied key c, hinv.settled]
    exact ⟨rfl, counts_settle ..⟩

/-- A write is admitted at 5. A wake returns -1; the next one, on another CPU and entered at 30009,
wakes the issuer, which reuses the bio before the return probe settles 30004 ns. -/
theorem residence_settled_once_reused :
    ∃ s : State Unit Unit Bool,
      s.settlements.map (fun t => (t.cpu, t.id, t.waitNs)) = [(true, 0, 30004)] ∧
        (s.pendingMap ()).map Pending.id = some 1 ∧
        unpack (s.row ⟨1, 1, 8, 0, 1, 0⟩ true) = { ioCount := 1, wait10US := 3 } ∧
        s.settlements = s.finished ∧
        (s.settlements.map Settled.id).Nodup ∧
        (∀ bio pending, s.pendingMap bio = some pending → ∀ t ∈ s.finished, t.id ≠ pending.id) ∧
        ∀ key c, s.row key c = settle s.finished key c 0 ∧
          Counts 0 (s.row key c) (waits s.finished key c) := by
  have hrun : ∃ s : State Unit Unit Bool,
      s ∈ Runs.run (step fun _ => { css := 1, cssSerial := 1, major := 8, minor := 0 })
        (State.start 5 (fun _ => none) (fun _ => none))
        (List.flatten [[.enter false () () 1, .run false, .run false],
          -- the wake that returns -1
          .wake false () :: List.replicate 8 (.run false), [.leave false, .run false],
          -- the wake that returns 0
          [.tick 30009, .wake true ()], List.replicate 5 (.run true), [.wakeIssuer true],
          [.enter false () () 0, .run false, .run false], [.leave true, .run true, .run true]]) ∧
      s.settlements.map (fun t => (t.cpu, t.id, t.waitNs)) = [(true, 0, 30004)] ∧
      (s.pendingMap ()).map Pending.id = some 1 ∧
      unpack (s.row ⟨1, 1, 8, 0, 1, 0⟩ true) = { ioCount := 1, wait10US := 3 } := by
    decide +kernel
  obtain ⟨s, hs, hsettlements, hpending, hrow⟩ := hrun
  exact ⟨s, hsettlements, hpending, hrow,
    residence_settled_once (fun _ => by decide) (by decide) (fun _ => none) (fun _ => none) ⟨_, hs⟩⟩

end

end Huatuo.IoControl.Residence
