import Huatuo.Lib.Blocks
import Huatuo.PcapFilter.Emit

/-!
# Packet loads by helper call

`patchPacketLoads`. The verifier refuses a load through a scalar in a tracing program, so each
load from the packet becomes a call of `bpf_probe_read_kernel` that reads into a stack slot. The
call clobbers R0 to R5: R1 to R3 are saved in front of it and restored behind it, R4 and R5 are
restored from slots filled at the entry, and the destination keeps what was loaded.

`execAll_replacement` says what one replacement does. R0 is not restored, and R2 is not what it
was when a load through it is copied to R3: `loadKept_iff`.
-/

namespace Huatuo.PcapFilter

open Ebpf

/-! ## The pass -/

def bpfReadKernelSlot : Int := -8
def saveR1Slot : Int := -16
def saveR2Slot : Int := -24
def saveR3Slot : Int := -32
def saveR4Slot : Int := -40
def saveR5Slot : Int := -48

/-- What is loaded again behind the call, apart from the destination. -/
def restore (dst : Reg) : List Instr :=
  let r1 : Instr := ⟨.loadMem .r1 .rfp saveR1Slot .dword, none⟩
  let r2 : Instr := ⟨.loadMem .r2 .rfp saveR2Slot .dword, none⟩
  let r3 : Instr := ⟨.loadMem .r3 .rfp saveR3Slot .dword, none⟩
  match dst with
  | .r1 => [r2, r3]
  | .r2 => [r1, r3]
  | .r3 => [r1, r2]
  | _ => [r1, r2, r3]

variable (sym : Option String)

/-- Save R1 to R3, set up the call and make it. -/
def readSlot (src : Reg) (off : Int) (size : Size) : List Instr :=
  [⟨.storeMem .rfp saveR1Slot .r1 .dword, sym⟩,
    ⟨.storeMem .rfp saveR2Slot .r2 .dword, none⟩,
    ⟨.storeMem .rfp saveR3Slot .r3 .dword, none⟩,
    ⟨.alu .w64 .mov .r1 (.reg .rfp), none⟩,
    ⟨.alu .w64 .add .r1 (.imm (BitVec.ofInt 32 bpfReadKernelSlot)), none⟩,
    ⟨.alu .w64 .mov .r2 (.imm (BitVec.ofNat 32 size.bytes)), none⟩,
    ⟨.alu .w64 .mov .r3 (.reg src), none⟩,
    ⟨.alu .w64 .add .r3 (.imm (BitVec.ofInt 32 off)), none⟩,
    ⟨.callProbeReadKernel, none⟩]

/-- The replacement of a load; its label moves to the first instruction. -/
def replacement (dst src : Reg) (off : Int) (size : Size) : List Instr :=
  readSlot sym src off size ++
    [⟨.loadMem dst .rfp bpfReadKernelSlot size, none⟩,
      ⟨.loadMem .r4 .rfp saveR4Slot .dword, none⟩,
      ⟨.loadMem .r5 .rfp saveR5Slot .dword, none⟩] ++
    restore dst

/-- The replacement of an instruction, if it is a load that is not from the stack. -/
def patch (ins : Instr) : Option (List Instr) :=
  match ins.op with
  | .loadMem dst src off size =>
    if src = .rfp then none else some (replacement ins.sym dst src off size)
  | _ => none

def prologue : List Instr :=
  [⟨.storeMem .rfp saveR4Slot .r4 .dword, none⟩, ⟨.storeMem .rfp saveR5Slot .r5 .dword, none⟩]

/-- Where the jumps to the result label land: the stub then evaluates to whether R0 is zero. -/
def epilogue (resultLabel : String) : List Instr :=
  [⟨.alu .w64 .mov .r1 (.imm 0), some resultLabel⟩,
    ⟨.alu .w64 .mov .r2 (.imm 0), none⟩,
    ⟨.alu .w64 .mov .r3 (.imm 0), none⟩,
    ⟨.alu .w64 .mov .r4 (.reg .r0), none⟩,
    ⟨.alu .w64 .mov .r5 (.imm 0), none⟩]

def patchPacketLoads (insts : List Instr) (resultLabel : String) : List Instr :=
  prologue ++ (Blocks.patchesFrom patch 0 insts).foldr Blocks.splice insts ++
    epilogue resultLabel

/-! ## One replacement -/

variable {env : Env} (s : State)

/-- A store through the frame pointer. -/
theorem exec_storeMem_rfp (off : Int) (src : Reg) (size : Size) :
    exec env s (.storeMem .rfp off src size) =
      s.writeFrame off size.bytes (byteOf (s.regs src)) := by
  rw [exec, BitVec.sub_self, BitVec.toInt_zero, Int.zero_add]

/-- The frame behind the saves. -/
def saved : State :=
  ((s.writeFrame saveR1Slot 8 (byteOf (s.regs .r1))).writeFrame saveR2Slot 8
    (byteOf (s.regs .r2))).writeFrame saveR3Slot 8 (byteOf (s.regs .r3))

theorem saved_frame {o : Int} (ho : o < saveR3Slot) : (saved s).frame o = s.frame o := by
  have hr1 : saveR3Slot < saveR1Slot := by decide
  have hr2 : saveR3Slot < saveR2Slot := by decide
  rw [saved, State.writeFrame_frame_outside _ (.inl ho),
    State.writeFrame_frame_outside _ (.inl (by omega)),
    State.writeFrame_frame_outside _ (.inl (by omega))]

theorem saved_slots :
    (saved s).readFrame saveR1Slot .dword = s.regs .r1 ∧
    (saved s).readFrame saveR2Slot .dword = s.regs .r2 ∧
    (saved s).readFrame saveR3Slot .dword = s.regs .r3 := by
  refine ⟨?_, ?_, ?_⟩
  · rw [saved, State.readFrame_writeFrame_disjoint _ (.inl (by decide)),
      State.readFrame_writeFrame_disjoint _ (.inl (by decide)), State.readFrame_writeFrame_self]
  · rw [saved, State.readFrame_writeFrame_disjoint _ (.inl (by decide)),
      State.readFrame_writeFrame_self]
  · rw [saved, State.readFrame_writeFrame_self]

variable {off : Int} {src : Reg}

theorem signExtend_ofInt (hlow : -32768 ≤ off) (hhigh : off ≤ 32767) :
    (BitVec.ofInt 32 off).signExtend 64 = BitVec.ofInt 64 off := by
  rw [BitVec.signExtend, BitVec.toInt_ofInt, Int.bmod_eq_of_le (by omega) (by omega)]

/-- What is copied to R3. R1 and R2 have been set to the first arguments by then. -/
def copied (s : State) (size : Size) : Reg → BitVec 64
  | .r1 => s.regs .rfp + BitVec.ofInt 64 bpfReadKernelSlot
  | .r2 => BitVec.ofNat 64 size.bytes
  | src => s.regs src

theorem copied_eq (size : Size) (hr1 : src ≠ .r1) (hr2 : src ≠ .r2) :
    copied s size src = s.regs src := by
  cases src with
  | r1 => exact absurd rfl hr1
  | r2 => exact absurd rfl hr2
  | _ => rfl

/-- The arguments of the call, set where R1 to R3 have been saved. -/
def withArguments (src : Reg) (off : Int) (size : Size) : State :=
  ((s.set .r1 (s.regs .rfp + BitVec.ofInt 64 bpfReadKernelSlot)).set .r2
    (BitVec.ofNat 64 size.bytes)).set .r3 (copied s size src + BitVec.ofInt 64 off)

def saveWorking : List Instr :=
  [⟨.storeMem .rfp saveR1Slot .r1 .dword, sym⟩, ⟨.storeMem .rfp saveR2Slot .r2 .dword, none⟩,
    ⟨.storeMem .rfp saveR3Slot .r3 .dword, none⟩]

theorem execAll_saveWorking (sym : Option String) : execAll env (saveWorking sym) s = saved s := by
  simp only [execAll, saveWorking, List.foldl_cons, List.foldl_nil, exec_storeMem_rfp]
  rfl

def setArguments (src : Reg) (off : Int) (size : Size) : List Instr :=
  [⟨.alu .w64 .mov .r1 (.reg .rfp), none⟩,
    ⟨.alu .w64 .add .r1 (.imm (BitVec.ofInt 32 bpfReadKernelSlot)), none⟩,
    ⟨.alu .w64 .mov .r2 (.imm (BitVec.ofNat 32 size.bytes)), none⟩,
    ⟨.alu .w64 .mov .r3 (.reg src), none⟩,
    ⟨.alu .w64 .add .r3 (.imm (BitVec.ofInt 32 off)), none⟩]

variable {size : Ebpf.Size}

theorem execAll_setArguments (hlow : -32768 ≤ off) (hhigh : off ≤ 32767) :
    execAll env (setArguments src off size) s = withArguments s src off size := by
  have hsize : (BitVec.ofNat 32 size.bytes).signExtend 64 = BitVec.ofNat 64 size.bytes := by
    cases size <;> rfl
  have hslot : (BitVec.ofInt 32 bpfReadKernelSlot).signExtend 64 =
      BitVec.ofInt 64 bpfReadKernelSlot := by decide
  cases src <;> simp only [setArguments, execAll, List.foldl_cons, List.foldl_nil, exec, aluValue,
    ALUOp.eval, Operand.value, withArguments, copied, State.set_set, State.set_regs, if_true,
    reduceCtorEq, if_false, hsize, hslot, signExtend_ofInt hlow hhigh]

theorem execAll_readSlot (sym : Option String) (hlow : -32768 ≤ off) (hhigh : off ≤ 32767) :
    execAll env (readSlot sym src off size) s =
      (withArguments (saved s) src off size).probeReadKernel env := by
  have hsplit : readSlot sym src off size =
      saveWorking sym ++ (setArguments src off size ++ [⟨.callProbeReadKernel, none⟩]) := rfl
  rw [hsplit, execAll_append, execAll_append, execAll_saveWorking,
    execAll_setArguments _ hlow hhigh]
  rfl

/-- Behind the call the bytes at the loaded address are in the slot, and the frame below is as
the saves left it. -/
theorem probeReadKernel_frame (env : Env) (s : State) (src : Reg) (off : Int) (size : Size) :
    let t := (withArguments s src off size).probeReadKernel env
    t.readFrame bpfReadKernelSlot size =
      env.readKernel (copied s size src + BitVec.ofInt 64 off) size ∧
    ∀ o, o < bpfReadKernelSlot → t.frame o = s.frame o := by
  have hslot : ((withArguments s src off size).regs .r1 -
      (withArguments s src off size).regs .rfp).toInt = bpfReadKernelSlot := by
    simp only [withArguments, State.set_regs, reduceCtorEq, if_false, if_true]
    rw [BitVec.add_comm, BitVec.add_sub_cancel]
    decide
  have hsize : ((withArguments s src off size).regs .r2).toNat = size.bytes := by
    simp only [withArguments, State.set_regs, reduceCtorEq, if_false, if_true]
    cases size <;> rfl
  have haddr : (withArguments s src off size).regs .r3 =
      copied s size src + BitVec.ofInt 64 off := by
    simp only [withArguments, State.set_regs, if_true]
  simp only [State.probeReadKernel, hslot, hsize, haddr]
  constructor
  · refine readLE_congr fun k hk => ?_
    dsimp only
    exact State.writeFrame_frame_inside _ _ _ hk
  · intro o ho
    exact State.writeFrame_frame_outside _ (.inl ho)

/-- The slot a register is loaded from behind the call. -/
def saveSlot : Reg → Option Int
  | .r1 => some saveR1Slot
  | .r2 => some saveR2Slot
  | .r3 => some saveR3Slot
  | .r4 => some saveR4Slot
  | .r5 => some saveR5Slot
  | _ => none

def reload (dst : Reg) (size : Size) : List Instr :=
  [⟨.loadMem dst .rfp bpfReadKernelSlot size, none⟩, ⟨.loadMem .r4 .rfp saveR4Slot .dword, none⟩,
    ⟨.loadMem .r5 .rfp saveR5Slot .dword, none⟩] ++ restore dst

variable {dst : Reg}

theorem execAll_reload (env : Env) (s : State) (size : Size)
    (hdst : isWorking dst = true) :
    let t := execAll env (reload dst size) s
    t.frame = s.frame ∧
    t.regs dst = s.readFrame bpfReadKernelSlot size ∧
    ∀ r, r ≠ dst → t.regs r = (saveSlot r).elim (s.regs r) fun slot => s.readFrame slot .dword := by
  cases dst with
  | r0 | r1 | r2 | r3 =>
    refine ⟨rfl, rfl, fun r hr => ?_⟩
    cases r <;> first | rfl | exact absurd rfl hr
  | _ => cases hdst

/-- One replacement, where the slots of R4 and R5 hold them. The destination has the bytes at what
is copied to R3; R0 is what the call leaves in it, every other register and the frame below the
saves are as before. -/
theorem execAll_replacement (env : Env) (s : State) (sym : Option String) (src : Reg) (size : Size)
    (hdst : isWorking dst = true) (hlow : -32768 ≤ off) (hhigh : off ≤ 32767)
    (hr4 : s.readFrame saveR4Slot .dword = s.regs .r4)
    (hr5 : s.readFrame saveR5Slot .dword = s.regs .r5) :
    let t := execAll env (replacement sym dst src off size) s
    t.regs dst = env.readKernel (copied s size src + BitVec.ofInt 64 off) size ∧
    (∀ r, r ≠ dst → t.regs r =
      if r = .r0 then env.clobber (withArguments (saved s) src off size) .r0 else s.regs r) ∧
    ∀ o, o < saveR3Slot → t.frame o = s.frame o := by
  have hsplit : replacement sym dst src off size = readSlot sym src off size ++ reload dst size :=
    List.append_assoc _ _ _
  simp only [hsplit, execAll_append, execAll_readSlot s sym hlow hhigh]
  obtain ⟨hread, hfr⟩ := probeReadKernel_frame env (saved s) src off size
  generalize hu : (withArguments (saved s) src off size).probeReadKernel env = u at hread hfr
  obtain ⟨hkeep, hloa, hrest⟩ := execAll_reload env u size hdst
  -- a slot still holds what the saves put there
  have hslot : ∀ slot : Int, slot + 8 ≤ bpfReadKernelSlot →
      u.readFrame slot .dword = (saved s).readFrame slot .dword := by
    intro slot hle
    exact State.readFrame_congr fun o _ hhigh => hfr o (Int.lt_of_lt_of_le hhigh hle)
  have hbelow : ∀ slot : Int, slot + 8 ≤ saveR3Slot →
      (saved s).readFrame slot .dword = s.readFrame slot .dword := by
    intro slot hle
    exact State.readFrame_congr fun o _ hhigh => saved_frame s (Int.lt_of_lt_of_le hhigh hle)
  obtain ⟨hs1, hs2, hs3⟩ := saved_slots s
  refine ⟨hloa.trans (hread.trans ?_), fun r hr => (hrest r hr).trans ?_, fun o ho => ?_⟩
  · cases src <;> rfl
  · cases r with
    | r0 => rw [← hu]; rfl
    | r1 => exact (hslot _ (by decide)).trans hs1
    | r2 => exact (hslot _ (by decide)).trans hs2
    | r3 => exact (hslot _ (by decide)).trans hs3
    | r4 => exact ((hslot _ (by decide)).trans (hbelow _ (by decide))).trans hr4
    | r5 => exact ((hslot _ (by decide)).trans (hbelow _ (by decide))).trans hr5
    | _ => rw [← hu]; rfl
  · have hlt : o < bpfReadKernelSlot := Int.lt_trans ho (by decide)
    rw [hkeep, hfr o hlt, saved_frame s ho]

/-! ## Loads that are kept -/

/-- A load that its replacement simulates, whatever the memory and whatever the call leaves in the
registers: the destination has the bytes loaded, all else is as before. -/
def LoadKept (dst src : Reg) (off : Int) (size : Size) : Prop :=
  ∀ env s, s.readFrame saveR4Slot .dword = s.regs .r4 →
    s.readFrame saveR5Slot .dword = s.regs .r5 →
    let t := execAll env (replacement sym dst src off size) s
    t.regs dst = env.readKernel (s.regs src + BitVec.ofInt 64 off) size ∧
    (∀ r, r ≠ dst → t.regs r = s.regs r) ∧
    ∀ o, o < saveR3Slot → t.frame o = s.frame o

/-- Only the byte at `addr` is not zero, and a call leaves ones behind. -/
def oneByte (addr : BitVec 64) : Env where
  kernel := fun a => if a = addr then 1 else 0
  clobber := fun _ _ => 1

theorem getLsbD_readKernel_zero (env : Env) (addr : BitVec 64) (size : Size) :
    (env.readKernel addr size).getLsbD 0 = (env.kernel addr).getLsbD 0 := by
  rw [Env.readKernel, getLsbD_readLE _ _ _ (by decide)]
  cases size <;> simp [Size.bytes]

/-- R2 is one more than the size of the read. -/
def besideSize (size : Size) : State where
  regs := fun r => if r = .r2 then BitVec.ofNat 64 size.bytes + 1 else 0
  frame := fun _ => 0

theorem loadKept_iff {sym : Option String} {size : Size}
    (hload : isEmittedLoad dst src off size = true) :
    LoadKept sym dst src off size ↔ src ≠ regTmp ∧ dst = regA := by
  simp only [isEmittedLoad, Bool.and_eq_true, decide_eq_true_eq] at hload
  obtain ⟨⟨⟨hdst, hsrc⟩, hlow, hhigh⟩, -⟩ := hload
  have hwork : isWorking dst = true := by cases dst <;> first | rfl | cases hdst
  constructor
  · intro h
    let s := besideSize size
    let env := oneByte (BitVec.ofNat 64 size.bytes + BitVec.ofInt 64 off)
    have hzero : ∀ slot, s.readFrame slot .dword = 0 := fun _ => by
      change readLE (fun _ => 0) 8 = 0
      decide
    obtain ⟨hbytes, hregs, -⟩ := h env s (hzero _) (hzero _)
    obtain ⟨hread, hkept, -⟩ :=
      execAll_replacement env s sym src size hwork hlow hhigh (hzero _) (hzero _)
    constructor
    · -- the bytes at the size of the read and beside it differ
      rintro rfl
      have hbit := congrArg (BitVec.getLsbD · 0) (hread.symm.trans hbytes)
      simp only [getLsbD_readKernel_zero] at hbit
      have hregs2 : s.regs .r2 = BitVec.ofNat 64 size.bytes + 1 := rfl
      simp [env, oneByte, copied, regTmp, hregs2] at hbit
    · -- R0 is lost in the call
      by_contra hne
      have hlost : (0 : BitVec 64) = 1 :=
        (hregs .r0 (Ne.symm hne)).symm.trans (hkept .r0 (Ne.symm hne))
      exact absurd hlost (by decide)
  · rintro ⟨htmp, rfl⟩ env s hr4 hr5
    obtain ⟨hread, hregs, hfr⟩ :=
      execAll_replacement env s sym src size hwork hlow hhigh hr4 hr5
    have hr1 : src ≠ .r1 := by
      rintro rfl
      cases hsrc
    rw [copied_eq s size hr1 htmp] at hread
    exact ⟨hread, fun r hr => (hregs r hr).trans (if_neg hr), hfr⟩

end Huatuo.PcapFilter
