import Huatuo.Lib.Bpf
import Huatuo.Lib.Ebpf

/-!
# The translation to eBPF

`cbpfc.ToEBPF` with the options of `buildFilterInsts`: what each instruction of a block becomes.
Classic BPF's A and X live in R0 and R1, R2 is a temporary, R3 the base of indirect loads, and
R4 and R5 point to the start and the end of the packet. Scratch words are on the stack below
the slots that `patchPacketLoads` takes.

`compile` has split the program into blocks before and put guards in front of packet loads; any
blocks with any guards are allowed here. `Shaped` is what the pass after the translation can
rely on, and `shaped_toEBPF` says it can.
-/

namespace Huatuo.PcapFilter

open Ebpf List

/-! ## Options -/

def cbpfcStackOffset : Nat := 56

def regA : Reg := .r0
def regX : Reg := .r1
def regTmp : Reg := .r2
def regIndirect : Reg := .r3
def packetStart : Reg := .r4
def packetEnd : Reg := .r5
def result : Reg := .r0

/-- The frame offset of scratch word `n`. -/
def stackOffset (n : Fin 16) : Int := -((cbpfcStackOffset + (n.val + 1) * 4 : Nat) : Int)

def reg : Bpf.Register → Reg
  | .a => regA
  | .x => regX

/-! ## Blocks -/

def maxPacketOffset : Int := 0xFFFF

/-- The guard of indirect loads: the bytes read, relative to X. -/
structure GuardIndirect where
  start : BitVec 32
  stop : Int
  deriving DecidableEq, Repr

def GuardIndirect.maxStartOffset (guard : GuardIndirect) : BitVec 32 :=
  let length := guard.stop - guard.start.toInt
  if length > maxPacketOffset then 0 else BitVec.ofInt 32 (maxPacketOffset - length + 1)

def GuardIndirect.length (guard : GuardIndirect) : BitVec 32 :=
  BitVec.ofInt 32 (guard.stop - guard.start.toInt)

/-- An instruction of a block. Jumps name the labels of the blocks they skip to; `trueOnly` is
set where the false branch is the next block. -/
inductive BlockInsn where
  | loadConstant (dst : Bpf.Register) (val : BitVec 32)
  | loadScratch (dst : Bpf.Register) (n : Fin 16)
  | loadAbsolute (off : BitVec 32) (size : Bpf.Size)
  | loadIndirect (off : BitVec 32) (size : Bpf.Size)
  | loadMemShift (off : BitVec 32)
  | storeScratch (src : Bpf.Register) (n : Fin 16)
  | loadLen
  | aluOpConstant (op : Bpf.ALUOp) (val : BitVec 32)
  | aluOpX (op : Bpf.ALUOp)
  | negateA
  | jump (label : String)
  | jumpIf (cond : Bpf.JumpTest) (val : BitVec 32) (trueLabel falseLabel : String)
      (trueOnly : Bool)
  | jumpIfX (cond : Bpf.JumpTest) (trueLabel falseLabel : String) (trueOnly : Bool)
  | retA
  | retConstant (val : BitVec 32)
  | txa
  | tax
  | packetGuardAbsolute (stop : BitVec 32)
  | packetGuardIndirect (guard : GuardIndirect)
  | checkXNotZero
  deriving DecidableEq, Repr

structure Block where
  label : String
  insns : List BlockInsn
  deriving DecidableEq, Repr

/-! ## Instructions -/

def aluToEBPF : Bpf.ALUOp → ALUOp
  | .add => .add
  | .sub => .sub
  | .mul => .mul
  | .div => .div
  | .or => .or
  | .and => .and
  | .shiftLeft => .lsh
  | .shiftRight => .rsh
  | .mod => .mod
  | .xor => .xor

def sizeToEBPF : Bpf.Size → Size
  | .one => .byte
  | .two => .half
  | .four => .word

/-- The read at `src + offset`, through the temporary where the offset has no 16 bits. -/
def packetLoad (src : Reg) (offset : BitVec 32) (makeRead : Reg → Int → List Op) : List Op :=
  if offset.toInt > 32767 ∨ offset.toInt < -32768 then
    [.alu .w64 .mov regTmp (.reg src), .alu .w64 .add regTmp (.imm offset)] ++ makeRead regTmp 0
  else makeRead src offset.toInt

def appendNtoh (r : Reg) (size : Size) (insns : List Op) : List Op :=
  if size = .byte then insns else insns ++ [.hostToBE r size]

/-- `condToJump`; there is no jump for `bitsNotSet`, which is `bitsSet` with the branches
swapped. -/
def condToJump : Bpf.JumpTest → JumpOp
  | .equal => .eq
  | .notEqual => .ne
  | .greaterThan => .gt
  | .lessThan => .lt
  | .greaterOrEqual => .ge
  | .lessOrEqual => .le
  | .bitsSet => .set
  | .bitsNotSet => .set

def condToEBPF (cond : Bpf.JumpTest) (trueLabel falseLabel : String) (trueOnly : Bool)
    (insn : JumpOp → String → List Op) : List Op :=
  if cond = .bitsNotSet then insn .set falseLabel ++ [.ja trueLabel]
  else if trueOnly then insn (condToJump cond) trueLabel
  else insn (condToJump cond) trueLabel ++ [.ja falseLabel]

def insnToEBPF (noMatch resultLabel : String) : BlockInsn → List Op
  | .loadConstant dst val => [.alu .w32 .mov (reg dst) (.imm val)]
  | .loadScratch dst n => [.loadMem (reg dst) .rfp (stackOffset n) .word]
  | .loadAbsolute off size =>
    packetLoad packetStart off fun src offset =>
      appendNtoh regA (sizeToEBPF size) [.loadMem regA src offset (sizeToEBPF size)]
  | .loadIndirect off size =>
    packetLoad regIndirect off fun src offset =>
      appendNtoh regA (sizeToEBPF size) [.loadMem regA src offset (sizeToEBPF size)]
  | .loadMemShift off =>
    packetLoad packetStart off fun src offset =>
      [.loadMem regX src offset .byte, .alu .w32 .and regX (.imm 0xF),
        .alu .w32 .lsh regX (.imm 2)]
  | .storeScratch src n => [.storeMem .rfp (stackOffset n) (reg src) .word]
  | .loadLen => [.alu .w64 .mov regA (.reg packetEnd), .alu .w32 .sub regA (.reg packetStart)]
  | .aluOpConstant op val => [.alu .w32 (aluToEBPF op) regA (.imm val)]
  | .aluOpX op => [.alu .w32 (aluToEBPF op) regA (.reg regX)]
  | .negateA => [.alu .w32 .neg regA (.imm 0)]
  | .jump label => [.ja label]
  | .jumpIf cond val trueLabel falseLabel trueOnly =>
    condToEBPF cond trueLabel falseLabel trueOnly fun jo label =>
      -- eBPF immediates are signed
      if val.toInt < 0 then
        [.alu .w32 .mov regTmp (.imm val), .jump jo regA (.reg regTmp) label]
      else [.jump jo regA (.imm val) label]
  | .jumpIfX cond trueLabel falseLabel trueOnly =>
    condToEBPF cond trueLabel falseLabel trueOnly fun jo label =>
      [.jump jo regA (.reg regX) label]
  | .retA => [.alu .w32 .mov result (.reg regA), .ja resultLabel]
  | .retConstant val => [.alu .w32 .mov result (.imm val), .ja resultLabel]
  | .txa => [.alu .w32 .mov regA (.reg regX)]
  | .tax => [.alu .w32 .mov regX (.reg regA)]
  | .packetGuardAbsolute stop =>
    [.alu .w64 .mov regTmp (.reg packetStart), .alu .w64 .add regTmp (.imm stop),
      .jump .gt regTmp (.reg packetEnd) noMatch]
  | .packetGuardIndirect guard =>
    [.alu .w64 .mov regIndirect (.reg regX), .alu .w64 .lsh regIndirect (.imm 32),
      .alu .w64 .arsh regIndirect (.imm 32), .alu .w64 .add regIndirect (.imm guard.start),
      .jump .ge regIndirect (.imm guard.maxStartOffset) noMatch,
      .alu .w64 .add regIndirect (.reg packetStart), .alu .w64 .mov regTmp (.reg regIndirect),
      .alu .w64 .add regTmp (.imm guard.length), .jump .gt regTmp (.reg packetEnd) noMatch]
  | .checkXNotZero => [.jump .eq regX (.imm 0) noMatch]

/-- The first instruction of a block carries its label. -/
def blockToEBPF (noMatch resultLabel : String) (block : Block) : List Instr :=
  match block.insns.flatMap (insnToEBPF noMatch resultLabel) with
  | [] => []
  | op :: ops => ⟨op, some block.label⟩ :: ops.map (⟨·, none⟩)

/-- `ToEBPF`. The block of packets that do not match is only there if something jumps to it. -/
def toEBPF (noMatch resultLabel : String) (blocks : List Block) : List Instr :=
  let insns := blocks.flatMap (blockToEBPF noMatch resultLabel)
  if insns.any fun ins => ins.op.labels.contains noMatch then
    insns ++ [⟨.alu .w64 .mov result (.imm 0), some noMatch⟩, ⟨.ja resultLabel, none⟩]
  else insns

/-! ## The shape of what is emitted -/

def isWorking (r : Reg) : Bool := [regA, regX, regTmp, regIndirect].contains r

/-- Immediates, the working registers and the two ends of the packet. -/
def isOperand : Operand → Bool
  | .imm _ => true
  | .reg r => isWorking r || r == packetStart || r == packetEnd

def isScratch (off : Int) : Bool := (List.finRange 16).any fun n => off == stackOffset n

/-- A load from the packet: through the start of the packet, the base of indirect loads, or the
temporary, into A or X, at an `int16` offset. -/
def isEmittedLoad (dst src : Reg) (off : Int) (size : Size) : Bool :=
  [regA, regX].contains dst && [packetStart, regIndirect, regTmp].contains src &&
    decide (-32768 ≤ off ∧ off ≤ 32767) && size != .dword

def isEmitted : Op → Bool
  | .alu _ _ dst src => isWorking dst && isOperand src
  | .hostToBE dst _ => dst == regA
  | .loadMem dst src off size =>
    if src = .rfp then [regA, regX].contains dst && isScratch off && size == .word
    else isEmittedLoad dst src off size
  | .storeMem dst off src size =>
    dst == .rfp && isScratch off && [regA, regX].contains src && size == .word
  | .ja _ => true
  | .jump _ dst src _ => isWorking dst && isOperand src
  | .callProbeReadKernel => false

/-- A list as `ToEBPF` emits it: each instruction is of a form it emits, jumps go forward, to
labels of the list or to the label behind it. -/
structure Shaped (resultLabel : String) (insns : List Instr) : Prop where
  emitted : ∀ ins ∈ insns, isEmitted ins.op = true
  closed : ∀ ins ∈ insns, ∀ label ∈ ins.op.labels,
    label = resultLabel ∨ ∃ ins' ∈ insns, ins'.sym = some label
  forward : Forward insns

theorem isScratch_stackOffset (n : Fin 16) : isScratch (stackOffset n) = true :=
  any_eq_true.2 ⟨n, mem_finRange n, beq_self_eq_true _⟩

theorem isEmitted_loadScratch (dst : Bpf.Register) (n : Fin 16) :
    isEmitted (.loadMem (reg dst) .rfp (stackOffset n) .word) = true := by
  simp only [isEmitted, isScratch_stackOffset]
  cases dst <;> rfl

theorem isEmitted_storeScratch (src : Bpf.Register) (n : Fin 16) :
    isEmitted (.storeMem .rfp (stackOffset n) (reg src) .word) = true := by
  simp only [isEmitted, isScratch_stackOffset]
  cases src <;> rfl

variable {src : Ebpf.Reg}

/-- A packet load is emitted where the read it makes is, at every offset of 16 bits. -/
theorem isEmitted_packetLoad {makeRead : Ebpf.Reg → Int → List Ebpf.Op} {offset : BitVec 32}
    (hsrc : isOperand (.reg src) = true)
    (hread : ∀ off : Int, -32768 ≤ off → off ≤ 32767 → ∀ base, base = src ∨ base = regTmp →
      ∀ op ∈ makeRead base off, isEmitted op = true) :
    ∀ op ∈ packetLoad src offset makeRead, isEmitted op = true := by
  intro op hop
  unfold packetLoad at hop
  split at hop
  · rcases mem_append.1 hop with hop | hop
    · simp only [mem_cons, not_mem_nil, or_false] at hop
      rcases hop with rfl | rfl
      · rw [isEmitted, hsrc]
        rfl
      · rfl
    · exact hread 0 (by decide) (by decide) regTmp (.inr rfl) op hop
  · exact hread _ (by omega) (by omega) src (.inl rfl) op hop

theorem isEmitted_loadA {off : Int} {base : Ebpf.Reg} (hsrc : src = packetStart ∨ src = regIndirect)
    (size : Bpf.Size) (hlow : -32768 ≤ off) (hhigh : off ≤ 32767)
    (hbase : base = src ∨ base = regTmp) :
    ∀ op ∈ appendNtoh regA (sizeToEBPF size) [.loadMem regA base off (sizeToEBPF size)],
      isEmitted op = true := by
  have hload : isEmitted (.loadMem regA base off (sizeToEBPF size)) = true := by
    rcases hsrc with rfl | rfl <;> rcases hbase with rfl | rfl <;> cases size <;>
      simp [isEmitted, isEmittedLoad, regA, regX, regTmp, regIndirect, packetStart, sizeToEBPF,
        hlow, hhigh]
  intro op hop
  unfold appendNtoh at hop
  split at hop
  · rw [mem_singleton.1 hop, hload]
  simp only [mem_append, mem_singleton] at hop
  rcases hop with rfl | rfl
  · exact hload
  · rfl

theorem isEmitted_condToEBPF {cond : Bpf.JumpTest} {trueLabel falseLabel : String} {trueOnly : Bool}
    {insn : JumpOp → String → List Op}
    (hinsn : ∀ jo label, ∀ op ∈ insn jo label, isEmitted op = true) :
    ∀ op ∈ condToEBPF cond trueLabel falseLabel trueOnly insn, isEmitted op = true := by
  have hja : ∀ jo label label', ∀ op ∈ insn jo label ++ [.ja label'], isEmitted op = true := by
    intro jo label label' op hop
    rcases mem_append.1 hop with hop | hop
    · exact hinsn jo label op hop
    · rw [mem_singleton.1 hop]
      rfl
  unfold condToEBPF
  split
  · exact hja _ _ _
  split
  · exact hinsn _ _
  · exact hja _ _ _

theorem isEmitted_insnToEBPF (noMatch resultLabel : String) (insn : BlockInsn) :
    ∀ op ∈ insnToEBPF noMatch resultLabel insn, isEmitted op = true := by
  cases insn with
  | loadScratch dst n =>
    intro op hop
    rw [mem_singleton.1 hop, isEmitted_loadScratch]
  | storeScratch src n =>
    intro op hop
    rw [mem_singleton.1 hop, isEmitted_storeScratch]
  | loadAbsolute off size =>
    exact isEmitted_packetLoad rfl fun _ hlow hhigh _ hbase =>
      isEmitted_loadA (.inl rfl) size hlow hhigh hbase
  | loadIndirect off size =>
    exact isEmitted_packetLoad rfl fun _ hlow hhigh _ hbase =>
      isEmitted_loadA (.inr rfl) size hlow hhigh hbase
  | loadMemShift off =>
    rw [insnToEBPF]
    refine isEmitted_packetLoad rfl fun o hlow hhigh base hbase op hop => ?_
    simp only [mem_cons, not_mem_nil, or_false] at hop
    rcases hop with rfl | rfl | rfl
    · rcases hbase with rfl | rfl <;>
        simp [isEmitted, isEmittedLoad, regA, regX, regTmp, regIndirect, packetStart, hlow, hhigh]
    · rfl
    · rfl
  | jumpIf cond val trueLabel falseLabel trueOnly =>
    rw [insnToEBPF]
    refine isEmitted_condToEBPF fun jo label op hop => ?_
    split at hop <;> simp only [mem_cons, not_mem_nil, or_false] at hop
    · rcases hop with rfl | rfl <;> rfl
    · rw [hop]
      rfl
  | jumpIfX cond trueLabel falseLabel trueOnly =>
    rw [insnToEBPF]
    refine isEmitted_condToEBPF fun jo label op hop => ?_
    rw [mem_singleton.1 hop]
    rfl
  | loadConstant dst val =>
    intro op hop
    rw [mem_singleton.1 hop]
    cases dst <;> rfl
  | _ =>
    intro op hop
    simp only [insnToEBPF, mem_cons, not_mem_nil, or_false] at hop
    revert hop
    rintro (rfl | rfl | rfl | rfl | rfl | rfl | rfl | rfl | rfl) <;> rfl

variable {noMatch : String} {resultLabel : String}

theorem isEmitted_blockToEBPF {block : Block} {ins : Ebpf.Instr}
    (h : ins ∈ blockToEBPF noMatch resultLabel block) : isEmitted ins.op = true := by
  have hops : ∀ op ∈ block.insns.flatMap (insnToEBPF noMatch resultLabel),
      isEmitted op = true := by
    intro op hop
    obtain ⟨insn, -, hop⟩ := mem_flatMap.1 hop
    exact isEmitted_insnToEBPF _ _ insn op hop
  unfold blockToEBPF at h
  split at h
  · cases h
  rename_i op ops heq
  rw [heq] at hops
  rcases mem_cons.1 h with rfl | hrest
  · exact hops op mem_cons_self
  · obtain ⟨op', hop, rfl⟩ := mem_map.1 hrest
    exact hops op' (mem_cons_of_mem _ hop)

/-- What `ToEBPF` emits is shaped, for blocks that only skip forward and to blocks. -/
theorem shaped_toEBPF {blocks : List Block}
    (hclo : ∀ ins ∈ toEBPF noMatch resultLabel blocks, ∀ label ∈ ins.op.labels,
      label = resultLabel ∨ ∃ ins' ∈ toEBPF noMatch resultLabel blocks, ins'.sym = some label)
    (hfor : Forward (toEBPF noMatch resultLabel blocks)) :
    Shaped resultLabel (toEBPF noMatch resultLabel blocks) where
  emitted := by
    have hblo : ∀ ins ∈ blocks.flatMap (blockToEBPF noMatch resultLabel),
        isEmitted ins.op = true := by
      intro ins hins
      obtain ⟨block, -, hins⟩ := mem_flatMap.1 hins
      exact isEmitted_blockToEBPF hins
    intro ins hins
    simp only [toEBPF] at hins
    split at hins
    · simp only [mem_append, mem_cons, not_mem_nil, or_false] at hins
      rcases hins with hins | rfl | rfl
      · exact hblo ins hins
      · rfl
      · rfl
    · exact hblo ins hins
  closed := hclo
  forward := hfor

end Huatuo.PcapFilter
