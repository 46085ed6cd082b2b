import Mathlib.Logic.Function.Iterate
import Mathlib.Data.List.Basic

/-!
# Extended BPF

The instructions of `cilium/ebpf/asm` that a translated filter uses, on a machine of eleven
64-bit registers. Jumps name labels; an undefined label is the end of the program, where what is
linked behind it goes on.

Memory is in two parts: the frame of the program, addressed relative to the frame pointer, and
the rest of kernel memory, which the program only reads. A load through the frame pointer reads
the frame, any other load reads kernel memory.

The machine is a total function on configurations that stays where it is at the end, so runs are
iterates of it. `steps_straight` runs code without jumps at once and `ends_of_forward` is
termination.
-/

namespace Ebpf

open List

/-! ## Instructions -/

inductive Reg where
  | r0 | r1 | r2 | r3 | r4 | r5 | r6 | r7 | r8 | r9
  /-- The frame pointer. -/
  | rfp
  deriving DecidableEq, Repr

inductive Size where
  | byte
  | half
  | word
  | dword
  deriving DecidableEq, Repr

def Size.bytes : Size → Nat
  | byte => 1
  | half => 2
  | word => 4
  | dword => 8

inductive ALUOp where
  | add | sub | mul | div | or | and | lsh | rsh | neg | mod | xor | mov | arsh
  deriving DecidableEq, Repr

inductive JumpOp where
  | eq | ne | gt | lt | ge | le | set
  deriving DecidableEq, Repr

inductive Width where
  | w32
  | w64
  deriving DecidableEq, Repr

inductive Operand where
  | imm (value : BitVec 32)
  | reg (r : Reg)
  deriving DecidableEq, Repr

inductive Op where
  | alu (width : Width) (op : ALUOp) (dst : Reg) (src : Operand)
  /-- `HostTo(BE, dst, size)` on a little-endian host. -/
  | hostToBE (dst : Reg) (size : Size)
  | loadMem (dst src : Reg) (off : Int) (size : Size)
  | storeMem (dst : Reg) (off : Int) (src : Reg) (size : Size)
  | ja (label : String)
  | jump (op : JumpOp) (dst : Reg) (src : Operand) (label : String)
  | callProbeReadKernel
  deriving DecidableEq, Repr

/-- An instruction and the label it carries. -/
structure Instr where
  op : Op
  sym : Option String := none
  deriving DecidableEq, Repr

/-! ## The machine -/

@[ext]
structure State where
  regs : Reg → BitVec 64
  frame : Int → BitVec 8

/-- What a program finds: kernel memory, and what a helper leaves in the registers it clobbers. -/
structure Env where
  kernel : BitVec 64 → BitVec 8
  clobber : State → Reg → BitVec 64

/-- The little-endian number that `n` bytes spell. -/
def readLE (bytes : Nat → BitVec 8) : Nat → BitVec 64
  | 0 => 0
  | n + 1 => (readLE (fun k => bytes (k + 1)) n <<< 8) ||| (bytes 0).setWidth 64

def byteOf (value : BitVec 64) (k : Nat) : BitVec 8 := (value >>> (8 * k)).setWidth 8

def Operand.value (s : State) : Operand → BitVec 64
  | .imm value => value.signExtend 64
  | .reg r => s.regs r

variable {n pc : Nat} {s t : State} {op : Op} {off : Int}

/-- Division by zero is zero and the remainder by zero the dividend, as `BitVec` has it. -/
def ALUOp.eval (op : ALUOp) (a b : BitVec n) : BitVec n :=
  match op with
  | .add => a + b
  | .sub => a - b
  | .mul => a * b
  | .div => a / b
  | .or => a ||| b
  | .and => a &&& b
  | .lsh => a <<< (b.toNat % n)
  | .rsh => a >>> (b.toNat % n)
  | .neg => -a
  | .mod => a % b
  | .xor => a ^^^ b
  | .mov => b
  | .arsh => a.sshiftRight (b.toNat % n)

/-- A 32-bit operation clears the upper half of its destination. -/
def aluValue (width : Width) (op : ALUOp) (a b : BitVec 64) : BitVec 64 :=
  match width with
  | .w32 => (op.eval (a.setWidth 32) (b.setWidth 32)).setWidth 64
  | .w64 => op.eval a b

def JumpOp.holds (op : JumpOp) (a b : BitVec 64) : Bool :=
  match op with
  | .eq => a == b
  | .ne => a != b
  | .gt => decide (b < a)
  | .lt => decide (a < b)
  | .ge => decide (b ≤ a)
  | .le => decide (a ≤ b)
  | .set => a &&& b != 0

def State.set (s : State) (r : Reg) (value : BitVec 64) : State :=
  { s with regs := fun q => if q = r then value else s.regs q }

def State.readFrame (s : State) (off : Int) (size : Size) : BitVec 64 :=
  readLE (fun k => s.frame (off + k)) size.bytes

def State.writeFrame (s : State) (off : Int) (n : Nat) (bytes : Nat → BitVec 8) : State :=
  { s with frame := fun o => if off ≤ o ∧ o < off + n then bytes (o - off).toNat else s.frame o }

def Env.readKernel (env : Env) (addr : BitVec 64) (size : Size) : BitVec 64 :=
  readLE (fun k => env.kernel (addr + BitVec.ofNat 64 k)) size.bytes

/-- The registers a call does not preserve. -/
def callerSaved : List Reg := [.r0, .r1, .r2, .r3, .r4, .r5]

/-- `bpf_probe_read_kernel(dst = R1, size = R2, src = R3)`, with `dst` in the frame. -/
def State.probeReadKernel (env : Env) (s : State) : State :=
  { regs := fun r => if r ∈ callerSaved then env.clobber s r else s.regs r
    frame := (s.writeFrame (s.regs .r1 - s.regs .rfp).toInt (s.regs .r2).toNat fun k =>
      env.kernel (s.regs .r3 + BitVec.ofNat 64 k)).frame }

def State.loadValue (env : Env) (s : State) (src : Reg) (off : Int) (size : Size) : BitVec 64 :=
  if src = .rfp then s.readFrame off size
  else env.readKernel (s.regs src + BitVec.ofInt 64 off) size

def exec (env : Env) (s : State) : Op → State
  | .alu width op dst src => s.set dst (aluValue width op (s.regs dst) (src.value s))
  | .hostToBE dst size =>
    s.set dst (readLE (fun k => byteOf (s.regs dst) (size.bytes - 1 - k)) size.bytes)
  | .loadMem dst src off size => s.set dst (s.loadValue env src off size)
  | .storeMem dst off src size =>
    s.writeFrame ((s.regs dst - s.regs .rfp).toInt + off) size.bytes (byteOf (s.regs src))
  | .ja _ | .jump .. => s
  | .callProbeReadKernel => s.probeReadKernel env

/-- Where a label is; the end of the program if it is not defined. -/
def target (prog : List Instr) (label : String) : Nat :=
  prog.findIdx fun ins => ins.sym == some label

def next (prog : List Instr) (pc : Nat) (s : State) : Op → Nat
  | .ja label => target prog label
  | .jump op dst src label =>
    if op.holds (s.regs dst) (src.value s) then target prog label else pc + 1
  | _ => pc + 1

def step (env : Env) (prog : List Instr) (c : Nat × State) : Nat × State :=
  match prog[c.1]? with
  | none => c
  | some ins => (next prog c.1 c.2 ins.op, exec env c.2 ins.op)

/-- The program comes to its end from `c`, in state `e`. -/
def Ends (env : Env) (prog : List Instr) (c : Nat × State) (e : State) : Prop :=
  ∃ n pc, (step env prog)^[n] c = (pc, e) ∧ prog.length ≤ pc

/-! ## Runs -/

variable {env : Env} {prog : List Instr}

theorem step_of_getElem? {ins : Instr} (h : prog[pc]? = some ins) :
    step env prog (pc, s) = (next prog pc s ins.op, exec env s ins.op) := by
  rw [step, h]

theorem step_of_le (h : prog.length ≤ pc) : step env prog (pc, s) = (pc, s) := by
  rw [step, List.getElem?_eq_none h]

def Op.isJump : Op → Bool
  | .ja _ | .jump .. => true
  | _ => false

theorem next_of_not_jump (h : op.isJump = false) : next prog pc s op = pc + 1 := by
  cases op with
  | ja | jump => cases h
  | _ => rfl

/-- Code without jumps, run to its end. -/
def execAll (env : Env) (code : List Instr) (s : State) : State :=
  code.foldl (fun s ins => exec env s ins.op) s

theorem execAll_append (code code' : List Instr) (s : State) :
    execAll env (code ++ code') s = execAll env code' (execAll env code s) :=
  foldl_append

/-- Code without jumps runs from its first instruction to behind its last. -/
theorem steps_straight (code : List Instr) :
    ∀ {pc : Nat} {s : State}, (∀ ins ∈ code, ins.op.isJump = false) →
      (∀ k ins, code[k]? = some ins → prog[pc + k]? = some ins) →
      (step env prog)^[code.length] (pc, s) = (pc + code.length, execAll env code s) := by
  induction code with
  | nil => intro pc s _ _; rfl
  | cons ins code ih =>
    intro pc s hjump hcode
    have hget : prog[pc]? = some ins := hcode 0 ins rfl
    rw [length_cons, Function.iterate_succ_apply, step_of_getElem? hget,
      next_of_not_jump (hjump ins mem_cons_self),
      ih (fun ins' hins => hjump ins' (mem_cons_of_mem _ hins))]
    · rw [Nat.add_assoc, Nat.add_comm 1]
      rfl
    · intro k ins' hins
      rw [Nat.add_assoc, Nat.add_comm 1]
      exact hcode (k + 1) ins' hins

theorem Ends.of_steps {c : Nat × State} {e : State} (n : Nat)
    (h : Ends env prog ((step env prog)^[n] c) e) : Ends env prog c e := by
  obtain ⟨m, pc, hrun, hend⟩ := h
  exact ⟨m + n, pc, by rw [Function.iterate_add_apply, hrun], hend⟩

/-- The labels an instruction jumps to. -/
def Op.labels : Op → List String
  | .ja label | .jump _ _ _ label => [label]
  | _ => []

/-- Every jump goes forward. -/
def Forward (prog : List Instr) : Prop :=
  ∀ pc ins, prog[pc]? = some ins → ∀ label ∈ ins.op.labels, pc < target prog label

theorem Forward.lt_next (h : Forward prog) {ins : Instr} (hget : prog[pc]? = some ins) (s : State) :
    pc < next prog pc s ins.op := by
  obtain ⟨op, sym⟩ := ins
  cases op with
  | ja label => exact h pc _ hget label mem_cons_self
  | jump op dst src label =>
    simp only [next]
    split
    · exact h pc _ hget label mem_cons_self
    · exact Nat.lt_succ_self pc
  | _ => exact Nat.lt_succ_self pc

/-- A program that only jumps forward ends. -/
theorem ends_of_forward (env : Env) (h : Forward prog) (c : Nat × State) :
    ∃ e, Ends env prog c e := by
  induction hleft : prog.length - c.1 using Nat.strongRecOn generalizing c with
  | _ left ih =>
    rcases Nat.lt_or_ge c.1 prog.length with hlt | hge
    · have hget : prog[c.1]? = some prog[c.1] := List.getElem?_eq_getElem hlt
      have hfor := h.lt_next hget c.2
      obtain ⟨e, he⟩ := ih (prog.length - next prog c.1 c.2 prog[c.1].op) (by omega)
        (step env prog c) (by rw [step_of_getElem? (s := c.2) hget])
      exact ⟨e, .of_steps 1 he⟩
    · exact ⟨c.2, 0, c.1, rfl, hge⟩

/-! ## Registers and the frame -/

@[simp] theorem State.set_regs (s : State) (r q : Reg) (value : BitVec 64) :
    (s.set r value).regs q = if q = r then value else s.regs q := rfl

theorem State.set_set (s : State) (r : Reg) (a b : BitVec 64) : (s.set r a).set r b = s.set r b :=
  State.ext (funext fun q => by by_cases h : q = r <;> simp [State.set, h]) rfl

theorem State.writeFrame_frame_outside (s : State) {o : Int} {bytes : Nat → BitVec 8}
    (h : o < off ∨ off + n ≤ o) : (s.writeFrame off n bytes).frame o = s.frame o := by
  simp only [State.writeFrame]
  rw [if_neg]
  omega

/-- The bytes a write leaves, one by one. -/
theorem State.writeFrame_frame_inside (s : State) (off : Int) {k : Nat} (bytes : Nat → BitVec 8)
    (h : k < n) : (s.writeFrame off n bytes).frame (off + k) = bytes k := by
  simp only [State.writeFrame]
  rw [if_pos (by omega), show (off + (k : Int) - off).toNat = k by omega]

theorem readLE_congr {f g : Nat → BitVec 8} (h : ∀ k < n, f k = g k) : readLE f n = readLE g n := by
  induction n generalizing f g with
  | zero => rfl
  | succ n ih =>
    rw [readLE, readLE, h 0 (Nat.succ_pos n), ih fun k hk => h (k + 1) (by omega)]

theorem State.readFrame_congr {size : Size}
    (h : ∀ o, off ≤ o → o < off + size.bytes → t.frame o = s.frame o) :
    t.readFrame off size = s.readFrame off size :=
  readLE_congr fun k hk => h _ (by omega) (by omega)

theorem getLsbD_readLE (f : Nat → BitVec 8) (n : Nat) (i : Nat) (hi : i < 64) :
    (readLE f n).getLsbD i = (decide (i < 8 * n) && (f (i / 8)).getLsbD (i % 8)) := by
  induction n generalizing f i with
  | zero => simp [readLE]
  | succ n ih =>
    rw [readLE, BitVec.getLsbD_or, BitVec.getLsbD_shiftLeft, BitVec.getLsbD_setWidth]
    rcases Nat.lt_or_ge i 8 with hlow | hhigh
    · have hdiv : i / 8 = 0 := Nat.div_eq_of_lt hlow
      have hmod : i % 8 = i := Nat.mod_eq_of_lt hlow
      have hbound : i < 8 * (n + 1) := by omega
      simp [hlow, hi, hdiv, hmod, hbound]
    · have hbey : (f 0).getLsbD i = false := BitVec.getLsbD_of_ge _ _ hhigh
      rw [ih _ (i - 8) (by omega), hbey]
      have hdiv : (i - 8) / 8 + 1 = i / 8 := by omega
      have hmod : (i - 8) % 8 = i % 8 := by omega
      have hlt : i - 8 < 8 * n ↔ i < 8 * (n + 1) := by omega
      simp [hi, Nat.not_lt.2 hhigh, hdiv, hmod, hlt]

/-- Eight bytes are the whole value. -/
theorem readLE_byteOf (value : BitVec 64) : readLE (byteOf value) 8 = value := by
  refine BitVec.eq_of_getLsbD_eq fun i hi => ?_
  rw [getLsbD_readLE _ _ _ hi, byteOf, BitVec.getLsbD_setWidth, BitVec.getLsbD_ushiftRight]
  have hlt : i < 8 * 8 := hi
  have hmod : i % 8 < 8 := Nat.mod_lt _ (by decide)
  have hsum : 8 * (i / 8) + i % 8 = i := Nat.div_add_mod i 8
  simp [hlt, hmod, hsum]

/-- What a store leaves in its own slot. -/
theorem State.readFrame_writeFrame_self (s : State) (off : Int) (value : BitVec 64) :
    (s.writeFrame off 8 (byteOf value)).readFrame off .dword = value := by
  refine Eq.trans (readLE_congr fun k hk => ?_) (readLE_byteOf value)
  exact s.writeFrame_frame_inside off _ hk

/-- A write elsewhere in the frame. -/
theorem State.readFrame_writeFrame_disjoint (s : State) {off' : Int} {bytes : Nat → BitVec 8}
    {size : Size} (h : off + n ≤ off' ∨ off' + size.bytes ≤ off) :
    (s.writeFrame off n bytes).readFrame off' size = s.readFrame off' size := by
  refine State.readFrame_congr fun o hlow hhigh => ?_
  exact s.writeFrame_frame_outside (by omega)

/-! ## What an instruction depends on -/

/-- The registers an instruction reads. -/
def Op.reads (r : Reg) : Op → Bool
  | .alu _ op dst src => (op != .mov && r == dst) || src == .reg r
  | .hostToBE dst _ => r == dst
  | .loadMem _ src _ _ => r == src
  | .storeMem dst _ src _ => r == dst || r == src || r == .rfp
  | .ja _ => false
  | .jump _ dst src _ => r == dst || src == .reg r
  | .callProbeReadKernel => r == .r1 || r == .r2 || r == .r3 || r == .rfp

/-- The register an instruction puts its result into. -/
def Op.dst : Op → Option Reg
  | .alu _ _ dst _ | .hostToBE dst _ | .loadMem dst _ _ _ => some dst
  | _ => none

theorem exec_regs_of_ne {r : Reg} (hcall : op ≠ .callProbeReadKernel) (h : op.dst ≠ some r) :
    (exec env s op).regs r = s.regs r := by
  have hset : ∀ (dst : Reg) (value : BitVec 64), some dst ≠ some r →
      (s.set dst value).regs r = s.regs r := fun dst value hne =>
    if_neg fun heq => hne (congrArg some heq.symm)
  cases op with
  | alu width op dst src | hostToBE dst size | loadMem dst src off size => exact hset dst _ h
  | callProbeReadKernel => exact absurd rfl hcall
  | _ => rfl

theorem Operand.value_congr {src : Operand} (h : ∀ r, src = .reg r → t.regs r = s.regs r) :
    src.value t = src.value s := by
  cases src with
  | imm value => rfl
  | reg r => exact h r rfl

theorem aluValue_mov (width : Width) (a a' b : BitVec 64) :
    aluValue width .mov a b = aluValue width .mov a' b := by
  cases width <;> rfl

/-- The result of an instruction comes from the registers it reads, and from the frame if it
loads through the frame pointer. -/
theorem exec_regs_dst {dst : Reg} (h : op.dst = some dst)
    (hreads : ∀ r, op.reads r = true → t.regs r = s.regs r)
    (hfr : ∀ off size, op = .loadMem dst .rfp off size →
      t.readFrame off size = s.readFrame off size) :
    (exec env t op).regs dst = (exec env s op).regs dst := by
  cases op with
  | alu width op dst' src =>
    obtain rfl : dst' = dst := Option.some.inj h
    have hsrc : src.value t = src.value s := Operand.value_congr fun r hr =>
      hreads r (by simp [Op.reads, hr])
    simp only [exec, State.set_regs, if_true, hsrc]
    by_cases hmov : op = .mov
    · rw [hmov]
      exact aluValue_mov _ _ _ _
    · rw [hreads dst' (by simp [Op.reads, hmov])]
  | hostToBE dst' size =>
    obtain rfl : dst' = dst := Option.some.inj h
    simp [exec, State.set_regs, hreads dst' (by simp [Op.reads])]
  | loadMem dst' src off size =>
    obtain rfl : dst' = dst := Option.some.inj h
    simp only [exec, State.set_regs, if_true, State.loadValue]
    split
    · rename_i hsrc
      exact hfr off size (by rw [hsrc])
    · rw [hreads src (by simp [Op.reads])]
  | _ => cases h

/-- A branch depends on the registers it reads. -/
theorem next_congr (pc : Nat) (hreads : ∀ r, op.reads r = true → t.regs r = s.regs r) :
    next prog pc t op = next prog pc s op := by
  cases op with
  | jump op dst src label =>
    have hsrc : src.value t = src.value s := Operand.value_congr fun r hr =>
      hreads r (by simp [Op.reads, hr])
    rw [next, next, hsrc, hreads dst (by simp [Op.reads])]
  | _ => rfl

/-! ## Liveness -/

/-- Where control can go from an instruction. -/
def successors (prog : List Instr) (pc : Nat) : Op → List Nat
  | .ja label => [target prog label]
  | .jump _ _ _ label => [target prog label, pc + 1]
  | _ => [pc + 1]

theorem next_mem_successors (pc : Nat) (s : State) (op : Op) :
    next prog pc s op ∈ successors prog pc op := by
  cases op with
  | jump op dst src label =>
    simp only [next, successors]
    split <;> simp
  | _ => exact mem_cons_self

/-- A register that is read, here or later on some path, before it is written; at the end of the
program it is read by what follows. -/
inductive Live (prog : List Instr) (r : Reg) : Nat → Prop
  | exit {pc : Nat} (h : prog.length ≤ pc) : Live prog r pc
  | use {pc : Nat} {ins : Instr} (hget : prog[pc]? = some ins) (hread : ins.op.reads r = true) :
      Live prog r pc
  | step {pc pc' : Nat} {ins : Instr} (hget : prog[pc]? = some ins) (hkeep : ins.op.dst ≠ some r)
      (hnext : pc' ∈ successors prog pc ins.op) (hlive : Live prog r pc') : Live prog r pc

/-- A set of instructions that do not read the register, and that control only leaves behind an
instruction that writes it. -/
def isDeadSet (prog : List Instr) (r : Reg) (dead : List Nat) : Bool :=
  dead.all fun pc =>
    match prog[pc]? with
    | none => false
    | some ins => !ins.op.reads r &&
        (ins.op.dst == some r || (successors prog pc ins.op).all dead.contains)

theorem not_live_of_isDeadSet {r : Reg} {dead : List Nat} (h : isDeadSet prog r dead = true)
    (hpc : pc ∈ dead) : ¬ Live prog r pc := by
  intro hlive
  induction hlive with
  | exit hle =>
    have hcheck := all_eq_true.1 h _ hpc
    simp [List.getElem?_eq_none hle] at hcheck
  | use hget hread =>
    have hcheck := all_eq_true.1 h _ hpc
    simp [hget, hread] at hcheck
  | step hget hkeep hnext _ ih =>
    have hcheck := all_eq_true.1 h _ hpc
    simp only [hget, Bool.and_eq_true, Bool.or_eq_true, beq_iff_eq, hkeep, false_or,
      all_eq_true, contains_iff_mem] at hcheck
    exact ih (hcheck.2 _ hnext)

instance (prog : List Instr) : Decidable (Forward prog) :=
  decidable_of_iff (∀ pc : Fin prog.length, ∀ label ∈ (prog.get pc).op.labels,
    pc.val < target prog label) <| by
  constructor
  · intro h pc ins hget
    obtain ⟨hlt, rfl⟩ := List.getElem?_eq_some_iff.1 hget
    exact h ⟨pc, hlt⟩
  · intro h pc
    exact h pc _ (List.getElem?_eq_getElem pc.isLt)

end Ebpf
