import Mathlib.Data.List.Basic

/-!
# Classic BPF

The instructions of `golang.org/x/net/bpf` and its virtual machine, `VM.Run`. Two registers and
sixteen scratch words of 32 bits; every jump is forward. Offsets and skips are natural numbers:
the machine adds them as Go `int`s and they never wrap.

Running off the end returns 0, and so does a load past the end of the packet. Since control only
moves forward, a program of `n` instructions takes at most `n` steps; `runAt_eq` is the equation
of the loop with the fuel gone.
-/

namespace Bpf

open List

/-! ## Instructions -/

inductive Register where
  | a
  | x
  deriving DecidableEq, Repr

inductive ALUOp where
  | add
  | sub
  | mul
  | div
  | or
  | and
  | shiftLeft
  | shiftRight
  | mod
  | xor
  deriving DecidableEq, Repr

inductive JumpTest where
  | equal
  | notEqual
  | greaterThan
  | lessThan
  | greaterOrEqual
  | lessOrEqual
  | bitsSet
  | bitsNotSet
  deriving DecidableEq, Repr

/-- The widths of a packet load; `Assemble` refuses any other. -/
inductive Size where
  | one
  | two
  | four
  deriving DecidableEq, Repr

def Size.bytes : Size → Nat
  | one => 1
  | two => 2
  | four => 4

inductive Instruction where
  | aluOpConstant (op : ALUOp) (val : BitVec 32)
  | aluOpX (op : ALUOp)
  | jump (skip : Nat)
  | jumpIf (cond : JumpTest) (val : BitVec 32) (skipTrue skipFalse : Nat)
  | jumpIfX (cond : JumpTest) (skipTrue skipFalse : Nat)
  | loadAbsolute (off : Nat) (size : Size)
  | loadConstant (dst : Register) (val : BitVec 32)
  /-- `LoadExtension` with `ExtLen`, the only extension the machine implements. -/
  | loadLen
  | loadIndirect (off : Nat) (size : Size)
  | loadMemShift (off : Nat)
  | loadScratch (dst : Register) (n : Fin 16)
  | retA
  | retConstant (val : BitVec 32)
  | storeScratch (src : Register) (n : Fin 16)
  | tax
  | txa
  deriving DecidableEq, Repr

/-! ## The machine -/

structure Regs where
  a : BitVec 32 := 0
  x : BitVec 32 := 0
  scratch : Fin 16 → BitVec 32 := fun _ => 0

/-- What one instruction does: return a value, or go on after skipping some instructions. -/
inductive Outcome where
  | ret (value : BitVec 32)
  | next (skip : Nat) (regs : Regs)

def aluOpCommon (op : ALUOp) (regA value : BitVec 32) : BitVec 32 :=
  match op with
  | .add => regA + value
  | .sub => regA - value
  | .mul => regA * value
  | .div => regA / value
  | .or => regA ||| value
  | .and => regA &&& value
  | .shiftLeft => regA <<< value.toNat
  | .shiftRight => regA >>> value.toNat
  | .mod => regA % value
  | .xor => regA ^^^ value

/-- The comparison of `jumpIfCommon`. -/
def JumpTest.holds (cond : JumpTest) (regA value : BitVec 32) : Bool :=
  match cond with
  | .equal => regA == value
  | .notEqual => regA != value
  | .greaterThan => decide (value < regA)
  | .lessThan => decide (regA < value)
  | .greaterOrEqual => decide (value ≤ regA)
  | .lessOrEqual => decide (regA ≤ value)
  | .bitsSet => regA &&& value != 0
  | .bitsNotSet => regA &&& value == 0

def jumpIfCommon (cond : JumpTest) (skipTrue skipFalse : Nat) (regA value : BitVec 32) : Nat :=
  if cond.holds regA value then skipTrue else skipFalse

def inBounds (inLen offset size : Nat) : Bool := decide (offset + size ≤ inLen)

/-- The big-endian word the bytes spell. -/
def bigEndian (bytes : List (BitVec 8)) : BitVec 32 :=
  bytes.foldl (fun acc byte => (acc <<< 8) ||| byte.setWidth 32) 0

def loadCommon (packet : List (BitVec 8)) (offset : Nat) (size : Size) : Option (BitVec 32) :=
  if inBounds packet.length offset size.bytes then
    some (bigEndian ((packet.drop offset).take size.bytes))
  else none

/-- Four times the low nibble of a byte: the length of an IPv4 header. -/
def loadMemShift (packet : List (BitVec 8)) (offset : Nat) : Option (BitVec 32) :=
  packet[offset]?.map fun byte => (byte &&& 0x0f).setWidth 32 * 4

def Regs.set (regs : Regs) (dst : Register) (value : BitVec 32) : Regs :=
  match dst with
  | .a => { regs with a := value }
  | .x => { regs with x := value }

def Regs.get (regs : Regs) : Register → BitVec 32
  | .a => regs.a
  | .x => regs.x

/-- A load that fails ends the program with 0. -/
def loadInto (regs : Regs) (dst : Register) : Option (BitVec 32) → Outcome
  | none => .ret 0
  | some value => .next 0 (regs.set dst value)

/-- One iteration of the loop of `VM.Run`. -/
def exec (packet : List (BitVec 8)) (regs : Regs) : Instruction → Outcome
  | .aluOpConstant op val => .next 0 { regs with a := aluOpCommon op regs.a val }
  | .aluOpX op =>
    if regs.x = 0 ∧ (op = .div ∨ op = .mod) then .ret 0
    else .next 0 { regs with a := aluOpCommon op regs.a regs.x }
  | .jump skip => .next skip regs
  | .jumpIf cond val skipTrue skipFalse =>
    .next (jumpIfCommon cond skipTrue skipFalse regs.a val) regs
  | .jumpIfX cond skipTrue skipFalse =>
    .next (jumpIfCommon cond skipTrue skipFalse regs.a regs.x) regs
  | .loadAbsolute off size => loadInto regs .a (loadCommon packet off size)
  | .loadConstant dst val => .next 0 (regs.set dst val)
  | .loadLen => .next 0 { regs with a := BitVec.ofNat 32 packet.length }
  | .loadIndirect off size => loadInto regs .a (loadCommon packet (off + regs.x.toNat) size)
  | .loadMemShift off => loadInto regs .x (loadMemShift packet off)
  | .loadScratch dst n => .next 0 (regs.set dst (regs.scratch n))
  | .retA => .ret regs.a
  | .retConstant val => .ret val
  | .storeScratch src n =>
    .next 0 { regs with scratch := fun m => if m = n then regs.get src else regs.scratch m }
  | .tax => .next 0 { regs with x := regs.a }
  | .txa => .next 0 { regs with a := regs.x }

def runFuel (prog : List Instruction) (packet : List (BitVec 8)) :
    Nat → Nat → Regs → BitVec 32
  | 0, _, _ => 0
  | fuel + 1, pc, regs =>
    match prog[pc]? with
    | none => 0
    | some ins =>
      match exec packet regs ins with
      | .ret value => value
      | .next skip regs' => runFuel prog packet fuel (pc + 1 + skip) regs'

/-- The run from an instruction on. -/
def runAt (prog : List Instruction) (packet : List (BitVec 8)) (pc : Nat) (regs : Regs) :
    BitVec 32 :=
  runFuel prog packet (prog.length - pc) pc regs

/-- `VM.Run`: the number of bytes accepted, 0 for a rejected packet. -/
def run (prog : List Instruction) (packet : List (BitVec 8)) : BitVec 32 :=
  runAt prog packet 0 {}

/-! ## Runs without fuel -/

variable {prog : List Instruction} {packet : List (BitVec 8)}

/-- Fuel for the instructions that are left is enough. -/
theorem runFuel_eq_runAt (fuel : Nat) :
    ∀ pc regs, prog.length - pc ≤ fuel → runFuel prog packet fuel pc regs =
      runAt prog packet pc regs := by
  induction fuel using Nat.strongRecOn with
  | _ fuel ih =>
    intro pc regs hfuel
    rcases Nat.lt_or_ge pc prog.length with hpc | hpc
    · obtain ⟨fuel, rfl⟩ : ∃ k, fuel = k + 1 := ⟨fuel - 1, by omega⟩
      obtain ⟨left, hleft⟩ : ∃ k, prog.length - pc = k + 1 := ⟨prog.length - pc - 1, by omega⟩
      rw [runAt, hleft, runFuel, runFuel, List.getElem?_eq_getElem hpc]
      dsimp only
      cases exec packet regs prog[pc] with
      | ret value => rfl
      | next skip regs' =>
        -- both sides go on with enough fuel for the shorter rest
        dsimp only
        rw [ih fuel (Nat.lt_succ_self fuel) _ _ (by omega),
          ih left (by omega) _ _ (by omega)]
    · have hnone : prog[pc]? = none := List.getElem?_eq_none hpc
      have hzero : prog.length - pc = 0 := Nat.sub_eq_zero_of_le hpc
      rw [runAt, hzero, runFuel]
      cases fuel with
      | zero => rfl
      | succ fuel => rw [runFuel, hnone]

variable {pc : Nat} {ins : Instruction}

theorem runAt_of_le (h : prog.length ≤ pc) (regs : Regs) : runAt prog packet pc regs = 0 := by
  rw [runAt, Nat.sub_eq_zero_of_le h]
  rfl

/-- The loop of `VM.Run`, one instruction at a time. -/
theorem runAt_eq (h : prog[pc]? = some ins) (regs : Regs) :
    runAt prog packet pc regs =
      match exec packet regs ins with
      | .ret value => value
      | .next skip regs' => runAt prog packet (pc + 1 + skip) regs' := by
  obtain ⟨hpc, -⟩ := List.getElem?_eq_some_iff.1 h
  obtain ⟨left, hleft⟩ : ∃ k, prog.length - pc = k + 1 := ⟨prog.length - pc - 1, by omega⟩
  rw [runAt, hleft, runFuel, h]
  dsimp only
  cases exec packet regs ins with
  | ret value => rfl
  | next skip regs' => exact runFuel_eq_runAt left _ _ (by omega)

/-- A drop at the end is what running off the end does anyway. -/
theorem runAt_concat_drop (pc : Nat) (regs : Regs) :
    runAt (prog ++ [.retConstant 0]) packet pc regs = runAt prog packet pc regs := by
  induction hleft : prog.length - pc using Nat.strongRecOn generalizing pc regs with
  | _ left ih =>
    rcases Nat.lt_or_ge pc prog.length with hpc | hpc
    · have hget : prog[pc]? = some prog[pc] := List.getElem?_eq_getElem hpc
      rw [runAt_eq hget, runAt_eq ((List.getElem?_append_left hpc).trans hget)]
      cases exec packet regs prog[pc] with
      | ret value => rfl
      | next skip regs' => exact ih (prog.length - (pc + 1 + skip)) (by omega) _ _ rfl
    · rw [runAt_of_le hpc]
      rcases Nat.eq_or_lt_of_le hpc with rfl | hlt
      · rw [runAt_eq List.getElem?_concat_length]
        rfl
      · exact runAt_of_le (by rwa [length_append]) regs

/-- Whether an instruction ends a run that comes to it with something other than a rejection. -/
def Instruction.accepts (regs : Regs) : Instruction → Bool
  | .retA => regs.a != 0
  | .retConstant val => val != 0
  | _ => false

theorem exec_ret_eq_zero {regs : Regs} {value : BitVec 32} (h : exec packet regs ins = .ret value) :
    value = 0 ↔ ins.accepts regs = false := by
  cases ins with simp only [exec] at h
  | retA | retConstant => cases h; simp [Instruction.accepts]
  | aluOpX op =>
    split at h
    · cases h; simp [Instruction.accepts]
    · cases h
  | loadAbsolute off size =>
    cases hload : loadCommon packet off size <;> simp_all [loadInto, Instruction.accepts]
  | loadIndirect off size =>
    cases hload : loadCommon packet (off + regs.x.toNat) size <;>
      simp_all [loadInto, Instruction.accepts]
  | loadMemShift off =>
    cases hload : loadMemShift packet off <;> simp_all [loadInto, Instruction.accepts]
  | _ => cases h

theorem accepts_of_next {regs regs' : Regs} {skip : Nat}
    (h : exec packet regs ins = .next skip regs') : ins.accepts regs = false := by
  cases ins <;> first | rfl | cases h

/-- At the last instruction a run rejects unless that instruction accepts. -/
theorem runAt_last (h : prog[pc]? = some ins) (hlast : prog.length = pc + 1) (regs : Regs) :
    runAt prog packet pc regs = 0 ↔ ins.accepts regs = false := by
  rw [runAt_eq h]
  cases hexec : exec packet regs ins with
  | ret value => exact exec_ret_eq_zero hexec
  | next skip regs' => exact iff_of_true (runAt_of_le (by omega) regs') (accepts_of_next hexec)

/-! ## Changing skips -/

/-- The skips of an instruction that jumps. -/
def Instruction.skips : Instruction → List Nat
  | .jump skip => [skip]
  | .jumpIf _ _ skipTrue skipFalse | .jumpIfX _ skipTrue skipFalse => [skipTrue, skipFalse]
  | _ => []

/-- Apply a function to every skip of an instruction. -/
def Instruction.mapSkips (f : Nat → Nat) : Instruction → Instruction
  | .jump skip => .jump (f skip)
  | .jumpIf cond val skipTrue skipFalse => .jumpIf cond val (f skipTrue) (f skipFalse)
  | .jumpIfX cond skipTrue skipFalse => .jumpIfX cond (f skipTrue) (f skipFalse)
  | ins => ins

def Instruction.isJump : Instruction → Bool
  | .jump _ | .jumpIf .. | .jumpIfX .. => true
  | _ => false

theorem skips_mapSkips (f : Nat → Nat) (ins : Instruction) :
    (ins.mapSkips f).skips = ins.skips.map f := by
  cases ins <;> rfl

theorem accepts_mapSkips (f : Nat → Nat) (regs : Regs) (ins : Instruction) :
    (ins.mapSkips f).accepts regs = ins.accepts regs := by
  cases ins <;> rfl

def Outcome.mapSkip (f : Nat → Nat) : Outcome → Outcome
  | .ret value => .ret value
  | .next skip regs => .next (f skip) regs

theorem exec_mapSkips (f : Nat → Nat) (regs : Regs) (h : ins.isJump = true ∨ f 0 = 0) :
    exec packet regs (ins.mapSkips f) = (exec packet regs ins).mapSkip f := by
  cases ins with
  | jump | retA | retConstant => rfl
  | jumpIf cond val skipTrue skipFalse | jumpIfX cond skipTrue skipFalse =>
    simp only [Instruction.mapSkips, exec, Outcome.mapSkip, jumpIfCommon]
    split <;> rfl
  | aluOpX op =>
    have hzero : f 0 = 0 := h.resolve_left (by simp [Instruction.isJump])
    simp only [Instruction.mapSkips, exec]
    split <;> simp [Outcome.mapSkip, hzero]
  | loadAbsolute off size =>
    have hzero : f 0 = 0 := h.resolve_left (by simp [Instruction.isJump])
    simp only [Instruction.mapSkips, exec]
    cases loadCommon packet off size <;> simp [loadInto, Outcome.mapSkip, hzero]
  | loadIndirect off size =>
    have hzero : f 0 = 0 := h.resolve_left (by simp [Instruction.isJump])
    simp only [Instruction.mapSkips, exec]
    cases loadCommon packet (off + regs.x.toNat) size <;>
      simp [loadInto, Outcome.mapSkip, hzero]
  | loadMemShift off =>
    have hzero : f 0 = 0 := h.resolve_left (by simp [Instruction.isJump])
    simp only [Instruction.mapSkips, exec]
    cases loadMemShift packet off <;> simp [loadInto, Outcome.mapSkip, hzero]
  | _ =>
    have hzero : f 0 = 0 := h.resolve_left (by simp [Instruction.isJump])
    simp [Instruction.mapSkips, exec, Outcome.mapSkip, hzero]

/-! ## Packets behind a header -/

theorem loadCommon_append (header packet : List (BitVec 8)) (offset : Nat) (size : Size)
    (h : header.length ≤ offset) :
    loadCommon (header ++ packet) offset size =
      loadCommon packet (offset - header.length) size := by
  have hbou : inBounds (header ++ packet).length offset size.bytes =
      inBounds packet.length (offset - header.length) size.bytes := by
    simp only [inBounds, length_append, decide_eq_decide]
    omega
  rw [loadCommon, loadCommon, hbou, drop_append, drop_eq_nil_of_le h,
    nil_append]

theorem loadMemShift_append (header packet : List (BitVec 8)) (offset : Nat)
    (h : header.length ≤ offset) :
    loadMemShift (header ++ packet) offset = loadMemShift packet (offset - header.length) := by
  rw [loadMemShift, loadMemShift, List.getElem?_append_right h]

end Bpf
