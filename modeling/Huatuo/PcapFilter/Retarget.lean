import Huatuo.Lib.Bpf
import Huatuo.Lib.Worklist

/-!
# Retargeting a filter at raw IP packets

`internal/pcapfilter/bpf_filter.go`. The filter compiler emits programs for Ethernet frames.
`retargetToL3` rewrites one for packets without the 14-byte header: offsets move down, a load of
the ethertype becomes a load of the IP version nibble (two instructions for one, so every jump
is remapped), and comparisons of the ethertype become comparisons of the version.

Which comparisons are of the ethertype is found by a search from each ethertype load that stops
where register A is overwritten. `boundJumps` then sends jumps past the end to the last
instruction, which drops.
-/

namespace Huatuo.PcapFilter

open Bpf

def ethernetHeaderLen : Nat := 14
def etherTypeIPv4 : BitVec 32 := 0x0800
def etherTypeIPv6 : BitVec 32 := 0x86dd
def rawIPVersionMask : BitVec 32 := 0xf0
def rawIPv4Version : BitVec 32 := 4 <<< 4
def rawIPv6Version : BitVec 32 := 6 <<< 4

/-! ## Validation -/

/-- `ErrL3IncompatibleFilter`: the instruction and the Ethernet byte it reads. -/
structure L3IncompatibleFilter where
  instruction : Nat
  offset : Nat
  deriving DecidableEq, Repr

/-- The load of the ethertype. -/
def isEthertypeLoad : Instruction → Bool
  | .loadAbsolute off size => off == 12 && size == .two
  | _ => false

/-- The packet offset an instruction reads, where `ValidateL3Compatible` looks at it. -/
def validatedOffset : Instruction → Option Nat
  | .loadAbsolute off size => if off == 12 && size == .two then none else some off
  | .loadIndirect off _ => some off
  | .loadMemShift off => some off
  | _ => none

/-- The loop of `ValidateL3Compatible` over the compiled program, from instruction `i`. -/
def validateL3CompatibleFrom (i : Nat) : List Instruction → Except L3IncompatibleFilter Unit
  | [] => .ok ()
  | ins :: rest =>
    match validatedOffset ins with
    | some offset =>
      if offset < ethernetHeaderLen then .error ⟨i, offset⟩
      else validateL3CompatibleFrom (i + 1) rest
    | none => validateL3CompatibleFrom (i + 1) rest

variable (insns : List Instruction)

def validateL3Compatible : Except L3IncompatibleFilter Unit :=
  validateL3CompatibleFrom 0 insns

/-! ## Ethertype comparisons -/

/-- `pushTarget`: where a jump at `index` lands, at most the last instruction. -/
def jumpTarget (length index skip : Nat) : Nat :=
  if length ≤ index + 1 + skip then length - 1 else index + 1 + skip

/-- Where the search goes on from an instruction it visits. It stops where register A is
overwritten. -/
def searchTargets (index : Nat) : List Nat :=
  match insns[index]? with
  | some (.jumpIf _ _ skipTrue skipFalse) | some (.jumpIfX _ skipTrue skipFalse) =>
    [jumpTarget insns.length index skipTrue, jumpTarget insns.length index skipFalse]
  | some (.jump skip) => [jumpTarget insns.length index skip]
  | some (.loadConstant .x _) | some (.loadScratch .x _) | some (.loadMemShift _)
  | some (.storeScratch _ _) | some .tax => [index + 1]
  | _ => []

/-- The successors of the ethertype loads, the last one on top of the stack. -/
def searchRoots : List Nat :=
  ((List.range insns.length).filter fun i => (insns[i]?.map isEthertypeLoad).getD false).reverse.map
    (· + 1)

def isJumpIf : Instruction → Bool
  | .jumpIf .. => true
  | _ => false

/-- The conditional jumps the search visits. At most two targets are pushed for an instruction,
so the fuel never runs out (`Worklist.mem_explore_iff`). -/
def findEthertypeComparisons : List Nat :=
  let roots := searchRoots insns
  (Worklist.explore insns.length (searchTargets insns) (roots.length + 2 * insns.length)
    roots []).filter fun i => (insns[i]?.map isJumpIf).getD false

/-! ## The rewrite -/

inductive RetargetError where
  /-- "ethertype load at [i]: no successor instruction" -/
  | noSuccessor (i : Nat)
  /-- "ethertype load at [i]: expected JumpIf, got ..." -/
  | expectedJumpIf (i : Nat) (got : Instruction)
  /-- "ethertype load at [i]: unexpected JumpIf cond ..." -/
  | unexpectedCond (i : Nat) (cond : JumpTest)
  /-- "retarget L3 jump at [i]: target [t] is not forward" -/
  | notForward (i target : Nat)
  /-- "retarget L3 jump at [i]: expanded conditional skip exceeds 255" -/
  | skipTooLong (i : Nat)
  deriving DecidableEq, Repr

def stripEtherOffset (off : Nat) : Nat :=
  if ethernetHeaderLen ≤ off then off - ethernetHeaderLen else off

/-- The version nibble in place of an ethertype. -/
def versionForEthertype (val : BitVec 32) : BitVec 32 :=
  if val = etherTypeIPv4 then rawIPv4Version
  else if val = etherTypeIPv6 then rawIPv6Version
  else val

/-- The body of the first loop: what instruction `i` becomes. -/
def rewriteInstruction (comparisons : List Nat) (i : Nat) (ins : Instruction) :
    Except RetargetError (List Instruction) :=
  match ins with
  | .loadAbsolute off size =>
    if off == 12 && size == .two then
      match insns[i + 1]? with
      | none => .error (.noSuccessor i)
      | some (.jumpIf cond _ _ _) =>
        if cond != .equal && cond != .notEqual then .error (.unexpectedCond i cond)
        else .ok [.loadAbsolute 0 .one, .aluOpConstant .and rawIPVersionMask]
      | some other => .error (.expectedJumpIf i other)
    else .ok [.loadAbsolute (stripEtherOffset off) size]
  | .loadIndirect off size => .ok [.loadIndirect (stripEtherOffset off) size]
  | .loadMemShift off => .ok [.loadMemShift (stripEtherOffset off)]
  | .jumpIf cond val skipTrue skipFalse =>
    if comparisons.contains i then
      .ok [.jumpIf cond (versionForEthertype val) skipTrue skipFalse]
    else .ok [ins]
  | _ => .ok [ins]

/-- The first loop, from instruction `i` on: `out` and `newIndexes` so far. -/
def rewriteLoop (insns : List Instruction) (comparisons : List Nat) :
    List Instruction → Nat → List Instruction → List Nat →
      Except RetargetError (List Instruction × List Nat)
  | [], _, out, newIndexes => .ok (out, newIndexes)
  | ins :: rest, i, out, newIndexes =>
    match rewriteInstruction insns comparisons i ins with
    | .error err => .error err
    | .ok block =>
      rewriteLoop insns comparisons rest (i + 1) (out ++ block) (newIndexes ++ [out.length])

/-- The skip of a jump at `oldIndex` between the new places of its ends. -/
def remapL3JumpSkip (oldIndex oldSkip oldLength : Nat) (newIndexes : List Nat) :
    Except RetargetError Nat :=
  let target := jumpTarget oldLength oldIndex oldSkip
  if newIndexes.getD target 0 < newIndexes.getD oldIndex 0 + 1 then
    .error (.notForward oldIndex target)
  else .ok (newIndexes.getD target 0 - newIndexes.getD oldIndex 0 - 1)

/-- The two skips of a conditional jump, which have eight bits. -/
def remapConditional (oldIndex skipTrue skipFalse oldLength : Nat) (newIndexes : List Nat) :
    Except RetargetError (Nat × Nat) := do
  let trueSkip ← remapL3JumpSkip oldIndex skipTrue oldLength newIndexes
  let falseSkip ← remapL3JumpSkip oldIndex skipFalse oldLength newIndexes
  if trueSkip > 255 ∨ falseSkip > 255 then .error (.skipTooLong oldIndex)
  else .ok (trueSkip, falseSkip)

/-- The body of the second loop: the instruction at the new place of `oldIndex`. -/
def remapInstruction (oldIndex oldLength : Nat) (newIndexes : List Nat) :
    Instruction → Except RetargetError Instruction
  | .jumpIf cond val skipTrue skipFalse => do
      let skips ← remapConditional oldIndex skipTrue skipFalse oldLength newIndexes
      .ok (.jumpIf cond val skips.1 skips.2)
  | .jumpIfX cond skipTrue skipFalse => do
      let skips ← remapConditional oldIndex skipTrue skipFalse oldLength newIndexes
      .ok (.jumpIfX cond skips.1 skips.2)
  | .jump skip => do
      let newSkip ← remapL3JumpSkip oldIndex skip oldLength newIndexes
      .ok (.jump newSkip)
  | ins => .ok ins

/-- The second loop, over the old indices that are left. -/
def remapLoop (oldLength : Nat) (newIndexes : List Nat) :
    List Nat → List Instruction → Except RetargetError (List Instruction)
  | [], out => .ok out
  | oldIndex :: rest, out =>
    let newIndex := newIndexes.getD oldIndex 0
    match out[newIndex]? with
    | none => remapLoop oldLength newIndexes rest out
    | some ins =>
      match remapInstruction oldIndex oldLength newIndexes ins with
      | .error err => .error err
      | .ok ins' => remapLoop oldLength newIndexes rest (out.set newIndex ins')

def retargetToL3 : Except RetargetError (List Instruction) :=
  match rewriteLoop insns (findEthertypeComparisons insns) insns 0 [] [] with
  | .error err => .error err
  | .ok (out, newIndexes) =>
    remapLoop insns.length newIndexes (List.range insns.length) out

/-! ## Jumps past the end -/

def endsInDrop : Bool := insns.getLast? == some (.retConstant 0)

/-- Send jumps past the end to the last instruction, appending a drop where there is none. -/
def boundJumps : List Instruction :=
  if insns.isEmpty then insns
  else
    let insns := if endsInDrop insns then insns else insns ++ [.retConstant 0]
    let lastIdx := insns.length - 1
    insns.mapIdx fun i ins => ins.mapSkips fun skip => min skip (lastIdx - i - 1)

end Huatuo.PcapFilter
