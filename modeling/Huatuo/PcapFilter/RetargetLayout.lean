import Huatuo.Lib.Blocks
import Huatuo.PcapFilter.Retarget

/-!
# What retargeting finds and where it puts it

Two specifications. `mem_findEthertypeComparisons`: the search finds exactly the conditional
jumps that can be reached from an ethertype load with register A untouched. `retargeted_of_ok`:
the program a successful `retargetToL3` returns has, at the new `place` of each instruction, the
version probe or the one rewritten instruction, its jumps leading to the new places of their
targets.

`Flow` is control flow from the entry, with a flag that says whether A holds the ethertype.
-/

namespace Huatuo.PcapFilter

open Bpf List Option

/-! ## Bounded jumps -/

section BoundJumps

variable {P : List Instruction} (hdrop : endsInDrop P = true) {i n : Nat}

theorem jumpTarget_of_min {skip : Nat} (hi : i + 1 < n) :
    i + 1 + min skip (n - 1 - i - 1) = jumpTarget n i skip := by
  unfold jumpTarget
  split <;> omega

theorem jumpTarget_lt (hi : i < n) (skip : Nat) : jumpTarget n i skip < n := by
  unfold jumpTarget
  split <;> omega

include hdrop

theorem endsInDrop_pos : 0 < P.length := by
  cases P with
  | nil => cases hdrop
  | cons ins rest => exact Nat.succ_pos _

theorem endsInDrop_last : P[P.length - 1]? = some (.retConstant 0) := by
  have hlast : P.getLast? = some (.retConstant 0) := beq_iff_eq.1 hdrop
  rw [List.getLast?_eq_getElem?] at hlast
  exact hlast

/-- Only the drop itself is the last instruction. -/
theorem succ_lt_of_ne {ins : Instruction} (hi : P[i]? = some ins) (hne : ins ≠ .retConstant 0) :
    i + 1 < P.length := by
  obtain ⟨hlt, -⟩ := List.getElem?_eq_some_iff.1 hi
  rcases Nat.lt_or_ge (i + 1) P.length with h | h
  · exact h
  · obtain rfl : i = P.length - 1 := by omega
    rw [endsInDrop_last hdrop] at hi
    exact absurd (Option.some.inj hi).symm hne

theorem getElem?_boundJumps (i : Nat) :
    (boundJumps P)[i]? = P[i]?.map fun ins =>
      ins.mapSkips fun skip => min skip (P.length - 1 - i - 1) := by
  have hne : P.isEmpty = false := by
    have := endsInDrop_pos hdrop
    cases P <;> simp_all
  simp only [boundJumps, hne, hdrop, if_true, Bool.false_eq_true, if_false,
    List.getElem?_mapIdx]

/-- A run of the bounded program, one instruction of the original at a time. -/
theorem runAt_boundJumps {packet : List (BitVec 8)} {ins : Instruction} (hi : P[i]? = some ins)
    (regs : Regs) :
    runAt (boundJumps P) packet i regs =
      match exec packet regs ins with
      | .ret value => value
      | .next skip regs' => runAt (boundJumps P) packet (jumpTarget P.length i skip) regs' := by
  have hget := getElem?_boundJumps hdrop i
  rw [hi, map_some] at hget
  rw [runAt_eq hget,
    exec_mapSkips (fun skip => min skip (P.length - 1 - i - 1)) regs (Or.inr (Nat.zero_min _))]
  cases hexec : exec packet regs ins with
  | ret value => rfl
  | next skip regs' =>
    have hne : ins ≠ .retConstant 0 := by
      rintro rfl
      cases hexec
    simp only [Outcome.mapSkip, jumpTarget_of_min (succ_lt_of_ne hdrop hi hne)]

end BoundJumps

/-! ## Control flow and the ethertype -/

/-- The instructions after which register A holds something else. -/
def overwritesA : Instruction → Bool
  | .aluOpConstant .. | .aluOpX _ | .loadAbsolute .. | .loadConstant .a _ | .loadLen
  | .loadIndirect .. | .loadScratch .a _ | .txa => true
  | .jump _ | .jumpIf .. | .jumpIfX .. | .loadConstant .x _ | .loadMemShift _
  | .loadScratch .x _ | .retA | .retConstant _ | .storeScratch .. | .tax => false

/-- Where control can go from an instruction, with jumps past the end bounded. -/
def flowTargets (P : List Instruction) (i : Nat) : List Nat :=
  match P[i]? with
  | some (.jumpIf _ _ skipTrue skipFalse) | some (.jumpIfX _ skipTrue skipFalse) =>
    [jumpTarget P.length i skipTrue, jumpTarget P.length i skipFalse]
  | some (.jump skip) => [jumpTarget P.length i skip]
  | some .retA | some (.retConstant _) | none => []
  | some _ => [i + 1]

/-- Reachable from an ethertype load without overwriting register A. -/
inductive FromEthertype (P : List Instruction) : Nat → Prop
  | load {i : Nat} {ins : Instruction} (hi : P[i]? = some ins)
      (hload : isEthertypeLoad ins = true) (hlt : i + 1 < P.length) : FromEthertype P (i + 1)
  | step {i j : Nat} {ins : Instruction} (hfrom : FromEthertype P i) (hi : P[i]? = some ins)
      (hkeep : overwritesA ins = false) (hj : j ∈ flowTargets P i) (hlt : j < P.length) :
      FromEthertype P j

/-- Whether A holds the ethertype after an instruction, given whether it did before. -/
def holdsAfter (ins : Instruction) (holds : Bool) : Bool :=
  isEthertypeLoad ins || (!overwritesA ins && holds)

/-- Control can reach an instruction from the entry, on a path after which A holds the
ethertype or not. -/
inductive Flow (P : List Instruction) : Nat → Bool → Prop
  | entry : Flow P 0 false
  | step {i j : Nat} {holds : Bool} {ins : Instruction} (hflow : Flow P i holds)
      (hi : P[i]? = some ins) (hj : j ∈ flowTargets P i) : Flow P j (holdsAfter ins holds)

variable {P : List Instruction} {i j oldIndex oldLength : Nat} {ins : Instruction}
  {newIndexes : List Nat}

theorem flowTargets_ethertypeLoad (hi : P[i]? = some ins) (hload : isEthertypeLoad ins = true) :
    flowTargets P i = [i + 1] := by
  cases ins with
  | loadAbsolute => simp [flowTargets, hi]
  | _ => cases hload

/-- Where A holds the ethertype, an ethertype load is behind it. -/
theorem fromEthertype_of_flow (h : Flow P j true) (hlt : j < P.length) : FromEthertype P j := by
  generalize hb : true = b at h
  induction h with
  | entry => cases hb
  | @step i j holds ins hflow hi hj ih =>
    cases hload : isEthertypeLoad ins with
    | true =>
      rw [flowTargets_ethertypeLoad hi hload, mem_singleton] at hj
      subst hj
      exact .load hi hload hlt
    | false =>
      simp only [holdsAfter, hload, Bool.false_or] at hb
      obtain ⟨hkeep, rfl⟩ := (Bool.and_eq_true _ _).mp hb.symm
      obtain ⟨hilt, -⟩ := List.getElem?_eq_some_iff.1 hi
      exact .step (ih hilt rfl) hi (by simpa using hkeep) hj hlt

/-! ## The search -/

/-- The search follows control until A is overwritten. -/
theorem searchTargets_eq (hi : P[i]? = some ins) :
    searchTargets P i = if overwritesA ins then [] else flowTargets P i := by
  unfold searchTargets flowTargets
  rw [hi]
  cases ins with
  | loadConstant dst | loadScratch dst => cases dst <;> rfl
  | _ => rfl

theorem searchTargets_length (P : List Instruction) (i : Nat) : (searchTargets P i).length ≤ 2 := by
  cases hi : P[i]? with
  | none => simp [searchTargets, hi]
  | some ins =>
    rw [searchTargets_eq hi]
    cases ins with
    | loadConstant dst | loadScratch dst => cases dst <;> simp [overwritesA, flowTargets, hi]
    | _ => simp [overwritesA, flowTargets, hi]

theorem mem_searchRoots :
    j ∈ searchRoots P ↔ ∃ i ins, P[i]? = some ins ∧ isEthertypeLoad ins = true ∧ j = i + 1 := by
  simp only [searchRoots, List.mem_map, mem_reverse, mem_filter, mem_range]
  constructor
  · rintro ⟨i, ⟨hi, hload⟩, rfl⟩
    rw [List.getElem?_eq_getElem hi, map_some, getD_some] at hload
    exact ⟨i, _, List.getElem?_eq_getElem hi, hload, rfl⟩
  · rintro ⟨i, ins, hi, hload, rfl⟩
    obtain ⟨hlt, -⟩ := List.getElem?_eq_some_iff.1 hi
    exact ⟨i, ⟨hlt, by simp [hi, hload]⟩, rfl⟩

theorem reach_iff_fromEthertype :
    Worklist.Reach P.length (searchTargets P) (searchRoots P) i ↔ FromEthertype P i := by
  constructor
  · intro h
    induction h with
    | root hroot hlt =>
      obtain ⟨i, ins, hi, hload, rfl⟩ := mem_searchRoots.1 hroot
      exact .load hi hload hlt
    | @next i j hreach hj hlt ih =>
      have hi := List.getElem?_eq_getElem hreach.lt
      rw [searchTargets_eq hi] at hj
      split at hj
      · cases hj
      · rename_i hkeep
        exact .step ih hi (Bool.not_eq_true _ ▸ hkeep) hj hlt
  · intro h
    induction h with
    | load hi hload hlt => exact .root (mem_searchRoots.2 ⟨_, _, hi, hload, rfl⟩) hlt
    | step _ hi hkeep hj hlt ih =>
      refine .next ih ?_ hlt
      simp [searchTargets_eq hi, hkeep, hj]

/-- **The search finds exactly the conditional jumps that see the ethertype.** -/
theorem mem_findEthertypeComparisons :
    i ∈ findEthertypeComparisons P ↔
      FromEthertype P i ∧ ∃ cond val skipTrue skipFalse,
        P[i]? = some (.jumpIf cond val skipTrue skipFalse) := by
  rw [findEthertypeComparisons, mem_filter,
    Worklist.mem_explore_iff (searchTargets_length P) (Nat.le_refl _), reach_iff_fromEthertype]
  refine and_congr_right fun _ => ?_
  cases hi : P[i]? with
  | none => simp
  | some ins => cases ins <;> simp [isJumpIf]

/-! ## The layout of the retargeted program -/

/-- What an instruction becomes that is not an ethertype load, before jumps are remapped. -/
def retargeted (comparisons : List Nat) (i : Nat) : Instruction → Instruction
  | .loadAbsolute off size => .loadAbsolute (stripEtherOffset off) size
  | .loadIndirect off size => .loadIndirect (stripEtherOffset off) size
  | .loadMemShift off => .loadMemShift (stripEtherOffset off)
  | .jumpIf cond val skipTrue skipFalse =>
    .jumpIf cond (if comparisons.contains i then versionForEthertype val else val)
      skipTrue skipFalse
  | ins => ins

/-- What an ethertype load becomes. -/
def versionProbe : List Instruction :=
  [.loadAbsolute 0 .one, .aluOpConstant .and rawIPVersionMask]

def rewrittenBlock (comparisons : List Nat) (i : Nat) (ins : Instruction) : List Instruction :=
  if isEthertypeLoad ins then versionProbe else [retargeted comparisons i ins]

theorem rewrittenBlock_pos (comparisons : List Nat) (i : Nat) (ins : Instruction) :
    0 < (rewrittenBlock comparisons i ins).length := by
  unfold rewrittenBlock
  split <;> simp [versionProbe]

variable {comparisons : List Nat}

theorem rewriteInstruction_ok {block : List Bpf.Instruction}
    (h : rewriteInstruction P comparisons i ins = .ok block) :
    block = rewrittenBlock comparisons i ins := by
  cases ins with simp only [rewriteInstruction] at h
  | loadAbsolute off size =>
    split at h
    · rename_i hload
      have hblock : rewrittenBlock comparisons i (.loadAbsolute off size) = versionProbe := by
        rw [rewrittenBlock, isEthertypeLoad, hload, if_pos rfl]
      rw [hblock]
      split at h
      · cases h
      · split at h
        · cases h
        · exact (Except.ok.inj h).symm
      · cases h
    · rename_i hload
      rw [rewrittenBlock, isEthertypeLoad, if_neg hload]
      exact (Except.ok.inj h).symm
  | jumpIf cond val skipTrue skipFalse =>
    split at h
    · rename_i hmem
      simp only [rewrittenBlock, isEthertypeLoad, retargeted, hmem, if_true]
      exact (Except.ok.inj h).symm
    · rename_i hmem
      simp only [rewrittenBlock, isEthertypeLoad, retargeted, hmem]
      exact (Except.ok.inj h).symm
  | _ => exact (Except.ok.inj h).symm

/-- The blocks of the first loop, by old index. -/
def blocksFrom (comparisons : List Nat) (i : Nat) (insns : List Instruction) :
    List (List Instruction) :=
  insns.mapIdx fun k ins => rewrittenBlock comparisons (i + k) ins

theorem blocksFrom_cons (comparisons : List Nat) (i : Nat) (ins : Instruction)
    (rest : List Instruction) :
    blocksFrom comparisons i (ins :: rest) =
      rewrittenBlock comparisons i ins :: blocksFrom comparisons (i + 1) rest := by
  simp only [blocksFrom, mapIdx_cons, Nat.add_zero, List.cons.injEq, true_and]
  refine congrArg (fun f => List.mapIdx f rest) (funext fun k => funext fun x => ?_)
  rw [Nat.add_right_comm, Nat.add_assoc]

theorem rewriteLoop_ok :
    ∀ (rest : List Instruction) (i : Nat) (out : List Instruction) (newIndexes : List Nat)
      (res : List Instruction × List Nat),
      rewriteLoop P comparisons rest i out newIndexes = .ok res →
      res.1 = out ++ (blocksFrom comparisons i rest).flatten ∧
      res.2 = newIndexes ++ (List.range rest.length).map fun k =>
        out.length + ((blocksFrom comparisons i rest).take k).flatten.length := by
  intro rest
  induction rest with intro i out newIndexes res h
  | nil =>
    cases Except.ok.inj h
    simp [blocksFrom]
  | cons ins rest ih =>
    simp only [rewriteLoop] at h
    split at h
    · cases h
    rename_i block hblock
    obtain ⟨hout, hidx⟩ := ih _ _ _ _ h
    rw [rewriteInstruction_ok hblock] at hout hidx
    rw [blocksFrom_cons]
    refine ⟨by rw [hout, flatten_cons, append_assoc], ?_⟩
    rw [hidx, List.length_cons, List.range_succ_eq_map, List.map_cons, List.map_map,
      append_assoc, singleton_append]
    refine congrArg (newIndexes ++ ·) (congrArg₂ List.cons (by simp) ?_)
    refine map_congr_left fun k _ => ?_
    simp only [Function.comp, Nat.succ_eq_add_one, take_succ_cons, flatten_cons,
      length_append, Nat.add_assoc]

/-! ## Remapped jumps -/

theorem remapL3JumpSkip_ok {oldSkip newSkip : Nat}
    (h : remapL3JumpSkip oldIndex oldSkip oldLength newIndexes = .ok newSkip) :
    newSkip = newIndexes.getD (jumpTarget oldLength oldIndex oldSkip) 0 -
      newIndexes.getD oldIndex 0 - 1 := by
  simp only [remapL3JumpSkip] at h
  split at h
  · cases h
  · exact (Except.ok.inj h).symm

theorem remapConditional_ok {skipTrue skipFalse : Nat} {skips : Prod Nat Nat}
    (h : remapConditional oldIndex skipTrue skipFalse oldLength newIndexes = .ok skips) :
    skips.1 = newIndexes.getD (jumpTarget oldLength oldIndex skipTrue) 0 -
        newIndexes.getD oldIndex 0 - 1 ∧
      skips.2 = newIndexes.getD (jumpTarget oldLength oldIndex skipFalse) 0 -
        newIndexes.getD oldIndex 0 - 1 := by
  unfold remapConditional at h
  cases htrue : remapL3JumpSkip oldIndex skipTrue oldLength newIndexes with
  | error err =>
    rw [htrue] at h
    cases h
  | ok trueSkip =>
    cases hf : remapL3JumpSkip oldIndex skipFalse oldLength newIndexes with
    | error err =>
      rw [htrue, hf] at h
      cases h
    | ok falseSkip =>
      simp only [htrue, hf, bind, Except.bind] at h
      split at h
      · cases h
      · cases Except.ok.inj h
        exact ⟨remapL3JumpSkip_ok htrue, remapL3JumpSkip_ok hf⟩

/-- Remapping changes nothing but the skips. -/
theorem remapInstruction_ok {ins' : Bpf.Instruction}
    (h : remapInstruction oldIndex oldLength newIndexes ins = .ok ins') :
    ins' = ins.mapSkips fun skip =>
      newIndexes.getD (jumpTarget oldLength oldIndex skip) 0 -
        newIndexes.getD oldIndex 0 - 1 := by
  cases ins with simp only [remapInstruction, bind, Except.bind] at h
  | jump skip =>
    split at h
    · cases h
    rename_i newSkip hskip
    cases Except.ok.inj h
    rw [Instruction.mapSkips, remapL3JumpSkip_ok hskip]
  | jumpIf cond val skipTrue skipFalse | jumpIfX cond skipTrue skipFalse =>
    split at h
    · cases h
    rename_i skips hskips
    obtain ⟨htrue, hf⟩ := remapConditional_ok hskips
    cases Except.ok.inj h
    rw [Instruction.mapSkips, htrue, hf]
  | _ => exact (Except.ok.inj h).symm

/-- The second loop remaps the instruction at each new place once and touches nothing else. -/
theorem remapLoop_ok {n : Nat} :
    ∀ (olds : List Nat) (out out' : List Instruction),
      remapLoop n newIndexes olds out = .ok out' →
      (olds.map fun i => newIndexes.getD i 0).Nodup →
      out'.length = out.length ∧
      (∀ p, p ∉ olds.map (fun i => newIndexes.getD i 0) → out'[p]? = out[p]?) ∧
      (∀ i ∈ olds, out'[newIndexes.getD i 0]? = out[newIndexes.getD i 0]?.map fun ins =>
        ins.mapSkips fun skip =>
          newIndexes.getD (jumpTarget n i skip) 0 - newIndexes.getD i 0 - 1) := by
  intro olds
  induction olds with
  | nil =>
    intro out out' h _
    cases Except.ok.inj h
    exact ⟨rfl, fun _ _ => rfl, fun i hi => absurd hi not_mem_nil⟩
  | cons old rest ih =>
    intro out out' h hnd
    rw [List.map_cons, nodup_cons] at hnd
    simp only [remapLoop] at h
    split at h
    · rename_i hnone
      obtain ⟨hlen, hother, hpla⟩ := ih out out' h hnd.2
      refine ⟨hlen, fun p hp => hother p fun hm => hp (mem_cons_of_mem _ hm), ?_⟩
      intro i hi
      rcases mem_cons.1 hi with rfl | hi
      · rw [hother _ hnd.1, hnone]
        rfl
      · exact hpla i hi
    · rename_i ins hins
      split at h
      · cases h
      rename_i ins' hremap
      obtain ⟨hlen, hother, hpla⟩ := ih _ out' h hnd.2
      rw [length_set] at hlen
      refine ⟨hlen, fun p hp => ?_, fun i hi => ?_⟩
      · rw [hother p fun hm => hp (mem_cons_of_mem _ hm), List.getElem?_set_ne]
        rintro rfl
        exact hp mem_cons_self
      · rcases mem_cons.1 hi with rfl | hi
        · obtain ⟨hlt, -⟩ := List.getElem?_eq_some_iff.1 hins
          rw [hother _ hnd.1, List.getElem?_set_self hlt, hins, map_some,
            remapInstruction_ok hremap]
        · rw [hpla i hi, List.getElem?_set_ne]
          intro heq
          exact hnd.1 (heq ▸ mem_map_of_mem hi)

/-! ## The retargeted program -/

/-- The new place of instruction `i`: the length of what is emitted before it. -/
def place (P : List Instruction) (i : Nat) : Nat :=
  ((blocksFrom (findEthertypeComparisons P) 0 P).take i).flatten.length

/-- What instruction `i` of `P` becomes, before jumps are remapped. -/
def blockAt (P : List Instruction) (i : Nat) (ins : Instruction) : List Instruction :=
  rewrittenBlock (findEthertypeComparisons P) i ins

theorem getElem?_blocks (hi : P[i]? = some ins) :
    (blocksFrom (findEthertypeComparisons P) 0 P)[i]? = some (blockAt P i ins) := by
  rw [blocksFrom, List.getElem?_mapIdx, hi, map_some, Nat.zero_add, blockAt]

theorem place_succ (hi : P[i]? = some ins) :
    place P (i + 1) = place P i + (blockAt P i ins).length :=
  Blocks.length_take_succ (getElem?_blocks hi)

theorem place_lt (hij : i < j) (hj : j ≤ P.length) : place P i < place P j := by
  have hnext : ∀ k, k < P.length → place P k < place P (k + 1) := by
    intro k hk
    rw [place_succ (List.getElem?_eq_getElem hk)]
    exact Nat.lt_add_of_pos_right (rewrittenBlock_pos _ _ _)
  induction j, hij using Nat.le_induction with
  | base => exact hnext i (by omega)
  | succ j _ ih => exact (ih (by omega)).trans (hnext j (by omega))

/-- The second half of a probe is the place of no instruction. -/
theorem place_ne_succ (hi : P[i]? = some ins) (hload : isEthertypeLoad ins = true)
    (hj : j < P.length) : place P j ≠ place P i + 1 := by
  obtain ⟨hilt, -⟩ := List.getElem?_eq_some_iff.1 hi
  have hstep := place_succ hi
  rw [blockAt, rewrittenBlock, if_pos hload] at hstep
  have hleng : versionProbe.length = 2 := rfl
  rcases Nat.lt_trichotomy j i with hlt | rfl | hgt
  · have := place_lt hlt (Nat.le_of_lt hilt)
    omega
  · omega
  · rcases Nat.lt_or_ge (i + 1) j with hlt | hge
    · have := place_lt hlt (Nat.le_of_lt hj)
      omega
    · obtain rfl : j = i + 1 := by omega
      omega

/-- The program a successful retargeting returns. -/
structure Retargeted (P Q : List Instruction) : Prop where
  length : Q.length = place P P.length
  probe : ∀ i ins, P[i]? = some ins → isEthertypeLoad ins = true →
    Q[place P i]? = some (.loadAbsolute 0 .one) ∧
    Q[place P i + 1]? = some (.aluOpConstant .and rawIPVersionMask)
  other : ∀ i ins, P[i]? = some ins → isEthertypeLoad ins = false →
    Q[place P i]? = some ((retargeted (findEthertypeComparisons P) i ins).mapSkips fun skip =>
      place P (jumpTarget P.length i skip) - place P i - 1)

theorem retargeted_of_ok {Q : List Bpf.Instruction} (h : retargetToL3 P = .ok Q) :
    Retargeted P Q := by
  simp only [retargetToL3] at h
  split at h
  · cases h
  rename_i out newIndexes hloop
  obtain ⟨hout, hidxs⟩ := rewriteLoop_ok _ _ _ _ _ hloop
  simp only [nil_append, length_nil, Nat.zero_add] at hout hidxs
  have hplace : ∀ i, i < P.length → newIndexes.getD i 0 = place P i := by
    intro i hi
    rw [hidxs, getD_eq_getElem?_getD, List.getElem?_map, List.getElem?_range hi]
    rfl
  have hnd : ((List.range P.length).map fun i => newIndexes.getD i 0).Nodup := by
    rw [map_congr_left fun i hi => hplace i (mem_range.1 hi), List.Nodup,
      pairwise_map]
    refine pairwise_lt_range.imp_of_mem fun {i j} _ hj hij => ?_
    exact Nat.ne_of_lt (place_lt hij (Nat.le_of_lt (mem_range.1 hj)))
  obtain ⟨hlen, hother, hpla⟩ := remapLoop_ok _ _ _ h hnd
  -- the first instruction of a block keeps its place and has its jumps remapped
  have hfirst : ∀ i ins, P[i]? = some ins →
      Q[place P i]? = ((blockAt P i ins)[0]?).map fun ins => ins.mapSkips fun skip =>
        place P (jumpTarget P.length i skip) - place P i - 1 := by
    intro i ins hi
    obtain ⟨hilt, -⟩ := List.getElem?_eq_some_iff.1 hi
    have hget := Blocks.getElem?_flatten (getElem?_blocks hi) (rewrittenBlock_pos _ _ _)
    rw [← hout] at hget
    have hremap := hpla i (mem_range.2 hilt)
    simp only [hplace i hilt, hplace _ (jumpTarget_lt hilt _)] at hremap
    rw [hremap]
    exact congrArg _ hget
  refine ⟨?_, fun i ins hi hload => ?_, fun i ins hi hload => ?_⟩
  · rw [hlen, hout, place, take_of_length_le (by rw [blocksFrom, length_mapIdx])]
  · have hblock : blockAt P i ins = versionProbe := by
      rw [blockAt, rewrittenBlock, if_pos hload]
    refine ⟨?_, ?_⟩
    · rw [hfirst i ins hi, hblock]
      rfl
    · have hget := getElem?_blocks hi
      rw [hblock] at hget
      have hsec := Blocks.getElem?_flatten hget (show 1 < versionProbe.length by decide)
      rw [← hout] at hsec
      refine (hother _ fun hmem => ?_).trans hsec
      obtain ⟨j, hj, heq⟩ := mem_map.1 hmem
      rw [hplace j (mem_range.1 hj)] at heq
      exact place_ne_succ hi hload (mem_range.1 hj) heq
  · rw [hfirst i ins hi, blockAt, rewrittenBlock, hload]
    rfl

end Huatuo.PcapFilter
