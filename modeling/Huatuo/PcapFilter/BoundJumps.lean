import Huatuo.PcapFilter.RetargetLayout

/-!
# Jumps past the end

A compiled filter may jump past its last instruction, which the kernel would refuse; such a jump
means a rejection. `boundJumps` makes every target an instruction of the program without changing
what the program returns: it appends a drop unless there is one, and sends what is out of range
there.

On the way to raw IP packets `retargetToL3` comes first, and it sends what is out of range to
the last instruction, whatever that is. A jump past the end is still a rejection exactly where
the last instruction rejects with the registers of the jump.
-/

namespace Huatuo.PcapFilter

open Bpf

variable {P Q : List Instruction} {packet : List (BitVec 8)}

/-! ## Bounded programs -/

/-- Every jump lands on an instruction of the program. -/
def JumpsInBounds (prog : List Instruction) : Prop :=
  ∀ i ins, prog[i]? = some ins → ∀ skip ∈ ins.skips, i + 1 + skip < prog.length

/-- The program `boundJumps` bounds: with a drop at the end. -/
def withDrop (insns : List Instruction) : List Instruction :=
  if endsInDrop insns then insns else insns ++ [.retConstant 0]

theorem endsInDrop_withDrop (insns : List Instruction) : endsInDrop (withDrop insns) = true := by
  unfold withDrop
  split
  · assumption
  · simp [endsInDrop]

theorem boundJumps_withDrop (hP : P ≠ []) : boundJumps P = boundJumps (withDrop P) := by
  have hemp : P.isEmpty = false := List.isEmpty_eq_false_iff.2 hP
  have hemp' : (withDrop P).isEmpty = false := by
    unfold withDrop
    split <;> simp [hP]
  simp only [boundJumps, hemp, hemp', endsInDrop_withDrop, Bool.false_eq_true, if_false,
    if_true]
  rfl

theorem runAt_withDrop (i : Nat) (regs : Regs) :
    runAt (withDrop P) packet i regs = runAt P packet i regs := by
  unfold withDrop
  split
  · rfl
  · exact runAt_concat_drop i regs

theorem length_boundJumps (hdrop : endsInDrop P = true) : (boundJumps P).length = P.length := by
  have hemp : P.isEmpty = false := by
    cases P with
    | nil => cases hdrop
    | cons ins rest => rfl
  simp [boundJumps, hemp, hdrop]

theorem jumpsInBounds_of_endsInDrop (hdrop : endsInDrop P = true) :
    JumpsInBounds (boundJumps P) := by
  intro i bounded hi skip hskip
  rw [getElem?_boundJumps hdrop] at hi
  obtain ⟨ins, hins, rfl⟩ := Option.map_eq_some_iff.1 hi
  rw [skips_mapSkips] at hskip
  obtain ⟨old, hold, rfl⟩ := List.mem_map.1 hskip
  -- an instruction that jumps is not the drop, so it is not the last one
  have hlt : i + 1 < P.length := by
    refine succ_lt_of_ne hdrop hins ?_
    rintro rfl
    cases hold
  rw [length_boundJumps hdrop]
  have hmin : min old (P.length - 1 - i - 1) ≤ P.length - 1 - i - 1 := Nat.min_le_right _ _
  omega

theorem jumpsInBounds_boundJumps (P : List Instruction) : JumpsInBounds (boundJumps P) := by
  rcases eq_or_ne P [] with rfl | hP
  · intro i ins hi
    cases hi
  · rw [boundJumps_withDrop hP]
    exact jumpsInBounds_of_endsInDrop (endsInDrop_withDrop P)

/-! ## The same result -/

/-- Behind a drop at the end: a jump past it goes to the drop instead. -/
theorem runAt_boundJumps_endsInDrop (hdrop : endsInDrop P = true) (i : Nat) (regs : Regs) :
    runAt (boundJumps P) packet i regs = runAt P packet i regs := by
  induction hleft : P.length - i using Nat.strongRecOn generalizing i regs with
  | _ left ih =>
    rcases Nat.lt_or_ge i P.length with hlt | hge
    · have hget : P[i]? = some P[i] := List.getElem?_eq_getElem hlt
      rw [runAt_boundJumps hdrop hget, runAt_eq hget]
      cases hexec : exec packet regs P[i] with
      | ret value => rfl
      | next skip regs' =>
        have hnext : i + 1 < P.length := by
          refine succ_lt_of_ne hdrop hget ?_
          intro heq
          rw [heq] at hexec
          cases hexec
        dsimp only
        rw [ih (P.length - jumpTarget P.length i skip) (by unfold jumpTarget; split <;> omega)
          _ _ rfl]
        unfold jumpTarget
        split
        · rename_i hpast
          rw [runAt_of_le hpast, runAt_eq (endsInDrop_last hdrop)]
          rfl
        · rfl
    · rw [runAt_of_le hge, runAt_of_le (by rwa [length_boundJumps hdrop])]

theorem runAt_boundJumps_eq (P : List Instruction) (i : Nat) (regs : Regs) :
    runAt (boundJumps P) packet i regs = runAt P packet i regs := by
  rcases eq_or_ne P [] with rfl | hP
  · rfl
  · rw [boundJumps_withDrop hP, runAt_boundJumps_endsInDrop (endsInDrop_withDrop P),
      runAt_withDrop]

/-! ## After retargeting -/

/-- The last instruction does not accept with these registers. -/
def RejectsAtEnd (P : List Instruction) (regs : Regs) : Prop :=
  ∀ ins, P.getLast? = some ins → ins.accepts regs = false

theorem accepts_retargeted (comparisons : List Nat) (i : Nat) (regs : Regs) (ins : Instruction) :
    (retargeted comparisons i ins).accepts regs = ins.accepts regs := by
  cases ins <;> rfl

/-- The place of the last instruction. -/
theorem Retargeted.runAt_last_place (hQ : Retargeted P Q) (hP : 0 < P.length) (regs : Regs) :
    runAt Q packet (place P (P.length - 1)) regs = 0 ↔ RejectsAtEnd P regs := by
  obtain ⟨ins, hins⟩ : ∃ ins, P[P.length - 1]? = some ins :=
    ⟨_, List.getElem?_eq_getElem (by omega)⟩
  have hends : RejectsAtEnd P regs ↔ ins.accepts regs = false := by
    simp [RejectsAtEnd, List.getLast?_eq_getElem?, hins]
  have hlen : Q.length = place P (P.length - 1) + (blockAt P (P.length - 1) ins).length := by
    rw [hQ.length, ← place_succ hins, Nat.sub_add_cancel hP]
  rw [hends]
  cases hload : isEthertypeLoad ins with
  | true =>
    obtain ⟨hprobe, hmask⟩ := hQ.probe _ _ hins hload
    rw [blockAt, rewrittenBlock, if_pos hload] at hlen
    have hins : ins.accepts regs = false := by
      cases ins with
      | loadAbsolute => rfl
      | _ => cases hload
    refine iff_of_true ?_ hins
    rw [runAt_eq hprobe]
    cases hexec : exec packet regs (.loadAbsolute 0 .one) with
    | ret value => exact (exec_ret_eq_zero hexec).2 rfl
    | next skip regs' =>
      -- the load falls through to the mask, the last instruction of the result
      rcases Nat.eq_zero_or_pos skip with rfl | hskip
      · exact (runAt_last hmask hlen regs').2 rfl
      · exact runAt_of_le (by rw [hlen]; exact Nat.add_le_add_left hskip _) regs'
  | false =>
    rw [blockAt, rewrittenBlock, if_neg (by simp [hload])] at hlen
    rw [runAt_last (hQ.other _ _ hins hload) hlen, accepts_mapSkips, accepts_retargeted]

/-- A jump that goes past the end of `P` goes, at its new place, to the last instruction. -/
theorem Retargeted.runAt_past_end {i skip : Nat} {ins : Instruction} {regs regs' : Regs}
    (hQ : Retargeted P Q) (hins : P[i]? = some ins) (hjump : ins.isJump = true)
    (hexec : exec packet regs (retargeted (findEthertypeComparisons P) i ins) = .next skip regs')
    (hpast : P.length ≤ i + 1 + skip) :
    runAt Q packet (place P i) regs = 0 ↔ RejectsAtEnd P regs' := by
  obtain ⟨hlt, -⟩ := List.getElem?_eq_some_iff.1 hins
  have hload : isEthertypeLoad ins = false := by
    cases ins with
    | loadAbsolute => cases hjump
    | _ => rfl
  have hjump' : (retargeted (findEthertypeComparisons P) i ins).isJump = true := by
    cases ins <;> first | rfl | cases hjump
  have hplace := place_succ hins
  rw [blockAt, rewrittenBlock, if_neg (by simp [hload])] at hplace
  rw [runAt_eq (hQ.other i ins hins hload), exec_mapSkips _ _ (.inl hjump'), hexec]
  simp only [Outcome.mapSkip, jumpTarget, if_pos hpast]
  rcases Nat.lt_or_ge i (P.length - 1) with hbef | hend
  · have hfor := place_lt (P := P) hbef (Nat.sub_le _ _)
    rw [show place P i + 1 + (place P (P.length - 1) - place P i - 1) = place P (P.length - 1) by
      omega]
    exact hQ.runAt_last_place (by omega) regs'
  · -- the jump is itself the last instruction
    refine iff_of_true (runAt_of_le ?_ regs') fun last hlast => ?_
    · rw [hQ.length, show P.length = i + 1 by omega, hplace]
      exact Nat.le_add_right _ _
    · rw [List.getLast?_eq_getElem?, show P.length - 1 = i by omega, hins] at hlast
      cases hlast
      cases ins <;> first | rfl | cases hjump

/-- Bounding keeps every jump inside the program and every result, with a run that leaves the
program rejecting. A jump past the end of what is retargeted still rejects afterwards exactly
if the last instruction rejects with the registers of the jump. -/
theorem boundJumps_rejects_past_end (P : List Instruction) :
    JumpsInBounds (boundJumps P) ∧
    (∀ packet, run (boundJumps P) packet = run P packet) ∧
    ∀ Q, retargetToL3 P = .ok Q →
      ∀ packet i ins skip regs regs', P[i]? = some ins → ins.isJump = true →
        exec packet regs (retargeted (findEthertypeComparisons P) i ins) = .next skip regs' →
        P.length ≤ i + 1 + skip →
        (runAt (boundJumps Q) packet (place P i) regs = 0 ↔ RejectsAtEnd P regs') := by
  refine ⟨jumpsInBounds_boundJumps P, fun packet => runAt_boundJumps_eq P 0 {}, ?_⟩
  intro Q hQ packet i ins skip regs regs' hins hjump hexec hpast
  rw [runAt_boundJumps_eq]
  exact (retargeted_of_ok hQ).runAt_past_end hins hjump hexec hpast

/-- "ip" with its rejecting branch past the end, and an instruction that falls off the end. -/
def unterminated : List Instruction :=
  [.loadAbsolute 12 .two, .jumpIf .equal etherTypeIPv4 0 9, .retConstant 1, .txa]

theorem boundJumps_rejects_past_end_unterminated :
    endsInDrop unterminated = false ∧
    ∃ Q, retargetToL3 unterminated = .ok Q ∧
      runAt (boundJumps Q) [0x60] (place unterminated 1) { a := rawIPv6Version } = 0 := by
  refine ⟨rfl, _, rfl, ?_⟩
  refine ((boundJumps_rejects_past_end unterminated).2.2 _ rfl _ 1 _ 9 _
    { a := rawIPv6Version } rfl rfl rfl (by decide)).2 ?_
  rintro ins ⟨⟩
  rfl

/-- The last instruction accepts: the frame's filter rejects by jumping past the end, and the
retargeted one accepts. -/
theorem retargeted_past_end_accepts :
    endsInDrop [.jump 5, .retConstant 1] = false ∧
    run (boundJumps [.jump 5, .retConstant 1]) [] = 0 ∧
    retargetToL3 [.jump 5, .retConstant 1] = .ok [.jump 0, .retConstant 1] ∧
    run (boundJumps [.jump 0, .retConstant 1]) [] = 1 := by
  refine ⟨rfl, rfl, rfl, rfl⟩

end Huatuo.PcapFilter
