import Huatuo.PcapFilter.PatchLoads

/-!
# The patched filter returns what the filter returns

Forward simulation. Instruction `i` of the original has a block at `patchedAt i` of the patched
list, the instruction itself or the replacement of a load. `AgreeAt` relates the states there: all
registers agree, R0 only where it is live, the scratch words agree, and the slots of R4 and R5
hold them.

Two conditions are needed. A load through the temporary would find it overwritten by the size
of the read. And R0, which is A, is lost in a load into X, so it must not be live behind one.
-/

namespace Huatuo.PcapFilter

open Ebpf List Option

variable {env : Env} {insns : List Instr} {resultLabel : String}

/-! ## Layout -/

/-- What an instruction becomes. -/
def patchedBlock (ins : Instr) : List Instr := (patch ins).getD [ins]

/-- Where the block of instruction `i` starts. -/
def patchedAt (insns : List Instr) (i : Nat) : Nat :=
  prologue.length + ((insns.map patchedBlock).take i).flatten.length

theorem patchPacketLoads_eq (insns : List Instr) (resultLabel : String) :
    patchPacketLoads insns resultLabel =
      prologue ++ ((insns.map patchedBlock).flatten ++ epilogue resultLabel) := by
  rw [patchPacketLoads, Blocks.splice_eq_flatMap, flatMap_def, append_assoc]
  rfl

variable {i : Nat} {ins : Instr} {r : Reg} {s t : State} {off : Int}

theorem patchedAt_succ (hi : insns[i]? = some ins) :
    patchedAt insns (i + 1) = patchedAt insns i + (patchedBlock ins).length := by
  have hblock : (insns.map patchedBlock)[i]? = some (patchedBlock ins) := by
    rw [List.getElem?_map, hi, map_some]
  rw [patchedAt, Blocks.length_take_succ hblock, ← Nat.add_assoc]
  rfl

theorem patchedAt_of_le (hi : insns.length ≤ i) :
    patchedAt insns i = prologue.length + (insns.map patchedBlock).flatten.length := by
  rw [patchedAt, take_of_length_le (by simpa using hi)]

theorem getElem?_patchedBlock {k : Nat} {x : Ebpf.Instr} (hi : insns[i]? = some ins)
    (hk : (patchedBlock ins)[k]? = some x) :
    (patchPacketLoads insns resultLabel)[patchedAt insns i + k]? = some x := by
  have hblock : (insns.map patchedBlock)[i]? = some (patchedBlock ins) := by
    rw [List.getElem?_map, hi, map_some]
  obtain ⟨hlt, -⟩ := List.getElem?_eq_some_iff.1 hk
  have hget := Blocks.getElem?_flatten hblock hlt
  rw [hk] at hget
  obtain ⟨hin, -⟩ := List.getElem?_eq_some_iff.1 hget
  rw [patchPacketLoads_eq, patchedAt, Nat.add_assoc,
    List.getElem?_append_right (Nat.le_add_right _ _), Nat.add_sub_cancel_left,
    List.getElem?_append_left hin, hget]

theorem replacement_tail_sym (sym : Option String) (dst src : Reg) (off : Int) (size : Size) :
    ∀ x ∈ (replacement sym dst src off size).tail, x.sym = none := by
  have hall : (replacement sym dst src off size).tail.all (fun x => x.sym.isNone) = true := by
    cases dst <;> rfl
  intro x hx
  exact isNone_iff_eq_none.1 (all_eq_true.1 hall x hx)

/-- The label of an instruction is on the first one of its block. -/
theorem patchedBlock_label (label : String) (ins : Instr) :
    ∃ head rest, patchedBlock ins = head :: rest ∧
      (head.sym == some label) = (ins.sym == some label) ∧
      ∀ x ∈ rest, (x.sym == some label) = false := by
  obtain ⟨op, sym⟩ := ins
  have hkept : ∃ head rest, [(⟨op, sym⟩ : Instr)] = head :: rest ∧
      (head.sym == some label) = (sym == some label) ∧
      ∀ x ∈ rest, (x.sym == some label) = false :=
    ⟨_, _, rfl, rfl, fun x hx => absurd hx not_mem_nil⟩
  cases op with
  | loadMem dst src off size =>
    by_cases hsrc : src = .rfp
    · simp only [patchedBlock, patch, hsrc, if_true, getD_none]
      exact hsrc ▸ hkept
    · simp only [patchedBlock, patch, hsrc, if_false, getD_some]
      refine ⟨_, (replacement sym dst src off size).tail, rfl, rfl, fun x hx => ?_⟩
      rw [replacement_tail_sym sym dst src off size x hx]
      rfl
  | _ => exact hkept

theorem target_patched {label : String}
    (hlabel : label = resultLabel ∨ ∃ ins ∈ insns, ins.sym = some label) :
    target (patchPacketLoads insns resultLabel) label = patchedAt insns (target insns label) := by
  have hblo := Blocks.findIdx_flatten (p := fun ins : Instr => ins.sym == some label)
    (q := fun ins : Instr => ins.sym == some label) (f := patchedBlock) insns
    fun ins _ => patchedBlock_label label ins
  have hpro : ∀ ins ∈ prologue, (ins.sym == some label) = false := by
    simp [prologue]
  -- the epilogue has the result label and no other
  have hepi : ((insns.map patchedBlock).flatten ++ epilogue resultLabel).findIdx
      (fun ins => ins.sym == some label) =
        (insns.map patchedBlock).flatten.findIdx fun ins => ins.sym == some label := by
    rw [findIdx_append]
    split
    · rfl
    rename_i hnot
    have hlen : (insns.map patchedBlock).flatten.findIdx
        (fun ins => ins.sym == some label) = (insns.map patchedBlock).flatten.length :=
      Nat.le_antisymm findIdx_le_length (Nat.not_lt.1 hnot)
    rcases hlabel with rfl | ⟨ins, hmem, hsym⟩
    · rw [hlen]
      simp [epilogue, findIdx_cons]
    · obtain ⟨head, rest, hblock, hhead, -⟩ := patchedBlock_label label ins
      refine absurd (findIdx_lt_length_of_exists ⟨head, ?_, ?_⟩) hnot
      · refine mem_flatten.2 ⟨_, mem_map_of_mem hmem, ?_⟩
        simp [hblock]
      · rw [hhead, hsym]
        exact beq_self_eq_true _
  rw [target, patchPacketLoads_eq, Blocks.findIdx_append_of_forall_false hpro, hepi,
    hblo, patchedAt, target]

/-! ## Agreement -/

/-- The states at an instruction of the original and at its block. -/
structure AgreeAt (insns : List Instr) (i : Nat) (s t : State) : Prop where
  regs : ∀ r, (r = .r0 → Live insns .r0 i) → t.regs r = s.regs r
  scratch : ∀ o, o < saveR5Slot → t.frame o = s.frame o
  slotR4 : t.readFrame saveR4Slot .dword = s.regs .r4
  slotR5 : t.readFrame saveR5Slot .dword = s.regs .r5

theorem AgreeAt.reads (h : AgreeAt insns i s t) (hi : insns[i]? = some ins)
    (hread : ins.op.reads r = true) : t.regs r = s.regs r := by
  refine h.regs r ?_
  rintro rfl
  exact .use hi hread

theorem isScratch_lt (h : isScratch off = true) : off + 4 ≤ saveR5Slot := by
  obtain ⟨n, -, hn⟩ := any_eq_true.1 h
  rw [beq_iff_eq.1 hn]
  simp only [stackOffset, cbpfcStackOffset, saveR5Slot]
  omega

theorem isWorking_of_mem (h : [regA, regX].contains r = true) : isWorking r = true := by
  cases r <;> first | rfl | cases h

variable {dst : Ebpf.Reg} {src : Ebpf.Reg} {size : Ebpf.Size}

theorem isWorking_of_isEmitted_load (h : isEmitted (.loadMem dst src off size) = true) :
    isWorking dst = true := by
  rw [isEmitted] at h
  split at h
  · simp only [Bool.and_eq_true] at h
    exact isWorking_of_mem h.1.1
  · simp only [isEmittedLoad, Bool.and_eq_true] at h
    exact isWorking_of_mem h.1.1.1

variable {j : Nat}

/-- Registers that agree before an instruction that stays do so behind it: its result comes from
registers it reads, which are live. -/
theorem AgreeAt.exec_regs (h : AgreeAt insns i s t) (hi : insns[i]? = some ins)
    (hcall : ins.op ≠ .callProbeReadKernel) (hj : j ∈ successors insns i ins.op)
    (hfr : ∀ dst off size, ins.op = .loadMem dst .rfp off size →
      t.readFrame off size = s.readFrame off size) (r : Reg) (hlive : r = .r0 → Live insns .r0 j) :
    (exec env t ins.op).regs r = (exec env s ins.op).regs r := by
  by_cases hdst : ins.op.dst = some r
  · exact exec_regs_dst hdst (fun _ => h.reads hi) (hfr r)
  rw [exec_regs_of_ne hcall hdst, exec_regs_of_ne hcall hdst]
  refine h.regs r ?_
  rintro rfl
  exact .step hi hdst hj (hlive rfl)

/-- The frame behind an instruction that stays: only a scratch word can have changed. -/
theorem AgreeAt.exec_frame (env : Env) (h : AgreeAt insns i s t) (hi : insns[i]? = some ins)
    (hemi : isEmitted ins.op = true) :
    (∀ o, o < saveR5Slot → (exec env t ins.op).frame o = (exec env s ins.op).frame o) ∧
    ∀ o, saveR5Slot ≤ o → (exec env t ins.op).frame o = t.frame o := by
  obtain ⟨op, sym⟩ := ins
  cases op with
  | storeMem dst off src size =>
    simp only [isEmitted, Bool.and_eq_true, beq_iff_eq] at hemi
    obtain ⟨⟨⟨rfl, hscr⟩, -⟩, rfl⟩ := hemi
    have hbelow := isScratch_lt hscr
    have hsrc : t.regs src = s.regs src := h.reads hi (by simp [Op.reads])
    simp only [exec_storeMem_rfp, hsrc]
    constructor
    · intro o ho
      simp only [State.writeFrame, h.scratch o ho]
    · intro o ho
      exact t.writeFrame_frame_outside (.inr (Int.le_trans hbelow ho))
  | callProbeReadKernel => cases hemi
  | _ => exact ⟨h.scratch, fun _ _ => rfl⟩

/-- No instruction that is emitted writes R4 or R5. -/
theorem exec_packet_regs {op : Ebpf.Op} (hemi : isEmitted op = true) (hr : r = .r4 ∨ r = .r5) :
    (exec env s op).regs r = s.regs r := by
  refine exec_regs_of_ne (by rintro rfl; cases hemi) ?_
  have hne : ∀ dst, isWorking dst = true → some dst ≠ some r := by
    rintro dst hdst ⟨⟩
    rcases hr with rfl | rfl <;> cases hdst
  cases op with
  | alu width op dst src =>
    exact hne dst (Bool.and_eq_true_iff.1 hemi).1
  | hostToBE dst size =>
    exact hne dst (beq_iff_eq.1 hemi ▸ rfl)
  | loadMem dst src off size => exact hne dst (isWorking_of_isEmitted_load hemi)
  | _ => nofun

theorem AgreeAt.exec_kept (h : AgreeAt insns i s t) (hi : insns[i]? = some ins)
    (hemi : isEmitted ins.op = true) (hj : j ∈ successors insns i ins.op) :
    AgreeAt insns j (exec env s ins.op) (exec env t ins.op) := by
  have hcall : ins.op ≠ .callProbeReadKernel := fun heq => by
    rw [heq] at hemi
    cases hemi
  obtain ⟨hlow, hhigh⟩ := h.exec_frame env hi hemi
  have hslot : ∀ slot, saveR5Slot ≤ slot →
      (exec env t ins.op).readFrame slot .dword = t.readFrame slot .dword := fun slot hle =>
    State.readFrame_congr fun o ho _ => hhigh o (Int.le_trans hle ho)
  refine ⟨h.exec_regs hi hcall hj ?_, hlow, ?_, ?_⟩
  · intro dst off size hload
    rw [hload] at hemi
    simp only [isEmitted, if_true, Bool.and_eq_true, beq_iff_eq] at hemi
    obtain ⟨⟨-, hscr⟩, rfl⟩ := hemi
    exact State.readFrame_congr fun o _ ho =>
      h.scratch o (Int.lt_of_lt_of_le ho (isScratch_lt hscr))
  · rw [hslot _ (by decide), h.slotR4, exec_packet_regs hemi (.inl rfl)]
  · rw [hslot _ (by decide), h.slotR5, exec_packet_regs hemi (.inr rfl)]

/-- Behind the replacement of a load that does not go through the temporary, into A or where A is
dead. -/
theorem AgreeAt.exec_replaced {sym : Option String} (h : AgreeAt insns i s t)
    (hi : insns[i]? = some ⟨.loadMem dst src off size, sym⟩)
    (hemi : isEmittedLoad dst src off size = true) (hrfp : src ≠ .rfp) (htmp : src ≠ regTmp)
    (hdead : dst ≠ .r0 → ¬ Live insns .r0 (i + 1)) :
    AgreeAt insns (i + 1) (exec env s (.loadMem dst src off size))
      (execAll env (replacement sym dst src off size) t) := by
  simp only [isEmittedLoad, Bool.and_eq_true, decide_eq_true_eq] at hemi
  obtain ⟨⟨⟨hdst, hsrc⟩, hlow, hhigh⟩, -⟩ := hemi
  have hr1 : src ≠ .r1 := by
    rintro rfl
    cases hsrc
  have hr4 : t.regs .r4 = s.regs .r4 := h.regs .r4 (by simp)
  have hr5 : t.regs .r5 = s.regs .r5 := h.regs .r5 (by simp)
  obtain ⟨hv, hregs, hfr⟩ := execAll_replacement env t sym src size
    (isWorking_of_mem hdst) hlow hhigh (h.slotR4.trans hr4.symm) (h.slotR5.trans hr5.symm)
  rw [copied_eq t size hr1 htmp] at hv
  have hemi' : ∀ r, r = .r4 ∨ r = .r5 →
      (exec env s (.loadMem dst src off size)).regs r = s.regs r := by
    refine fun r hr => exec_regs_of_ne (by simp) ?_
    rintro ⟨⟩
    rcases hr with rfl | rfl <;> cases hdst
  have hslot : ∀ slot : Int, slot + 8 ≤ saveR3Slot →
      (execAll env (replacement sym dst src off size) t).readFrame slot .dword =
        t.readFrame slot .dword := fun slot hle =>
    State.readFrame_congr fun o _ ho => hfr o (Int.lt_of_lt_of_le ho hle)
  refine ⟨fun r hlive => ?_, fun o ho => ?_, ?_, ?_⟩
  · by_cases hr : r = dst
    · rw [hr, hv, h.reads hi (by simp [Op.reads]), exec, State.set_regs, if_pos rfl,
        State.loadValue, if_neg hrfp]
    · have hr0 : r ≠ .r0 := by
        intro heq
        exact hdead (fun hd => hr (heq.trans hd.symm)) (hlive heq)
      rw [hregs r hr, if_neg hr0, h.regs r fun heq => absurd heq hr0, exec, State.set_regs,
        if_neg hr]
  · rw [hfr o (Int.lt_trans ho (by decide)), h.scratch o ho]
    rfl
  · rw [hslot _ (by decide), h.slotR4, hemi' _ (.inl rfl)]
  · rw [hslot _ (by decide), h.slotR5, hemi' _ (.inr rfl)]

/-! ## The simulation -/

/-- The conditions on a filter: no load through the temporary, and A dead behind every load into
another register. -/
structure Preserved (insns : List Instr) : Prop where
  source : ∀ (i : Nat) dst src off size sym,
    insns[i]? = some ⟨.loadMem dst src off size, sym⟩ → src ≠ regTmp
  dead : ∀ (i : Nat) dst src off size sym, insns[i]? = some ⟨.loadMem dst src off size, sym⟩ →
    src ≠ .rfp → dst ≠ regA → ¬ Live insns regA (i + 1)

/-- The check of one instruction, given a set of instructions where A is dead. -/
def isPreserved (dead : List Nat) (i : Nat) : Op → Bool
  | .loadMem dst src _ _ =>
    src != regTmp && (src == .rfp || dst == regA || dead.contains (i + 1))
  | _ => true

theorem preserved_of_isPreserved (dead : List Nat) (hdead : isDeadSet insns regA dead = true)
    (h : ∀ i : Fin insns.length, isPreserved dead i (insns.get i).op = true) : Preserved insns := by
  have hload : ∀ (i : Nat) dst src off size sym,
      insns[i]? = some ⟨.loadMem dst src off size, sym⟩ →
      isPreserved dead i (.loadMem dst src off size) = true := by
    intro i dst src off size sym hi
    obtain ⟨hlt, hget⟩ := List.getElem?_eq_some_iff.1 hi
    have hcheck := h ⟨i, hlt⟩
    rwa [get_eq_getElem, hget] at hcheck
  constructor
  · intro i dst src off size sym hi
    have hcheck := hload i dst src off size sym hi
    simp only [isPreserved, Bool.and_eq_true, bne_iff_ne] at hcheck
    exact hcheck.1
  · intro i dst src off size sym hi hrfp hdst
    have hcheck := hload i dst src off size sym hi
    simp only [isPreserved, Bool.and_eq_true, Bool.or_eq_true, beq_iff_eq, hrfp, hdst, false_or,
      contains_iff_mem] at hcheck
    exact not_live_of_isDeadSet hdead hcheck.2

theorem next_patched (hshape : Shaped resultLabel insns) (hi : insns[i]? = some ins)
    (hkept : patch ins = none) :
    next (patchPacketLoads insns resultLabel) (patchedAt insns i) s ins.op =
      patchedAt insns (next insns i s ins.op) := by
  have hsucc : patchedAt insns (i + 1) = patchedAt insns i + 1 := by
    rw [patchedAt_succ hi, patchedBlock, hkept]
    rfl
  have htgt : ∀ label ∈ ins.op.labels,
      target (patchPacketLoads insns resultLabel) label = patchedAt insns (target insns label) :=
    fun label hlabel => target_patched (hshape.closed ins (mem_of_getElem? hi) label hlabel)
  obtain ⟨op, sym⟩ := ins
  cases op with
  | ja label => exact htgt label mem_cons_self
  | jump op dst src label =>
    simp only [Ebpf.next]
    split
    · exact htgt label mem_cons_self
    · exact hsucc.symm
  | _ => exact hsucc.symm

/-- One step of the original is one step of the patched list, or those of a replacement. -/
theorem AgreeAt.step (env : Env) (hshape : Shaped resultLabel insns) (hpre : Preserved insns)
    (h : AgreeAt insns i s t) (hlt : i < insns.length) :
    ∃ k t', (Ebpf.step env (patchPacketLoads insns resultLabel))^[k] (patchedAt insns i, t) =
        (patchedAt insns (Ebpf.step env insns (i, s)).1, t') ∧
      AgreeAt insns (Ebpf.step env insns (i, s)).1 (Ebpf.step env insns (i, s)).2 t' := by
  obtain ⟨ins, hi⟩ : ∃ ins, insns[i]? = some ins := ⟨_, List.getElem?_eq_getElem hlt⟩
  have hemi := hshape.emitted ins (mem_of_getElem? hi)
  rw [step_of_getElem? hi]
  cases hpatch : patch ins with
  | none =>
    have hget : (patchPacketLoads insns resultLabel)[patchedAt insns i]? = some ins :=
      getElem?_patchedBlock (k := 0) hi (by rw [patchedBlock, hpatch]; rfl)
    refine ⟨1, exec env t ins.op, ?_,
      h.exec_kept hi hemi (next_mem_successors i s ins.op)⟩
    rw [Function.iterate_one, step_of_getElem? hget, next_patched hshape hi hpatch,
      next_congr i fun r => h.reads hi]
  | some block =>
    obtain ⟨op, sym⟩ := ins
    cases op with
    | loadMem dst src off size =>
      simp only [patch] at hpatch
      split at hpatch
      · cases hpatch
      rename_i hrfp
      obtain rfl : replacement sym dst src off size = block := Option.some.inj hpatch
      have hblock : patchedBlock ⟨.loadMem dst src off size, sym⟩ =
          replacement sym dst src off size := by
        simp only [patchedBlock, patch, if_neg hrfp, getD_some]
      rw [isEmitted, if_neg hrfp] at hemi
      refine ⟨(replacement sym dst src off size).length, _, ?_, h.exec_replaced hi hemi hrfp
        (hpre.source _ _ _ _ _ _ hi) (hpre.dead _ _ _ _ _ _ hi hrfp)⟩
      rw [steps_straight]
      · rw [next_of_not_jump rfl, patchedAt_succ hi, hblock]
      · intro x hx
        have hall : (replacement sym dst src off size).all (fun x => !x.op.isJump) = true := by
          cases dst <;> rfl
        simpa using all_eq_true.1 hall x hx
      · intro k x hk
        exact getElem?_patchedBlock hi (hblock ▸ hk)
    | _ => cases hpatch

/-- The epilogue keeps R0 and ends the patched list. -/
theorem ends_epilogue (hi : insns.length ≤ i) (t : State) :
    ∃ e, Ends env (patchPacketLoads insns resultLabel) (patchedAt insns i, t) e ∧
      e.regs .r0 = t.regs .r0 := by
  refine ⟨execAll env (epilogue resultLabel) t,
    ⟨(epilogue resultLabel).length, _, steps_straight _ ?_ ?_, ?_⟩, rfl⟩
  · simp [epilogue, Op.isJump]
  · intro k x hk
    rw [patchedAt_of_le hi, patchPacketLoads_eq, Nat.add_assoc,
      List.getElem?_append_right (Nat.le_add_right _ _), Nat.add_sub_cancel_left,
      List.getElem?_append_right (Nat.le_add_right _ _), Nat.add_sub_cancel_left, hk]
  · refine Nat.le_of_eq ?_
    rw [patchedAt_of_le hi, patchPacketLoads_eq, length_append, length_append,
      Nat.add_assoc]

/-- By induction on the steps of the original. -/
theorem AgreeAt.ends (env : Env) (hshape : Shaped resultLabel insns) (hpre : Preserved insns)
    (n : Nat) :
    ∀ {i : Nat} {s t : State}, AgreeAt insns i s t → ∀ pc e,
      (Ebpf.step env insns)^[n] (i, s) = (pc, e) → insns.length ≤ pc →
      ∃ e', Ends env (patchPacketLoads insns resultLabel) (patchedAt insns i, t) e' ∧
        e'.regs .r0 = e.regs .r0 := by
  induction n with
  | zero =>
    rintro i s t h pc e ⟨⟩ hend
    obtain ⟨e', he', hr0⟩ := ends_epilogue hend t
    exact ⟨e', he', hr0.trans (h.regs .r0 fun _ => .exit hend)⟩
  | succ n ih =>
    intro i s t h pc e hrun hend
    rw [Function.iterate_succ_apply] at hrun
    rcases Nat.lt_or_ge i insns.length with hlt | hge
    · obtain ⟨k, t', hsteps, h'⟩ := h.step env hshape hpre hlt
      obtain ⟨e', he', hr0⟩ := ih h' pc e hrun hend
      exact ⟨e', .of_steps k (hsteps ▸ he'), hr0⟩
    · rw [step_of_le hge] at hrun
      exact ih h pc e hrun hend

/-- The prologue fills the slots of R4 and R5. -/
theorem agreeAt_prologue (env : Env) (insns : List Instr) (s : State) :
    AgreeAt insns 0 s (execAll env prologue s) := by
  have hstt : execAll env prologue s = (s.writeFrame saveR4Slot 8 (byteOf (s.regs .r4))).writeFrame
      saveR5Slot 8 (byteOf (s.regs .r5)) := by
    simp only [execAll, prologue, foldl_cons, foldl_nil, exec_storeMem_rfp]
    rfl
  rw [hstt]
  refine ⟨fun _ _ => rfl, fun o ho => ?_, ?_, ?_⟩
  · rw [State.writeFrame_frame_outside _ (.inl ho),
      State.writeFrame_frame_outside _ (.inl (Int.lt_trans ho (by decide)))]
  · rw [State.readFrame_writeFrame_disjoint _ (.inl (by decide)), State.readFrame_writeFrame_self]
  · rw [State.readFrame_writeFrame_self]

/-- A filter that loads neither through the temporary nor into X where A is live: it ends, the
patched filter ends, and the verdict in R0 is the same. A single load is simulated exactly if it
is into A and not through the temporary; one into X loses R0 and nothing else. -/
theorem patchPacketLoads_verdict {insns : List Instr} {resultLabel : String}
    (hshape : Shaped resultLabel insns) :
    (Preserved insns → ∀ env s, ∃ e e', Ends env insns (0, s) e ∧
      Ends env (patchPacketLoads insns resultLabel) (0, s) e' ∧ e'.regs .r0 = e.regs .r0) ∧
    ∀ (i : Nat) dst src off size sym, insns[i]? = some ⟨.loadMem dst src off size, sym⟩ →
      src ≠ .rfp →
      (LoadKept sym dst src off size ↔ src ≠ regTmp ∧ dst = regA) ∧
      (src ≠ regTmp → ∀ env s, s.readFrame saveR4Slot .dword = s.regs .r4 →
        s.readFrame saveR5Slot .dword = s.regs .r5 →
        let t := execAll env (replacement sym dst src off size) s
        t.regs dst = env.readKernel (s.regs src + BitVec.ofInt 64 off) size ∧
        (∀ r, r ≠ dst → r ≠ .r0 → t.regs r = s.regs r) ∧
        ∀ o, o < saveR3Slot → t.frame o = s.frame o) := by
  constructor
  · intro hpreserved env s
    obtain ⟨e, n, pc, hrun, hend⟩ := ends_of_forward env hshape.forward (0, s)
    obtain ⟨e', he', hr0⟩ := (agreeAt_prologue env insns s).ends env hshape hpreserved n
      pc e hrun hend
    refine ⟨e, e', ⟨n, pc, hrun, hend⟩, .of_steps prologue.length ?_, hr0⟩
    rw [steps_straight]
    · rw [Nat.zero_add]
      exact he'
    · simp [prologue, Op.isJump]
    · intro k x hk
      obtain ⟨hlt, -⟩ := List.getElem?_eq_some_iff.1 hk
      rw [patchPacketLoads_eq, Nat.zero_add, List.getElem?_append_left hlt, hk]
  · intro i dst src off size sym hi hrfp
    have hemitted := hshape.emitted _ (mem_of_getElem? hi)
    rw [isEmitted, if_neg hrfp] at hemitted
    refine ⟨loadKept_iff hemitted, fun htmp env s hr4 hr5 => ?_⟩
    simp only [isEmittedLoad, Bool.and_eq_true, decide_eq_true_eq] at hemitted
    obtain ⟨⟨⟨hdst, hsrc⟩, hlow, hhigh⟩, -⟩ := hemitted
    have hr1 : src ≠ .r1 := by
      rintro rfl
      cases hsrc
    obtain ⟨hread, hregs, hfr⟩ :=
      execAll_replacement env s sym src size (isWorking_of_mem hdst) hlow hhigh hr4 hr5
    rw [copied_eq s size hr1 htmp] at hread
    exact ⟨hread, fun r hr hr0 => (hregs r hr).trans (if_neg hr0), hfr⟩

/-! ## Filters -/

/-- The translation of a filter of one block. -/
def filterOf (insns : List BlockInsn) : List Instr :=
  toEBPF "pcapfilter_l2_nomatch" "pcapfilter_result_l2" [⟨"pcapfilter_l2_block_0", insns⟩]

theorem shaped_filterOf (insns : List BlockInsn)
    (hclo : ∀ ins ∈ filterOf insns, ∀ label ∈ ins.op.labels,
      label = "pcapfilter_result_l2" ∨ ∃ ins' ∈ filterOf insns, ins'.sym = some label)
    (hfor : Forward (filterOf insns)) : Shaped "pcapfilter_result_l2" (filterOf insns) :=
  shaped_toEBPF hclo hfor

/-- A packet of 60000 bytes: only byte 40000 is not zero. A helper leaves zeros behind. -/
def largePacket : Env where
  kernel := fun addr => if addr = 40100 then 9 else 0
  clobber := fun _ _ => 0

def atEntry : State where
  regs := fun r => if r = .r4 then 100 else if r = .r5 then 60100 else 0
  frame := fun _ => 0

/-- The source port behind the IPv4 header: `ldxb 4*([14]&0xf); ldh [x + 16]; ret a`. -/
def portFilter : List Instr :=
  filterOf [.packetGuardAbsolute 15, .loadMemShift 14, .packetGuardIndirect ⟨16, 18⟩,
    .loadIndirect 0 .two, .retA]

theorem patchPacketLoads_verdict_port :
    ∃ e e', Ends largePacket portFilter (0, atEntry) e ∧
      Ends largePacket (patchPacketLoads portFilter "pcapfilter_result_l2") (0, atEntry) e' ∧
      e'.regs .r0 = e.regs .r0 := by
  have hshape : Shaped "pcapfilter_result_l2" portFilter :=
    shaped_filterOf _ (by decide +kernel) (by decide +kernel)
  -- A is dead from behind the load into X to the load of A
  have hpreserved : Preserved portFilter :=
    preserved_of_isPreserved [4, 5, 6, 7, 8, 9, 10, 11, 12, 13, 14, 15, 19]
      (by decide +kernel) (by decide +kernel)
  exact (patchPacketLoads_verdict hshape).1 hpreserved largePacket atEntry

/-- A is 7 across a load into X. -/
def liveFilter : List Instr :=
  filterOf [.packetGuardAbsolute 1, .loadConstant .a 7, .loadMemShift 0, .retA]

/-- A load at an offset of more than 16 bits. -/
def largeOffsetFilter : List Instr :=
  filterOf [.packetGuardAbsolute 40001, .loadAbsolute 40000 .one, .retA]

/-- The first filter accepts and its patched form rejects, since A is lost in the call. So it is
with the second, whose patched form reads at address 1, the size of the load. -/
theorem patched_filters_reject :
    (Shaped "pcapfilter_result_l2" liveFilter ∧
      ∃ e e', Ends largePacket liveFilter (0, atEntry) e ∧
        Ends largePacket (patchPacketLoads liveFilter "pcapfilter_result_l2") (0, atEntry) e' ∧
        e.regs .r0 = 7 ∧ e'.regs .r0 = 0) ∧
    (Shaped "pcapfilter_result_l2" largeOffsetFilter ∧
      ∃ e e', Ends largePacket largeOffsetFilter (0, atEntry) e ∧
        Ends largePacket (patchPacketLoads largeOffsetFilter "pcapfilter_result_l2")
          (0, atEntry) e' ∧
        e.regs .r0 = 9 ∧ e'.regs .r0 = 0) := by
  refine ⟨⟨shaped_filterOf _ (by decide +kernel) (by decide +kernel), _, _,
      ⟨20, _, rfl, by decide +kernel⟩, ⟨40, _, rfl, by decide +kernel⟩, by decide +kernel,
      by decide +kernel⟩,
    shaped_filterOf _ (by decide +kernel) (by decide +kernel), _, _,
      ⟨20, _, rfl, by decide +kernel⟩, ⟨40, _, rfl, by decide +kernel⟩, by decide +kernel,
      by decide +kernel⟩

end Huatuo.PcapFilter
