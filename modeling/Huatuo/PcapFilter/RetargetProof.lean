import Huatuo.PcapFilter.RetargetLayout

/-!
# Retargeting preserves the verdict

`retargetToL3_preserves`: on a program of the kind the filter compiler emits, the retargeted
filter gives on a raw IP packet the result the original gives on the same packet behind an
Ethernet header.

The two runs are compared instruction by instruction. The original is at `i`, the retargeted
program at `place P i`. The registers agree, except that while A holds the ethertype in one run
it holds the version nibble in the other (`Sees`); `Flow` says which.
-/

namespace Huatuo.PcapFilter

open Bpf List

/-! ## The two packets -/

/-- The original run sees `frame`, the retargeted run `packet`. -/
structure SamePacket (frame packet : List (BitVec 8)) (etherType version : BitVec 32) :
    Prop where
  load : ∀ off size, ethernetHeaderLen ≤ off →
    loadCommon frame off size = loadCommon packet (off - ethernetHeaderLen) size
  memShift : ∀ off, ethernetHeaderLen ≤ off →
    loadMemShift frame off = loadMemShift packet (off - ethernetHeaderLen)
  probe : loadCommon frame 12 .two = some etherType
  nibble : ∃ byte, loadCommon packet 0 .one = some byte ∧ byte &&& rawIPVersionMask = version
  matching : etherType = etherTypeIPv4 ∧ version = rawIPv4Version ∨
    etherType = etherTypeIPv6 ∧ version = rawIPv6Version

/-- A 14-byte Ethernet header. -/
def etherHeader (addresses : List (BitVec 8)) (etherType : BitVec 16) : List (BitVec 8) :=
  addresses ++ [etherType.extractLsb' 8 8, etherType.extractLsb' 0 8]

/-- The ethertype of a raw packet, by the first nibble. -/
def MatchingEthertype (first : BitVec 8) (etherType : BitVec 16) : Prop :=
  first >>> 4 = 4 ∧ etherType = 0x0800 ∨ first >>> 4 = 6 ∧ etherType = 0x86dd

theorem version_of_nibble (first : BitVec 8) :
    (first >>> 4 = 4 → bigEndian [first] &&& rawIPVersionMask = rawIPv4Version) ∧
    (first >>> 4 = 6 → bigEndian [first] &&& rawIPVersionMask = rawIPv6Version) := by
  revert first
  decide

theorem samePacket_of_header {addresses : List (BitVec 8)} {first : BitVec 8}
    {etherType : BitVec 16} (rest : List (BitVec 8)) (hadd : addresses.length = 12)
    (hmatch : MatchingEthertype first etherType) :
    ∃ version, SamePacket (etherHeader addresses etherType ++ first :: rest) (first :: rest)
      (etherType.setWidth 32) version := by
  have hlen : (etherHeader addresses etherType).length = ethernetHeaderLen := by
    simp [etherHeader, hadd, ethernetHeaderLen]
  have hload : ∀ off size, ethernetHeaderLen ≤ off →
      loadCommon (etherHeader addresses etherType ++ first :: rest) off size =
        loadCommon (first :: rest) (off - ethernetHeaderLen) size := by
    intro off size hoff
    rw [loadCommon_append _ _ _ _ (hlen ▸ hoff), hlen]
  have hmem : ∀ off, ethernetHeaderLen ≤ off →
      loadMemShift (etherHeader addresses etherType ++ first :: rest) off =
        loadMemShift (first :: rest) (off - ethernetHeaderLen) := by
    intro off hoff
    rw [loadMemShift_append _ _ _ (hlen ▸ hoff), hlen]
  have hprobe : loadCommon (etherHeader addresses etherType ++ first :: rest) 12 .two =
      some (bigEndian [etherType.extractLsb' 8 8, etherType.extractLsb' 0 8]) := by
    rw [etherHeader, append_assoc, loadCommon_append _ _ _ _ (Nat.le_of_eq hadd),
      hadd]
    rfl
  have hnib : loadCommon (first :: rest) 0 .one = some (bigEndian [first]) := by
    simp [loadCommon, inBounds, Size.bytes]
  rcases hmatch with ⟨hfour, rfl⟩ | ⟨hsix, rfl⟩
  · exact ⟨rawIPv4Version, hload, hmem, hprobe.trans (by decide),
      ⟨_, hnib, (version_of_nibble first).1 hfour⟩, Or.inl ⟨by decide, rfl⟩⟩
  · exact ⟨rawIPv6Version, hload, hmem, hprobe.trans (by decide),
      ⟨_, hnib, (version_of_nibble first).2 hsix⟩, Or.inr ⟨by decide, rfl⟩⟩

/-! ## Programs the filter compiler emits -/

def isCompilerKind : Instruction → Bool
  | .loadAbsolute .. | .loadIndirect .. | .loadMemShift _ | .aluOpConstant .and _ | .jumpIf ..
  | .jump _ | .retConstant _ => true
  | _ => false

/-- A program of the compiler's instruction kinds that ends in a drop and passes
`validateL3Compatible`, where every comparison that can see the ethertype sees nothing else and
is for (in)equality with a constant no version nibble reaches. -/
structure Retargetable (P : List Instruction) : Prop where
  kinds : ∀ ins ∈ P, isCompilerKind ins = true
  drop : endsInDrop P = true
  valid : validateL3Compatible P = .ok ()
  comparisons : ∀ i cond val skipTrue skipFalse, FromEthertype P i →
    P[i]? = some (.jumpIf cond val skipTrue skipFalse) →
    ¬ Flow P i false ∧ (cond = .equal ∨ cond = .notEqual) ∧ 0x600 ≤ val

/-- No mask is applied to the ethertype itself. -/
def EthertypeUnmasked (P : List Instruction) : Prop :=
  ∀ i op val, FromEthertype P i → P[i]? ≠ some (.aluOpConstant op val)

variable {P : List Instruction} {ins : Bpf.Instruction}

theorem le_offset_of_valid {off : Nat} (h : validateL3Compatible P = .ok ()) (hins : ins ∈ P)
    (hoff : validatedOffset ins = some off) : ethernetHeaderLen ≤ off := by
  have hfrom : ∀ (l : List Instruction) (i : Nat), validateL3CompatibleFrom i l = .ok () →
      ∀ x ∈ l, ∀ off, validatedOffset x = some off → ethernetHeaderLen ≤ off := by
    intro l
    induction l with
    | nil => simp
    | cons y l ih =>
      intro i hy x hx off hoff
      simp only [validateL3CompatibleFrom] at hy
      rcases mem_cons.1 hx with rfl | hx
      · rw [hoff] at hy
        dsimp only at hy
        split at hy
        · cases hy
        · omega
      · split at hy
        · split at hy
          · cases hy
          · exact ih _ hy x hx off hoff
        · exact ih _ hy x hx off hoff
  exact hfrom P 0 h ins hins off hoff

/-! ## The retargeted run -/

section Run

variable {P Q : List Instruction} (hdrop : endsInDrop P = true) (hQ : Retargeted P Q)

include hdrop hQ

theorem endsInDrop_retargeted : endsInDrop Q = true := by
  have hpos := endsInDrop_pos hdrop
  have hlast := endsInDrop_last hdrop
  have hget := hQ.other _ _ hlast rfl
  have hlen : Q.length = place P (P.length - 1) + 1 := by
    have hsucc := place_succ hlast
    rw [Nat.sub_add_cancel hpos] at hsucc
    rw [hQ.length, hsucc]
    rfl
  rw [endsInDrop, List.getLast?_eq_getElem?, hlen, Nat.add_sub_cancel, hget]
  rfl

variable {i : Nat}

omit hdrop in
theorem place_lt_length (hi : i < P.length) : place P i < Q.length :=
  hQ.length ▸ place_lt hi (Nat.le_refl _)

/-- A run of the retargeted program, one instruction of the original at a time. -/
theorem runAt_retargeted {packet : List (BitVec 8)} {ins : Instruction} (hi : P[i]? = some ins)
    (hload : isEthertypeLoad ins = false) (regs : Regs) :
    runAt (boundJumps Q) packet (place P i) regs =
      match exec packet regs (retargeted (findEthertypeComparisons P) i ins) with
      | .ret value => value
      | .next skip regs' =>
        runAt (boundJumps Q) packet (place P (jumpTarget P.length i skip)) regs' := by
  rw [runAt_boundJumps (endsInDrop_retargeted hdrop hQ) (hQ.other i ins hi hload)]
  by_cases hret : ins = .retConstant 0
  · subst hret
    rfl
  · have hlt := succ_lt_of_ne hdrop hi hret
    have hstep : place P (i + 1) = place P i + 1 := by
      rw [place_succ hi, blockAt, rewrittenBlock, hload]
      rfl
    have hnext : jumpTarget P.length i 0 = i + 1 := by
      rw [jumpTarget, if_neg (by omega)]
    -- a forward jump lands between the place of the next instruction and the end
    have htgt : ∀ skip,
        jumpTarget Q.length (place P i)
            (place P (jumpTarget P.length i skip) - place P i - 1) =
          place P (jumpTarget P.length i skip) := by
      intro skip
      have hfor : i < jumpTarget P.length i skip := by
        unfold jumpTarget
        split <;> omega
      have hinsi := jumpTarget_lt (Nat.lt_of_succ_lt hlt) skip
      have hgt := place_lt hfor (Nat.le_of_lt hinsi)
      have hend := place_lt_length hQ hinsi
      generalize place P (jumpTarget P.length i skip) = target at hgt hend
      unfold jumpTarget
      split <;> omega
    rw [exec_mapSkips _ _ (Or.inr (by rw [hnext, hstep]; omega))]
    cases exec packet regs (retargeted (findEthertypeComparisons P) i ins) with
    | ret value => rfl
    | next skip regs' => simp only [Outcome.mapSkip, htgt]

/-- The version probe in place of an ethertype load. -/
theorem runAt_probe {packet : List (BitVec 8)} {ins : Instruction} {byte : BitVec 32}
    (hi : P[i]? = some ins) (hload : isEthertypeLoad ins = true)
    (hbyte : loadCommon packet 0 .one = some byte) (hlt : i + 1 < P.length) (regs : Regs) :
    runAt (boundJumps Q) packet (place P i) regs =
      runAt (boundJumps Q) packet (place P (i + 1))
        { regs with a := byte &&& rawIPVersionMask } := by
  obtain ⟨hfirst, hsec⟩ := hQ.probe i ins hi hload
  have hQdrop := endsInDrop_retargeted hdrop hQ
  have hstep : place P (i + 1) = place P i + 2 := by
    rw [place_succ hi, blockAt, rewrittenBlock, if_pos hload]
    rfl
  have hend := place_lt_length hQ hlt
  have hone : jumpTarget Q.length (place P i) 0 = place P i + 1 := by
    rw [jumpTarget, if_neg (by omega)]
  have htwo : jumpTarget Q.length (place P i + 1) 0 = place P (i + 1) := by
    rw [jumpTarget, if_neg (by omega), hstep]
  simp [runAt_boundJumps hQdrop hfirst, exec, hbyte, loadInto, Regs.set, hone,
    runAt_boundJumps hQdrop hsec, aluOpCommon, htwo]

end Run

/-! ## The simulation -/

/-- How the registers of the two runs compare. -/
def Sees (etherType version : BitVec 32) (holds : Bool) (regs regs' : Regs) : Prop :=
  regs.x = regs'.x ∧
    if holds then regs.a = etherType ∧ regs'.a = version else regs.a = regs'.a

/-- A comparison of the ethertype and the rewritten comparison of the version agree. -/
theorem holds_versionForEthertype {etherType version val : BitVec 32} {cond : JumpTest}
    (hmatch : etherType = etherTypeIPv4 ∧ version = rawIPv4Version ∨
      etherType = etherTypeIPv6 ∧ version = rawIPv6Version)
    (hcond : cond = .equal ∨ cond = .notEqual) (hval : 0x600 ≤ val) :
    cond.holds version (versionForEthertype val) = cond.holds etherType val := by
  have heq : (version = versionForEthertype val) ↔ (etherType = val) := by
    have hsm : ∀ w : BitVec 32, w < 0x600 → w ≠ val := by
      rintro w hw rfl
      exact absurd hval (BitVec.not_le.2 hw)
    unfold versionForEthertype
    split
    · rename_i h
      subst h
      rcases hmatch with ⟨rfl, rfl⟩ | ⟨rfl, rfl⟩ <;> decide
    · rename_i hfour
      split
      · rename_i h
        subst h
        rcases hmatch with ⟨rfl, rfl⟩ | ⟨rfl, rfl⟩ <;> decide
      · rename_i hsix
        rcases hmatch with ⟨rfl, rfl⟩ | ⟨rfl, rfl⟩
        · exact ⟨fun h => absurd h (hsm _ (by decide)), fun h => absurd h.symm hfour⟩
        · exact ⟨fun h => absurd h (hsm _ (by decide)), fun h => absurd h.symm hsix⟩
  have hbeq : (version == versionForEthertype val) = (etherType == val) := by
    rw [Bool.eq_iff_iff, beq_iff_eq, beq_iff_eq, heq]
  rcases hcond with rfl | rfl
  · exact hbeq
  · exact congrArg Bool.not hbeq

/-- The two runs return the same value, or go on alike. -/
def Agree (R : Regs → Regs → Prop) : Outcome → Outcome → Prop
  | .ret value, .ret value' => value = value'
  | .next skip regs, .next skip' regs' => skip = skip' ∧ R regs regs'
  | _, _ => False

variable {regs : Bpf.Regs} {regs' : Bpf.Regs}

theorem agree_loadInto {loaded loaded' : Option (BitVec 32)} {R : Bpf.Regs → Bpf.Regs → Prop}
    {dst : Bpf.Register} (h : loaded = loaded')
    (hset : ∀ value, R (regs.set dst value) (regs'.set dst value)) :
    Agree R (loadInto regs dst loaded) (loadInto regs' dst loaded') := by
  subst h
  cases loaded with
  | none => rfl
  | some value => exact ⟨rfl, hset value⟩

variable {i : Nat}

/-- Control goes where `flowTargets` says. -/
theorem jumpTarget_mem_flowTargets {packet : List (BitVec 8)} {skip : Nat} (hi : P[i]? = some ins)
    (hlt : i + 1 < P.length) (h : exec packet regs ins = .next skip regs') :
    jumpTarget P.length i skip ∈ flowTargets P i := by
  have hnext : jumpTarget P.length i 0 = i + 1 := by rw [jumpTarget, if_neg (by omega)]
  have hload : ∀ dst loaded, loadInto regs dst loaded = .next skip regs' → skip = 0 := by
    intro dst loaded h
    cases loaded <;> cases h
    rfl
  cases ins with
  | jump => cases h; simp [flowTargets, hi]
  | jumpIf cond val skipTrue skipFalse | jumpIfX cond skipTrue skipFalse =>
    cases h
    rw [jumpIfCommon]
    split <;> simp [flowTargets, hi]
  | aluOpX op =>
    simp only [exec] at h
    split at h <;> cases h
    simp [flowTargets, hi, hnext]
  | loadAbsolute off size
  | loadIndirect off size
  | loadMemShift off => obtain rfl := hload _ _ h; simp [flowTargets, hi, hnext]
  | retA | retConstant => cases h
  | _ => cases h; simp [flowTargets, hi, hnext]

section Simulation

variable {P Q : List Instruction} {frame packet : List (BitVec 8)}
  {etherType version : BitVec 32} (hP : Retargetable P) (hmask : EthertypeUnmasked P)
  (hQ : Retargeted P Q) (hsame : SamePacket frame packet etherType version)

include hP hmask hsame

/-- One instruction that is not an ethertype load, on both sides. -/
theorem exec_retargeted {i : Nat} {ins : Instruction} {holds : Bool} {regs regs' : Regs}
    (hi : P[i]? = some ins) (hload : isEthertypeLoad ins = false) (hflow : Flow P i holds)
    (hsees : Sees etherType version holds regs regs') :
    Agree (Sees etherType version (holdsAfter ins holds)) (exec frame regs ins)
      (exec packet regs' (retargeted (findEthertypeComparisons P) i ins)) := by
  obtain ⟨hilt, -⟩ := List.getElem?_eq_some_iff.1 hi
  have hmem : ins ∈ P := mem_of_getElem? hi
  have hkind := hP.kinds ins hmem
  have hoffs : ∀ off, validatedOffset ins = some off → ethernetHeaderLen ≤ off :=
    fun off hoff => le_offset_of_valid hP.valid hmem hoff
  have hstrip : ∀ off, ethernetHeaderLen ≤ off →
      stripEtherOffset off = off - ethernetHeaderLen := fun off hoff => if_pos hoff
  obtain ⟨hx, ha⟩ := hsees
  cases ins with
  | loadAbsolute off size =>
    have hoff : ethernetHeaderLen ≤ off := hoffs off (by
      simp only [isEthertypeLoad] at hload
      simp [validatedOffset, hload])
    refine agree_loadInto ?_ fun value => ?_
    · rw [hsame.load off size hoff, hstrip off hoff]
    · simpa [holdsAfter, hload, overwritesA, Sees, Regs.set] using hx
  | loadIndirect off size =>
    have hoff : ethernetHeaderLen ≤ off := hoffs off rfl
    refine agree_loadInto ?_ fun value => ?_
    · rw [hsame.load _ size (Nat.le_trans hoff (Nat.le_add_right _ _)), hx, hstrip off hoff,
        Nat.sub_add_comm hoff]
    · simpa [holdsAfter, hload, overwritesA, Sees, Regs.set] using hx
  | loadMemShift off =>
    have hoff : ethernetHeaderLen ≤ off := hoffs off rfl
    refine agree_loadInto ?_ fun value => ?_
    · rw [hsame.memShift off hoff, hstrip off hoff]
    · simpa [holdsAfter, hload, overwritesA, Sees, Regs.set] using ha
  | aluOpConstant op val =>
    -- only reached while A is the same on both sides
    have hholds : holds = false := by
      cases holds with
      | false => rfl
      | true => exact absurd hi (hmask i op val (fromEthertype_of_flow hflow hilt))
    subst hholds
    have ha : regs.a = regs'.a := ha
    refine ⟨rfl, ?_⟩
    simp [holdsAfter, hload, overwritesA, Sees, hx, ha]
  | jumpIf cond val skipTrue skipFalse =>
    have hdec : cond.holds regs.a val = cond.holds regs'.a
        (if (findEthertypeComparisons P).contains i then versionForEthertype val
          else val) := by
      cases holds with
      | true =>
        have hfrom := fromEthertype_of_flow hflow hilt
        obtain ⟨-, hcond, hval⟩ := hP.comparisons i _ _ _ _ hfrom hi
        have hfound : (findEthertypeComparisons P).contains i = true :=
          contains_iff_mem.2 (mem_findEthertypeComparisons.2 ⟨hfrom, _, _, _, _, hi⟩)
        rw [if_pos hfound, ha.1, ha.2]
        exact (holds_versionForEthertype hsame.matching hcond hval).symm
      | false =>
        -- a comparison the search found is never reached with anything else in A
        have hfound : ¬ (findEthertypeComparisons P).contains i = true := fun hfound => by
          obtain ⟨hfrom, -⟩ :=
            mem_findEthertypeComparisons.1 (contains_iff_mem.1 hfound)
          exact (hP.comparisons i _ _ _ _ hfrom hi).1 hflow
        have ha : regs.a = regs'.a := ha
        rw [if_neg hfound, ha]
    refine ⟨?_, ?_⟩
    · rw [jumpIfCommon, jumpIfCommon, hdec]
    · simpa [holdsAfter, hload, overwritesA, Sees, hx] using ha
  | jump skip =>
    refine ⟨rfl, ?_⟩
    simpa [holdsAfter, hload, overwritesA, Sees, hx] using ha
  | retConstant val => rfl
  | _ => cases hkind

include hQ

/-- **The two runs agree**, from any place control can reach. By induction on the instructions
that are left; every jump is forward. -/
theorem runAt_retarget_eq (left : Nat) :
    ∀ i holds regs regs', P.length - i = left → i < P.length → Flow P i holds →
      Sees etherType version holds regs regs' →
      runAt (boundJumps P) frame i regs = runAt (boundJumps Q) packet (place P i) regs' := by
  induction left using Nat.strongRecOn with
  | _ left ih =>
    intro i holds regs regs' hleft hilt hflow hsees
    obtain ⟨ins, hi⟩ : ∃ ins, P[i]? = some ins := ⟨_, List.getElem?_eq_getElem hilt⟩
    rw [runAt_boundJumps hP.drop hi]
    cases hload : isEthertypeLoad ins with
    | true =>
      have hne : ins ≠ .retConstant 0 := by
        rintro rfl
        cases hload
      have hlt := succ_lt_of_ne hP.drop hi hne
      obtain ⟨byte, hbyte, hnib⟩ := hsame.nibble
      have hexec : exec frame regs ins = .next 0 { regs with a := etherType } := by
        cases ins with
        | loadAbsolute off size =>
          simp only [isEthertypeLoad, Bool.and_eq_true, beq_iff_eq] at hload
          obtain ⟨rfl, rfl⟩ := hload
          simp only [exec, hsame.probe, loadInto, Regs.set]
        | _ => cases hload
      have htgt : jumpTarget P.length i 0 = i + 1 := by
        rw [jumpTarget, if_neg (by omega)]
      have hflow' : Flow P (i + 1) (holdsAfter ins holds) :=
        .step hflow hi (by rw [flowTargets_ethertypeLoad hi hload]; simp)
      rw [hexec, runAt_probe hP.drop hQ hi hload hbyte hlt, hnib]
      dsimp only
      rw [htgt]
      refine ih _ (by omega) (i + 1) _ _ _ rfl hlt hflow' ?_
      simp [Sees, holdsAfter, hload, hsees.1]
    | false =>
      rw [runAt_retargeted hP.drop hQ hi hload]
      have hagree := exec_retargeted hP hmask hsame hi hload hflow hsees
      cases hexec : exec frame regs ins with rw [hexec] at hagree
      | ret value =>
        cases hexec' : exec packet regs'
            (retargeted (findEthertypeComparisons P) i ins) with
        | ret value' =>
          rw [hexec'] at hagree
          exact hagree
        | next skip' r' =>
          rw [hexec'] at hagree
          exact hagree.elim
      | next skip r =>
        cases hexec' : exec packet regs'
            (retargeted (findEthertypeComparisons P) i ins) with
        | ret value' =>
          rw [hexec'] at hagree
          exact hagree.elim
        | next skip' r' =>
          rw [hexec'] at hagree
          obtain ⟨rfl, hsees'⟩ := hagree
          have hne : ins ≠ .retConstant 0 := by
            rintro rfl
            cases hexec
          have hlt := succ_lt_of_ne hP.drop hi hne
          have hfor : i < jumpTarget P.length i skip := by
            unfold jumpTarget
            split <;> omega
          exact ih _ (by omega) _ _ _ _ rfl (jumpTarget_lt hilt _)
            (.step hflow hi (jumpTarget_mem_flowTargets hi hlt hexec)) hsees'

end Simulation

/-! ## Concrete filters -/

/-- The search computes `FromEthertype`. -/
theorem mem_explore_of_fromEthertype (h : FromEthertype P i) :
    i ∈ Worklist.explore P.length (searchTargets P)
      ((searchRoots P).length + 2 * P.length) (searchRoots P) [] :=
  (Worklist.mem_explore_iff (searchTargets_length P) (Nat.le_refl _)).2
    (reach_iff_fromEthertype.2 h)

/-- Control that comes from ethertype loads only finds the ethertype in A. -/
theorem not_flow_false {j : Nat} (hj : j ≠ 0)
    (h : ∀ i < P.length, j ∈ flowTargets P i → (P[i]?.map isEthertypeLoad).getD false = true) :
    ¬ Flow P j false := by
  intro hflow
  generalize hb : false = b at hflow
  cases hflow with
  | entry => exact hj rfl
  | @step i _ holds ins hflow hi hmem =>
    obtain ⟨hlt, -⟩ := List.getElem?_eq_some_iff.1 hi
    have hload := h i hlt hmem
    rw [hi] at hload
    have hload : isEthertypeLoad ins = true := hload
    simp [holdsAfter, hload] at hb

/-- "ip proto 6", as the compiler emits it. -/
def tcpFilter : List Instruction :=
  [.loadAbsolute 12 .two, .jumpIf .equal 0x0800 0 3, .loadAbsolute 23 .one,
    .jumpIf .equal 6 0 1, .retConstant 0x40000, .retConstant 0]

def tcpFilterL3 : List Instruction :=
  [.loadAbsolute 0 .one, .aluOpConstant .and 0xf0, .jumpIf .equal 0x40 0 3, .loadAbsolute 9 .one,
    .jumpIf .equal 6 0 1, .retConstant 0x40000, .retConstant 0]

theorem explore_tcpFilter :
    Worklist.explore tcpFilter.length (searchTargets tcpFilter)
      ((searchRoots tcpFilter).length + 2 * tcpFilter.length) (searchRoots tcpFilter) [] =
      [2, 5, 1] := by decide

theorem retargetable_tcpFilter : Retargetable tcpFilter where
  kinds := by decide
  drop := by decide
  valid := rfl
  comparisons := by
    intro i cond val skipTrue skipFalse hfrom hi
    have hmem := mem_explore_of_fromEthertype hfrom
    rw [explore_tcpFilter] at hmem
    simp only [mem_cons, not_mem_nil, or_false] at hmem
    rcases hmem with rfl | rfl | rfl
    · cases hi
    · cases hi
    · cases hi
      exact ⟨not_flow_false (by decide) (by decide), Or.inl rfl, by decide⟩

theorem ethertypeUnmasked_tcpFilter : EthertypeUnmasked tcpFilter := by
  intro i op val hfrom hi
  have hmem := mem_explore_of_fromEthertype hfrom
  rw [explore_tcpFilter] at hmem
  simp only [mem_cons, not_mem_nil, or_false] at hmem
  rcases hmem with rfl | rfl | rfl <;> cases hi

/-- The first bytes of a TCP segment in IPv4. -/
def tcpPacket : List (BitVec 8) := [0x45, 0, 0, 40, 0, 0, 0, 0, 64, 6]

/-- A filter that masks the ethertype before it compares it. The search stops at the mask, so
the second comparison keeps its constant. -/
def maskedFilter : List Instruction :=
  [.loadAbsolute 12 .two, .jumpIf .equal 0x86dd 0 0, .aluOpConstant .and 0xffff,
    .jumpIf .equal 0x0800 0 1, .retConstant 1, .retConstant 0]

def maskedFilterL3 : List Instruction :=
  [.loadAbsolute 0 .one, .aluOpConstant .and 0xf0, .jumpIf .equal 0x60 0 0,
    .aluOpConstant .and 0xffff, .jumpIf .equal 0x0800 0 1, .retConstant 1, .retConstant 0]

theorem explore_maskedFilter :
    Worklist.explore maskedFilter.length (searchTargets maskedFilter)
      ((searchRoots maskedFilter).length + 2 * maskedFilter.length) (searchRoots maskedFilter)
      [] = [2, 1] := by decide

theorem retargetable_maskedFilter : Retargetable maskedFilter where
  kinds := by decide
  drop := by decide
  valid := rfl
  comparisons := by
    intro i cond val skipTrue skipFalse hfrom hi
    have hmem := mem_explore_of_fromEthertype hfrom
    rw [explore_maskedFilter] at hmem
    simp only [mem_cons, not_mem_nil, or_false] at hmem
    rcases hmem with rfl | rfl
    · cases hi
    · cases hi
      exact ⟨not_flow_false (by decide) (by decide), Or.inl rfl, by decide⟩

/-! ## The theorem -/

/-- **Retargeting preserves the verdict.** For a program of the compiler's kind in which no
mask is applied to the ethertype: when `retargetToL3` succeeds, the bounded result accepts a raw
packet whose first nibble is 4 or 6 exactly as the bounded original accepts it behind an
Ethernet header of the matching type. Both runs return the same value. -/
theorem retargetToL3_preserves {P Q : List Instruction} (hP : Retargetable P)
    (hmask : EthertypeUnmasked P) (hretarget : retargetToL3 P = .ok Q)
    {addresses rest : List (BitVec 8)} {first : BitVec 8} {etherType : BitVec 16}
    (haddresses : addresses.length = 12) (hmatch : MatchingEthertype first etherType) :
    run (boundJumps Q) (first :: rest) =
      run (boundJumps P) (etherHeader addresses etherType ++ first :: rest) := by
  obtain ⟨version, hsame⟩ := samePacket_of_header rest haddresses hmatch
  have hzero : place P 0 = 0 := rfl
  have hrun := runAt_retarget_eq hP hmask (retargeted_of_ok hretarget) hsame _ 0 false {} {} rfl
    (endsInDrop_pos hP.drop) .entry ⟨rfl, rfl⟩
  rw [hzero] at hrun
  exact hrun.symm

theorem retargetToL3_preserves_tcpFilter :
    retargetToL3 tcpFilter = .ok tcpFilterL3 ∧
    run (boundJumps tcpFilterL3) tcpPacket =
      run (boundJumps tcpFilter) (etherHeader (List.replicate 12 0) 0x0800 ++ tcpPacket) ∧
    run (boundJumps tcpFilterL3) tcpPacket = 0x40000 :=
  ⟨rfl, retargetToL3_preserves retargetable_tcpFilter ethertypeUnmasked_tcpFilter rfl rfl
    (Or.inl ⟨by decide, rfl⟩), by decide⟩

/-- Without that condition it fails: on an IPv4 packet the masked filter accepts and its
retargeted form rejects, the version nibble being compared with the ethertype. -/
theorem retargetToL3_masked_differs :
    Retargetable maskedFilter ∧ retargetToL3 maskedFilter = .ok maskedFilterL3 ∧
    MatchingEthertype 0x45 0x0800 ∧
    run (boundJumps maskedFilterL3) [0x45] = 0 ∧
    run (boundJumps maskedFilter) (etherHeader (List.replicate 12 0) 0x0800 ++ [0x45]) = 1 :=
  ⟨retargetable_maskedFilter, rfl, Or.inl ⟨by decide, rfl⟩, by decide, by decide⟩

end Huatuo.PcapFilter
