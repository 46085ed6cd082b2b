import Mathlib.Data.List.Nodup
import Mathlib.Data.List.Perm.Basic
import Huatuo.Node.LifecycleProof
import Huatuo.Node.Manager

/-!
# The operation manager: capacity and lifecycle

In every state the manager reaches, whatever calls and moves are interleaved:

* `activeCount_eq_live` — `activeCount` is the number of operations in the map that are not
  terminal and stays within the limit; an operation is released iff it is terminal; statuses only
  advance, and a terminal result never changes.
* `operation_disciplined` — the calls made to an operation's executor are as they should be.

`Inv` holds the map, the records and the counter together. Methods and moves are shown to keep it
by what they do to the records (`Updated`) and to the map (`Inv.shrink`, `Inv.register`).
-/

namespace Huatuo.Node.Manager

open List
open Op (Advances)

/-- The records that are not terminal. -/
def liveOps (ops : List Op) : Nat := ops.countP fun op => !isTerminal op.status

structure Inv (m : Manager) : Prop where
  ops : ∀ op ∈ m.ops, op.Inv
  keys : (m.operations.map Prod.fst).Nodup
  refs : (m.operations.map Prod.snd).Nodup
  valid : ∀ entry ∈ m.operations,
    ∃ op, m.ops[entry.2]? = some op ∧ op.managed.state.requestID = entry.1
  live : ∀ ref op, m.ops[ref]? = some op → op.status ≠ .terminal →
    (op.managed.state.requestID, ref) ∈ m.operations
  count : m.activeCount = liveOps m.ops
  bound : m.activeCount ≤ m.maxConcurrent

/-- What a step does, seen from the records there were. -/
structure StepSpec (m m' : Manager) : Prop where
  inv : Inv m'
  advances : ∀ (ref : Nat) (op : Op), m.ops[ref]? = some op →
    ∃ op', m'.ops[ref]? = some op' ∧ Advances op op'
  maxConcurrent : m'.maxConcurrent = m.maxConcurrent

variable {m m' : Manager} {op op' : Op} {ops : List Op} {ref : Nat} {requestID : String}
  {now : Time}

theorem StepSpec.refl (hi : Inv m) : StepSpec m m :=
  ⟨hi, fun _ op hop => ⟨op, hop, .refl op⟩, rfl⟩

theorem StepSpec.trans {m'' : Manager} (h : StepSpec m m') (h' : StepSpec m' m'') :
    StepSpec m m'' where
  inv := h'.inv
  advances := fun ref op hop => by
    obtain ⟨op', hop', hadv⟩ := h.advances ref op hop
    obtain ⟨op'', hop'', hadv'⟩ := h'.advances ref op' hop'
    exact ⟨op'', hop'', hadv.trans hadv'⟩
  maxConcurrent := h'.maxConcurrent.trans h.maxConcurrent

/-! ## Updating records -/

/-- Records are replaced in place. -/
structure Updated (ops ops' : List Op) : Prop where
  length : ops'.length = ops.length
  advances : ∀ (ref : Nat) (op op' : Op), ops[ref]? = some op → ops'[ref]? = some op' →
    op'.Inv ∧ Advances op op'

theorem Updated.exists {ops' : List Op} (h : Updated ops ops') (hop : ops[ref]? = some op) :
    ∃ op', ops'[ref]? = some op' ∧ op'.Inv ∧ Advances op op' := by
  obtain ⟨hlt, -⟩ := List.getElem?_eq_some_iff.1 hop
  have hop' := List.getElem?_eq_getElem (h.length ▸ hlt)
  exact ⟨_, hop', h.advances ref op _ hop hop'⟩

/-- A record that has become live was live. -/
theorem not_terminal_of_advances (h : Advances op op') (hlive : op'.status ≠ .terminal) :
    op.status ≠ .terminal := by
  intro ht
  have hsame := h.terminal ht
  exact hlive (by rw [Op.status, hsame]; exact ht)

theorem Inv.update (hi : Inv m) (hops : Updated m.ops m'.ops) (hope : m'.operations = m.operations)
    (hmax : m'.maxConcurrent = m.maxConcurrent) (hcnt : m'.activeCount = liveOps m'.ops)
    (hbound : m'.activeCount ≤ m.activeCount) : StepSpec m m' where
  inv :=
    { ops := fun op' hop' => by
        obtain ⟨ref, hop'⟩ := mem_iff_getElem?.1 hop'
        obtain ⟨hlt, -⟩ := List.getElem?_eq_some_iff.1 hop'
        have hop := List.getElem?_eq_getElem (hops.length ▸ hlt)
        exact (hops.advances ref _ _ hop hop').1
      keys := by rw [hope]; exact hi.keys
      refs := by rw [hope]; exact hi.refs
      valid := fun entry hent => by
        rw [hope] at hent
        obtain ⟨op, hop, hid⟩ := hi.valid entry hent
        obtain ⟨op', hop', -, hadv⟩ := hops.exists hop
        exact ⟨op', hop', hadv.requestID.trans hid⟩
      live := fun ref op' hop' hlive => by
        obtain ⟨hlt, -⟩ := List.getElem?_eq_some_iff.1 hop'
        have hop := List.getElem?_eq_getElem (hops.length ▸ hlt)
        have hadv := (hops.advances ref _ _ hop hop').2
        rw [hope, hadv.requestID]
        exact hi.live ref _ hop (not_terminal_of_advances hadv hlive)
      count := hcnt
      bound := by rw [hmax]; exact le_trans hbound hi.bound }
  advances := fun ref op hop => by
    obtain ⟨op', hop', -, hadv⟩ := hops.exists hop
    exact ⟨op', hop', hadv⟩
  maxConcurrent := hmax

theorem updated_set (hops : ∀ o ∈ ops, o.Inv) (hop : ops[ref]? = some op) (hinv : op'.Inv)
    (hadv : Advances op op') : Updated ops (ops.set ref op') where
  length := length_set
  advances := fun ref' o o' ho ho' => by
    by_cases href : ref = ref'
    · subst href
      obtain ⟨hlt, -⟩ := List.getElem?_eq_some_iff.1 hop
      rw [List.getElem?_set_self hlt] at ho'
      rw [hop] at ho
      cases ho
      cases ho'
      exact ⟨hinv, hadv⟩
    · rw [List.getElem?_set_ne href, ho] at ho'
      cases ho'
      exact ⟨hops o (mem_of_getElem? ho), .refl o⟩

theorem liveOps_set (op' : Op) (hop : ops[ref]? = some op) :
    liveOps (ops.set ref op') + (if isTerminal op.status then 0 else 1) =
      liveOps ops + (if isTerminal op'.status then 0 else 1) := by
  obtain ⟨hlt, hget⟩ := List.getElem?_eq_some_iff.1 hop
  have hpos : isTerminal op.status = false → 0 < liveOps ops := fun hlive =>
    countP_pos_iff.2 ⟨op, mem_of_getElem? hop, by simp [hlive]⟩
  have hset := countP_set (p := fun o : Op => !isTerminal o.status) (a := op') hlt
  rw [hget] at hset
  unfold liveOps at hpos ⊢
  cases hold : isTerminal op.status <;> cases hnew : isTerminal op'.status <;>
    simp only [hold, hnew, Bool.not_true, Bool.not_false, Bool.false_eq_true, if_true, if_false,
      forall_true_left] at hset hpos ⊢ <;> omega

/-- The counter after a move: it goes down exactly when the operation becomes terminal. -/
theorem activeCount_set {released : Bool} {activeCount : Int} (hop : ops[ref]? = some op)
    (hadv : Advances op op')
    (hrel : released = true ↔ op.status ≠ .terminal ∧ op'.status = .terminal)
    (hcnt : activeCount = liveOps ops) :
    (if released then activeCount - 1 else activeCount) = liveOps (ops.set ref op') := by
  have hlive := liveOps_set op' hop
  by_cases hold : op.status = .terminal
  · have hnew : op'.status = .terminal := by
      rw [Op.status, hadv.terminal hold]
      exact hold
    have hkept : released = false := by simpa [hold] using hrel
    simp only [hold, hnew, isTerminal, beq_self_eq_true, if_true] at hlive
    simp only [hkept, Bool.false_eq_true, if_false]
    omega
  · have hold' : isTerminal op.status = false := by simpa [isTerminal] using hold
    by_cases hnew : op'.status = .terminal
    · have hfreed : released = true := hrel.2 ⟨hold, hnew⟩
      have hnew' : isTerminal op'.status = true := by simpa [isTerminal] using hnew
      simp only [hold', hnew', Bool.false_eq_true, if_false, if_true] at hlive
      simp only [hfreed, if_true]
      omega
    · have hkept : released = false := by simpa [hnew] using hrel
      have hnew' : isTerminal op'.status = false := by simpa [isTerminal] using hnew
      simp only [hold', hnew', Bool.false_eq_true, if_false] at hlive
      simp only [hkept, Bool.false_eq_true, if_false]
      omega

/-! ## The map -/

theorem lookup_some (h : m.lookup requestID = some (ref, op)) :
    (requestID, ref) ∈ m.operations ∧ m.ops[ref]? = some op := by
  unfold lookup at h
  split at h
  · cases h
  rename_i ref' hlk
  obtain ⟨o, ho, heq⟩ := Option.map_eq_some_iff.1 h
  cases heq
  obtain ⟨l₁, l₂, hl, -⟩ := lookup_eq_some_iff.1 hlk
  exact ⟨by rw [hl]; simp, ho⟩

theorem not_mem_keys_of_lookup (hi : Inv m) (h : m.lookup requestID = none) :
    requestID ∉ m.operations.map Prod.fst := by
  intro hmem
  obtain ⟨entry, hent, hid⟩ := mem_map.1 hmem
  unfold lookup at h
  split at h
  · rename_i hnone
    have hne := lookup_eq_none_iff.1 hnone entry hent
    simp [hid] at hne
  · rename_i ref hlk
    obtain ⟨l₁, l₂, hl, -⟩ := lookup_eq_some_iff.1 hlk
    obtain ⟨op, hop, -⟩ := hi.valid (requestID, ref) (by rw [hl]; simp)
    simp [hop] at h

/-- Entries of terminal operations may leave the map. -/
theorem Inv.shrink (hi : Inv m) (p : String × Nat → Bool) (hops : m'.ops = m.ops)
    (hope : m'.operations = m.operations.filter p) (hmax : m'.maxConcurrent = m.maxConcurrent)
    (hcnt : m'.activeCount = m.activeCount) (hterm : ∀ entry ∈ m.operations, p entry = false →
      ∀ op, m.ops[entry.2]? = some op → op.status = .terminal) : StepSpec m m' where
  inv :=
    { ops := by rw [hops]; exact hi.ops
      keys := by
        rw [hope]
        exact hi.keys.sublist (filter_sublist.map _)
      refs := by
        rw [hope]
        exact hi.refs.sublist (filter_sublist.map _)
      valid := fun entry hent => by
        rw [hope] at hent
        rw [hops]
        exact hi.valid entry (mem_of_mem_filter hent)
      live := fun ref op hop hlive => by
        rw [hops] at hop
        have hmem := hi.live ref op hop hlive
        rw [hope, mem_filter]
        refine ⟨hmem, ?_⟩
        rw [← Bool.not_eq_false]
        exact fun hp => hlive (hterm _ hmem hp op hop)
      count := by rw [hops, hcnt]; exact hi.count
      bound := by rw [hmax, hcnt]; exact hi.bound }
  advances := fun ref op hop => ⟨op, by rw [hops]; exact hop, .refl op⟩
  maxConcurrent := hmax

theorem terminal_of_isExpired {managed : ManagedOperation} (h : isExpired managed now = true) :
    managed.state.status = .terminal := by
  simp only [isExpired, isTerminal, Bool.and_eq_true, beq_iff_eq] at h
  exact h.1.1.1

theorem delete_spec (hi : Inv m) (hlk : m.lookup requestID = some (ref, op))
    (hexp : isExpired op.managed now = true) : StepSpec m (m.delete requestID) := by
  obtain ⟨hmem, hop⟩ := lookup_some hlk
  refine hi.shrink (fun entry => entry.1 ≠ requestID) rfl rfl rfl rfl ?_
  intro entry hent hp op' hop'
  -- keys are distinct, so the entry is the one that was looked up
  have hid : entry.1 = requestID := by simpa using hp
  have hent' : entry = (requestID, ref) :=
    inj_on_of_nodup_map hi.keys hent hmem hid
  rw [hent', hop] at hop'
  cases hop'
  exact terminal_of_isExpired hexp

theorem lookup_delete (requestID : String) :
    requestID ∉ (m.delete requestID).operations.map Prod.fst := by
  intro hmem
  obtain ⟨entry, hent, hid⟩ := mem_map.1 hmem
  have hne := (mem_filter.1 hent).2
  simp [hid] at hne

theorem cleanupExpired_spec (hi : Inv m) (now : Time) : StepSpec m (m.cleanupExpired now) := by
  refine hi.shrink (fun entry => !m.expiredAt entry.2 now) rfl rfl rfl rfl ?_
  intro entry _ hp op hop
  simp only [expiredAt, hop, Bool.not_eq_false'] at hp
  exact terminal_of_isExpired hp

/-! ## Methods -/

theorem register_spec (hi : Inv m) (request : StartRequest) (now : Time)
    (hnew : request.requestID ∉ m.operations.map Prod.fst) :
    StepSpec m (m.register request now).2 := by
  unfold register
  split
  · exact .refl hi
  split
  · exact .refl hi
  rename_i hroom
  have hroom : m.activeCount < m.maxConcurrent := not_le.1 hroom
  have hfresh : m.ops.length ∉ m.operations.map Prod.snd := by
    intro hmem
    obtain ⟨entry, hent, href⟩ := mem_map.1 hmem
    obtain ⟨op, hop, -⟩ := hi.valid entry hent
    obtain ⟨hlt, -⟩ := List.getElem?_eq_some_iff.1 hop
    exact absurd href (Nat.ne_of_lt hlt)
  have hold : ∀ (ref : Nat) (op : Op), m.ops[ref]? = some op →
      (m.ops ++ [Op.register request.requestID request.kind now])[ref]? = some op := by
    intro ref op hop
    obtain ⟨hlt, -⟩ := List.getElem?_eq_some_iff.1 hop
    rw [List.getElem?_append_left hlt, hop]
  refine ⟨⟨?_, ?_, ?_, ?_, ?_, ?_, ?_⟩, fun ref op hop => ⟨op, hold ref op hop, .refl op⟩, rfl⟩
  · intro op hop
    rcases mem_append.1 hop with hop | hop
    · exact hi.ops op hop
    · rw [mem_singleton.1 hop]
      exact Op.inv_register _ _ _
  · rw [map_append]
    refine nodup_append.2 ⟨hi.keys, nodup_singleton _, ?_⟩
    rintro a ha b hb rfl
    rw [mem_singleton.1 hb] at ha
    exact hnew ha
  · rw [map_append]
    refine nodup_append.2 ⟨hi.refs, nodup_singleton _, ?_⟩
    rintro a ha b hb rfl
    rw [mem_singleton.1 hb] at ha
    exact hfresh ha
  · intro entry hent
    rcases mem_append.1 hent with hent | hent
    · obtain ⟨op, hop, hid⟩ := hi.valid entry hent
      exact ⟨op, hold _ op hop, hid⟩
    · rw [mem_singleton.1 hent]
      exact ⟨_, List.getElem?_concat_length, rfl⟩
  · intro ref op hop hlive
    rcases Nat.lt_trichotomy ref m.ops.length with hlt | rfl | hgt
    · rw [List.getElem?_append_left hlt] at hop
      exact mem_append_left _ (hi.live ref op hop hlive)
    · rw [List.getElem?_concat_length] at hop
      cases hop
      exact mem_append_right _ (mem_singleton_self _)
    · rw [List.getElem?_eq_none (by simp; omega)] at hop
      cases hop
  · have hlive : isTerminal (Op.register request.requestID request.kind now).status = false :=
      rfl
    simp [liveOps, hlive, hi.count]
  · exact Int.add_one_le_of_lt hroom

theorem start_spec (hi : Inv m) (request : StartRequest) (now : Time) :
    StepSpec m (m.start request now).2 := by
  unfold start
  split
  · exact .refl hi
  split
  · rename_i ref op hlk
    split
    · rename_i hexp
      have hdel := delete_spec hi hlk hexp
      exact hdel.trans (register_spec hdel.inv request now (lookup_delete _))
    · split <;> exact .refl hi
  · rename_i hlk
    exact register_spec hi request now (not_mem_keys_of_lookup hi hlk)

theorem stopByID_spec (hi : Inv m) (requestID : String) (now : Time) :
    StepSpec m (m.stopByID requestID now).2 := by
  unfold stopByID
  split
  · exact .refl hi
  rename_i ref op hlk
  split
  · rename_i hexp
    exact delete_spec hi hlk hexp
  · obtain ⟨-, hop⟩ := lookup_some hlk
    have hinv := hi.ops op (mem_of_getElem? hop)
    obtain ⟨hadv, hterm, -⟩ := Op.advances_requestStop hinv
    have hsame : isTerminal op.requestStop.2.status = isTerminal op.status := by
      rw [Bool.eq_iff_iff, isTerminal, isTerminal, beq_iff_eq, beq_iff_eq, hterm]
    have hlive := liveOps_set op.requestStop.2 hop
    rw [hsame] at hlive
    refine hi.update (updated_set hi.ops hop (Op.inv_requestStop hinv) hadv) rfl rfl ?_ le_rfl
    show m.activeCount = _
    rw [hi.count, Nat.add_right_cancel hlive]

theorem startShutdown_spec (hi : Inv m) : StepSpec m m.startShutdown := by
  have hstop : ∀ op ∈ m.ops, op.requestStop.2.Inv ∧ Advances op op.requestStop.2 ∧
      isTerminal op.requestStop.2.status = isTerminal op.status := by
    intro op hop
    obtain ⟨hadv, hterm, -⟩ := Op.advances_requestStop (hi.ops op hop)
    refine ⟨Op.inv_requestStop (hi.ops op hop), hadv, ?_⟩
    rw [Bool.eq_iff_iff, isTerminal, isTerminal, beq_iff_eq, beq_iff_eq, hterm]
  refine hi.update ⟨length_mapIdx, ?_⟩ rfl rfl ?_ le_rfl
  · intro ref op op' hop hop'
    simp only [startShutdown, List.getElem?_mapIdx, hop, Option.map_some,
      Option.some.injEq] at hop'
    subst hop'
    have hmem := mem_of_getElem? hop
    split
    · exact ⟨(hstop op hmem).1, (hstop op hmem).2.1⟩
    · exact ⟨hi.ops op hmem, .refl op⟩
  · show m.activeCount = _
    rw [hi.count, startShutdown, liveOps, liveOps, mapIdx_eq_zipIdx_map, countP_map]
    conv_lhs => rw [← zipIdx_map_fst 0 m.ops, countP_map]
    refine congrArg Nat.cast (countP_congr fun entry hent => ?_)
    have hmem : entry.1 ∈ m.ops := fst_mem_of_mem_zipIdx hent
    simp only [Function.comp]
    split
    · rw [(hstop _ hmem).2.2]
    · exact Iff.rfl

/-! ## Runs -/

/-- **Every step keeps the invariant and advances every record.** -/
theorem step_spec {action : Action} (hi : Inv m) (h : m.step action = some m') : StepSpec m m' := by
  cases action with
  | start request now =>
    cases h
    exact start_spec hi request now
  | getByID requestID now =>
    cases h
    exact .refl hi
  | stopByID requestID now =>
    cases h
    exact stopByID_spec hi requestID now
  | beginShutdown =>
    cases h
    exact ⟨⟨hi.ops, hi.keys, hi.refs, hi.valid, hi.live, hi.count, hi.bound⟩,
      fun ref op hop => ⟨op, hop, .refl op⟩, rfl⟩
  | startShutdown =>
    simp only [step] at h
    split at h <;> cases h
    exact startShutdown_spec hi
  | cleanupExpired now =>
    cases h
    exact cleanupExpired_spec hi now
  | op ref action =>
    simp only [step] at h
    split at h
    · cases h
    rename_i op hop
    split at h <;> cases h
    rename_i op' released hstep
    have hinv := hi.ops op (mem_of_getElem? hop)
    obtain ⟨hadv, hrel⟩ := Op.advances_step hinv hstep
    refine hi.update (updated_set hi.ops hop (Op.inv_step hinv hstep) hadv) rfl rfl ?_ ?_
    · exact activeCount_set hop hadv hrel hi.count
    · show (if released then m.activeCount - 1 else m.activeCount) ≤ m.activeCount
      split <;> omega

variable {config : Config}

theorem inv_newManager (h : newManager config = .ok m) :
    Inv m ∧ m.maxConcurrent = config.maxConcurrent := by
  unfold newManager at h
  split at h <;> cases h
  rename_i hvalid
  have hpos : ¬ config.maxConcurrent ≤ 0 := by
    intro hle
    simp [validateConfig, hle] at hvalid
  refine ⟨⟨?_, nodup_nil, nodup_nil, ?_, ?_, rfl, ?_⟩, rfl⟩
  · intro op hop
    exact absurd hop not_mem_nil
  · intro entry hent
    exact absurd hent not_mem_nil
  · intro ref op hop
    cases hop
  · exact Int.le_of_lt (not_le.1 hpos)

/-- **Every run.** -/
theorem run_spec (hi : Inv m) (h : Runs.Reachable step m m') : StepSpec m m' :=
  h.invariant (StepSpec.refl hi) fun _ _ _ _ hspec hstep => hspec.trans (step_spec hspec.inv hstep)

/-! ## Capacity -/

/-- The entries of the map whose operation is not terminal. -/
def liveEntries (m : Manager) : List (String × Nat) :=
  m.operations.filter fun entry => m.ops[entry.2]?.any fun op => !isTerminal op.status

/-- Live records and live entries are the same, as records keep their index. -/
theorem length_liveEntries (hi : Inv m) : (liveEntries m).length = liveOps m.ops := by
  let live : Op × Nat → Bool := fun entry => !isTerminal entry.1.status
  have hcnt : liveOps m.ops = ((m.ops.zipIdx.filter live).map Prod.snd).length := by
    rw [length_map, ← countP_eq_length_filter, liveOps]
    conv_lhs => rw [← zipIdx_map_fst 0 m.ops, countP_map]
    rfl
  have hnd : ((m.ops.zipIdx.filter live).map Prod.snd).Nodup := by
    refine List.Nodup.sublist (filter_sublist.map _) ?_
    rw [zipIdx_map_snd]
    exact nodup_range'
  have hrefs : ((liveEntries m).map Prod.snd).Nodup :=
    hi.refs.sublist (filter_sublist.map _)
  rw [hcnt, ← length_map Prod.snd]
  refine ((perm_ext_iff_of_nodup hrefs hnd).2 fun ref => ?_).length_eq
  simp only [mem_map, liveEntries, mem_filter, Option.any_eq_true]
  constructor
  · rintro ⟨entry, ⟨-, op, hop, hlive⟩, rfl⟩
    exact ⟨(op, entry.2), ⟨mem_zipIdx_iff_getElem?.2 hop, hlive⟩, rfl⟩
  · rintro ⟨⟨op, ref'⟩, ⟨hmem, hlive⟩, rfl⟩
    have hop : m.ops[ref']? = some op := mem_zipIdx_iff_getElem?.1 hmem
    have hst : op.status ≠ .terminal := by simpa [live, isTerminal] using hlive
    exact ⟨(op.managed.state.requestID, ref'), ⟨hi.live ref' op hop hst, op, hop, hlive⟩, rfl⟩

/-- **The counter counts the live operations, within the limit.** An operation has lost its
execution iff it is terminal, and from here on no status goes back and no terminal operation
changes. -/
theorem activeCount_eq_live {m₀ m : Manager} (hnew : newManager config = .ok m₀)
    (hm : Runs.Reachable step m₀ m) :
    m.activeCount = (liveEntries m).length ∧
    0 ≤ m.activeCount ∧ m.activeCount ≤ config.maxConcurrent ∧
    (∀ op ∈ m.ops, op.managed.hasExecution = false ↔ op.status = .terminal) ∧
    ∀ m', Runs.Reachable step m m' → ∀ (ref : Nat) (op : Op), m.ops[ref]? = some op →
      ∃ op' : Op, m'.ops[ref]? = some op' ∧ op.status.rank ≤ op'.status.rank ∧
        (op.status = .terminal → op'.managed.state = op.managed.state) := by
  obtain ⟨hinit, hmax⟩ := inv_newManager hnew
  have hspec := run_spec hinit hm
  have hi := hspec.inv
  refine ⟨?_, ?_, ?_, ?_, ?_⟩
  · rw [length_liveEntries hi, hi.count]
  · rw [hi.count]
    exact Int.natCast_nonneg _
  · rw [← hmax, ← hspec.maxConcurrent]
    exact hi.bound
  · intro op hop
    exact Op.hasExecution_iff (hi.ops op hop)
  · intro m' hm' ref op hop
    obtain ⟨op', hop', hadv⟩ := (run_spec hi hm').advances ref op hop
    exact ⟨op', hop', hadv.status, fun ht => by rw [hadv.terminal ht]⟩

def sampleConfig : Config where
  maxConcurrent := 2
  lifecycle :=
    { launchTimeout := 1, stopGracePeriod := 1, finalizationTimeout := 1,
      terminalRetentionPeriod := 1 }

/-- The first operation is stopped before its launch, the second one runs, and a third is
pending. -/
def sampleRun : List Action :=
  [.start { requestID := "a", kind := .tracing, hasExecutor := true } 5, .stopByID "a" 6,
    .op 0 .install, .op 0 .callStart,
    .op 0 (.startReturns (some ⟨true, false, false, "context canceled"⟩)), .op 0 (.afterStart 7),
    .start { requestID := "b", kind := .tracing, hasExecutor := true } 8, .op 1 .install,
    .op 1 .callStart, .op 1 (.startReturns none), .op 1 (.afterStart 9),
    .start { requestID := "c", kind := .profiling, hasExecutor := true } 9]

theorem exists_sampleRun : ∃ m₀ m, newManager sampleConfig = .ok m₀ ∧
    Runs.run step m₀ sampleRun = some m ∧
    m.ops.map Op.status = [.terminal, .running, .pending] ∧ m.activeCount = 2 ∧
    ∃ snapshot, (m.stopByID "b" 10).1 = .ok (snapshot, true) := by
  have hrun : ∃ m, m ∈ Runs.run step
      { maxConcurrent := 2, lifecycle := sampleConfig.lifecycle } sampleRun ∧
      m.ops.map Op.status = [.terminal, .running, .pending] ∧ m.activeCount = 2 ∧
      (m.stopByID "b" 10).1.toOption.map Prod.snd = some true := by decide +kernel
  obtain ⟨m, hrun, hops, hcount, hstop⟩ := hrun
  refine ⟨_, m, rfl, hrun, hops, hcount, ?_⟩
  cases hres : (m.stopByID "b" 10).1 with
  | error err => simp [hres, Except.toOption] at hstop
  | ok result => exact ⟨result.1, by simpa [hres, Except.toOption, Prod.ext_iff] using hstop⟩

theorem activeCount_eq_live_stopped : ∃ m₀ m, newManager sampleConfig = .ok m₀ ∧
    Runs.run step m₀ sampleRun = some m ∧
    m.ops.map Op.status = [.terminal, .running, .pending] ∧ m.activeCount = 2 ∧
    m.activeCount = (liveEntries m).length ∧
    ∀ op ∈ m.ops, op.managed.hasExecution = false ↔ op.status = .terminal := by
  obtain ⟨m₀, m, hnew, hrun, hops, hcount, -⟩ := exists_sampleRun
  have hall := activeCount_eq_live hnew ⟨sampleRun, hrun⟩
  exact ⟨m₀, m, hnew, hrun, hops, hcount, hall.1, hall.2.2.2.1⟩

/-! ## Executor calls -/

/-- From any state a move of the operation brings it closer to its end. -/
theorem exists_op_step (hi : Inv m) (hop : m.ops[ref]? = some op) (hdone : op.phase ≠ .done) :
    ∃ action m' op', m.step (.op ref action) = some m' ∧ m'.ops[ref]? = some op' ∧
      op'.remaining < op.remaining := by
  obtain ⟨action, ⟨op', released⟩, hstep, hless⟩ :=
    Op.exists_step (hi.ops op (mem_of_getElem? hop)) m.lifecycle hdone
  obtain ⟨hlt, -⟩ := List.getElem?_eq_some_iff.1 hop
  refine ⟨action, _, op', by simp only [step, hop, hstep]; rfl, ?_, hless⟩
  exact List.getElem?_set_self hlt

/-- An operation can always be brought to its end: `runOperation` never waits for something
that cannot come. -/
theorem exists_done (hi : Inv m) (hop : m.ops[ref]? = some op) :
    ∃ m' op', Runs.Reachable step m m' ∧ m'.ops[ref]? = some op' ∧ op'.phase = .done := by
  induction hn : op.remaining using Nat.strongRecOn generalizing m op with
  | _ n ih =>
    by_cases hdone : op.phase = .done
    · exact ⟨m, op, .refl m, hop, hdone⟩
    obtain ⟨action, m₁, op₁, hstep, hop₁, hless⟩ := exists_op_step hi hop hdone
    obtain ⟨m', op', hm', hop', hph⟩ :=
      ih op₁.remaining (hn ▸ hless) (step_spec hi hstep).inv hop₁ rfl
    exact ⟨m', op', ((Runs.Reachable.refl m).next hstep).trans hm', hop', hph⟩

/-- A stop that a caller was told to have initiated is recorded. -/
theorem stopInitiated_of_stopByID {snapshot : Operation} (hi : Inv m)
    (h : (m.stopByID requestID now).1 = .ok (snapshot, true)) :
    ∃ ref op op', m.lookup requestID = some (ref, op) ∧
      (m.stopByID requestID now).2.ops[ref]? = some op' ∧ op'.stopInitiated = true := by
  unfold stopByID at h ⊢
  split at h
  · cases h
  rename_i ref op hlk
  split at h
  · cases h
  rename_i hexp
  obtain ⟨-, hop⟩ := lookup_some hlk
  obtain ⟨hlt, -⟩ := List.getElem?_eq_some_iff.1 hop
  simp only [Except.ok.injEq, Prod.mk.injEq] at h
  obtain ⟨-, -, hini⟩ := Op.advances_requestStop (hi.ops op (mem_of_getElem? hop))
  refine ⟨ref, op, op.requestStop.2, hlk, ?_, hini h.2⟩
  simp only [hexp, Bool.false_eq_true, if_false]
  exact List.getElem?_set_self hlt

/-- **The executor of every operation is called as it should be**, whatever it returns:
`Op.Disciplined` says how. The lifecycle can always be completed, and an operation whose stop a
caller was told to have initiated is never published, from then on. -/
theorem operation_disciplined {m₀ m : Manager} (hnew : newManager config = .ok m₀)
    (hm : Runs.Reachable step m₀ m) :
    (∀ op ∈ m.ops, op.Disciplined) ∧
    (∀ (ref : Nat) (op : Op), m.ops[ref]? = some op →
      ∃ m' op', Runs.Reachable step m m' ∧ m'.ops[ref]? = some op' ∧ op'.phase = .done) ∧
    ∀ requestID now snapshot m',
      (m.stopByID requestID now).1 = .ok (snapshot, true) →
      Runs.Reachable step (m.stopByID requestID now).2 m' →
      ∃ ref op op', m.lookup requestID = some (ref, op) ∧ m'.ops[ref]? = some op' ∧
        .publish ∉ op'.finalizeModes := by
  have hi := (run_spec (inv_newManager hnew).1 hm).inv
  refine ⟨?_, ?_, ?_⟩
  · intro op hop
    exact Op.disciplined_of_inv (hi.ops op hop)
  · intro ref op hop
    exact exists_done hi hop
  · intro requestID now snapshot m' hstop hm'
    obtain ⟨ref, op, op₁, hlookup, hop₁, hinitiated⟩ := stopInitiated_of_stopByID hi hstop
    have hspec := run_spec (stopByID_spec hi requestID now).inv hm'
    obtain ⟨op', hop', hadv⟩ := hspec.advances ref op₁ hop₁
    have hdisciplined := Op.disciplined_of_inv (hspec.inv.ops op' (mem_of_getElem? hop'))
    exact ⟨ref, op, op', hlookup, hop', hdisciplined.discarded (hadv.initiated hinitiated)⟩

/-- The one that runs can be brought to its end, and is not published once it is stopped. -/
theorem operation_disciplined_stopped : ∃ m₀ m, newManager sampleConfig = .ok m₀ ∧
    Runs.run step m₀ sampleRun = some m ∧
    m.ops.map Op.status = [.terminal, .running, .pending] ∧ (∀ op ∈ m.ops, op.Disciplined) ∧
    (∃ m' op', Runs.Reachable step m m' ∧ m'.ops[1]? = some op' ∧ op'.phase = .done) ∧
    ∀ m', Runs.Reachable step (m.stopByID "b" 10).2 m' →
      ∃ ref op op', m.lookup "b" = some (ref, op) ∧ m'.ops[ref]? = some op' ∧
        .publish ∉ op'.finalizeModes := by
  obtain ⟨m₀, m, hnew, hrun, hops, -, snapshot, hstopped⟩ := exists_sampleRun
  obtain ⟨hall, hdone, hstop⟩ := operation_disciplined hnew ⟨sampleRun, hrun⟩
  have hsecond : 1 < m.ops.length := by rw [← length_map Op.status, hops]; decide
  exact ⟨m₀, m, hnew, hrun, hops, hall, hdone 1 _ (List.getElem?_eq_getElem hsecond),
    fun m' => hstop "b" 10 snapshot m' hstopped⟩

end Huatuo.Node.Manager
