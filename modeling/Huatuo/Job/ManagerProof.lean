import Mathlib.Data.List.Sort
import Huatuo.Lib.Counter
import Huatuo.Job.Manager
import Huatuo.Job.StorageProof

/-!
# The Job manager: quotas

`quotas` — in every state a manager reaches, `activeTotal` and `activeHosts` count the active
runtimes, and no more Jobs are active than were recovered or than the quota allows.

Counting rests on the registered IDs being distinct. For created Jobs `uuid.NewString` sees to that;
for recovered ones it is the order in which `recover` reads the store, in `Startup.Inv`: every batch
is ascending and lies after all that was read before.
-/

namespace Huatuo.Job

open List
open Counter (Counts)

/-- The key of `activeHosts`. -/
def Supervised.hostKey (s : Supervised) : String × Kind := (s.hostname, s.kind)

/-- What `recover` has read so far: the runtimes made come before the rest of the batch. -/
def Startup.Inv (made : List Supervised) : Startup → Prop
  | .recovering lastReadID batch _ =>
    batch.Pairwise (fun a b => a.id < b.id) ∧
    (∀ s ∈ made, ∀ job ∈ batch, s.id < job.id) ∧
    (∀ s ∈ made, s.id ≤ lastReadID) ∧ (∀ job ∈ batch, job.id ≤ lastReadID) ∧
    (lastReadID = "" → made = [] ∧ batch = [])
  | _ => True

/-- The quota counts only once Jobs are created. -/
def Startup.quota (limit : Int) : Startup → Int
  | .serving => limit
  | _ => 0

namespace Manager

/-- The recovered Jobs of a class. -/
def recoveredBy {κ : Type} [DecidableEq κ] (m : Manager) (cls : Supervised → κ) (k : κ) : Int :=
  m.made.countP fun s => s.recovered ∧ cls s = k

def maxTotalJobs (config : ManagerConfig) (kind : Kind) : Int :=
  match config.policy kind with
  | some policy => policy.maxTotalJobs
  | none => 0

def maxJobsPerHost (config : ManagerConfig) (key : String × Kind) : Int :=
  match config.policy key.2 with
  | some policy => policy.maxJobsPerHost
  | none => 0

/-- A counter is right and within its limit. -/
structure Tally {κ : Type} [DecidableEq κ] (m : Manager) (cls : Supervised → κ)
    (limit : κ → Int) (count : κ → Int) : Prop where
  counts : Counts cls m.active count
  bound : ∀ k, count k ≤ max (m.recoveredBy cls k) (m.startup.quota (limit k))

structure Inv (config : ManagerConfig) (m : Manager) : Prop where
  config_eq : m.config = config
  keys : (m.active.map Supervised.id).Nodup
  made : ∀ s ∈ m.active, s ∈ m.made
  startup : m.startup.Inv m.made
  total : m.Tally Supervised.kind (maxTotalJobs config) m.activeTotal
  hosts : m.Tally Supervised.hostKey (maxJobsPerHost config) m.activeHosts

/-! ## Tallies -/

section Tallies

variable {κ : Type} [DecidableEq κ] {m : Manager} {cls : Supervised → κ} {limit count : κ → Int}

theorem recoveredBy_nonneg (m : Manager) (cls : Supervised → κ) (k : κ) :
    0 ≤ m.recoveredBy cls k := Int.natCast_nonneg _

/-- While Jobs are recovered, only these are active. -/
theorem Tally.le_recovered (h : m.Tally cls limit count)
    (hsup : ∀ n, m.startup.quota n = 0) (k : κ) :
    count k ≤ m.recoveredBy cls k := by
  have hbound := h.bound k
  rw [hsup] at hbound
  exact hbound.trans (max_le le_rfl (recoveredBy_nonneg m cls k))

variable {m' : Manager} {s : Supervised}

/-- A state with the same active runtimes and at least the same bounds. -/
theorem Tally.weaken (h : m.Tally cls limit count) (hact : m'.active = m.active)
    (hmade : m'.made = m.made)
    (hquota : m'.startup = m.startup ∨ ∀ n, m.startup.quota n = 0) : m'.Tally cls limit count where
  counts := by rw [hact]; exact h.counts
  bound := fun k => by
    have hrec : m'.recoveredBy cls k = m.recoveredBy cls k := by
      rw [recoveredBy, recoveredBy, hmade]
    rw [hrec]
    rcases hquota with hsame | hzero
    · rw [hsame]
      exact h.bound k
    · exact (h.le_recovered hzero k).trans (le_max_left _ _)

theorem recoveredBy_concat {made : List Supervised} (hmade : m'.made = made ++ [s])
    (cls : Supervised → κ)
    (k : κ) :
    m'.recoveredBy cls k = (made.countP fun s => s.recovered ∧ cls s = k : Nat) +
      if s.recovered ∧ cls s = k then 1 else 0 := by
  rw [recoveredBy, hmade, countP_append, countP_singleton]
  by_cases hs : s.recovered = true ∧ cls s = k <;> simp [hs]

/-- A runtime is registered: a recovered one, or one for which there is room. -/
theorem Tally.register (h : m.Tally cls limit count) (hact : m'.active = m.active ++ [s])
    (hmade : m'.made = m.made ++ [s]) (hroom : s.recovered = true ∧ (∀ n, m.startup.quota n = 0) ∨
      s.recovered = false ∧ m'.startup = m.startup ∧
        count (cls s) < m.startup.quota (limit (cls s))) :
    m'.Tally cls limit (Function.update count (cls s) (count (cls s) + 1)) where
  counts := by rw [hact]; exact h.counts.add s
  bound := fun k => by
    rw [Counter.update_add_apply, recoveredBy_concat hmade]
    rcases hroom with ⟨hrec, hzero⟩ | ⟨hcre, hsup, hroom⟩
    · have hle := h.le_recovered hzero k
      rw [recoveredBy] at hle
      refine le_trans ?_ (le_max_left _ _)
      simp only [hrec, true_and]
      exact Int.add_le_add_right hle _
    · rw [hsup]
      have hbound := h.bound k
      rw [recoveredBy] at hbound
      by_cases hk : cls s = k
      · subst hk
        rw [if_pos rfl]
        exact le_trans (Int.add_one_le_of_lt hroom) (le_max_right _ _)
      · simpa [hk, hcre] using hbound

/-- A runtime is unregistered. -/
theorem Tally.unregister (h : m.Tally cls limit count) (hkeys : (m.active.map Supervised.id).Nodup)
    (hs : s ∈ m.active) (hact : m'.active = m.active.filter fun s' => s'.id ≠ s.id)
    (hmade : m'.made = m.made) (hsup : m'.startup = m.startup) :
    m'.Tally cls limit (Function.update count (cls s) (count (cls s) + (-1))) where
  counts := by rw [hact]; exact h.counts.remove hkeys hs
  bound := fun k => by
    have hrec : m'.recoveredBy cls k = m.recoveredBy cls k := by
      rw [recoveredBy, recoveredBy, hmade]
    rw [Counter.update_add_apply, hrec, hsup]
    refine le_trans ?_ (h.bound k)
    split <;> omega

end Tallies

/-! ## Registration -/

variable {config : ManagerConfig} {m m' : Manager} {rows : List Job} {lastReadID id : String}
  {now : Time} {request : CreateRequest}

/-- A state that differs in nothing that is counted. -/
theorem Inv.frame (hi : Inv config m) (hact : m'.active = m.active) (hmade : m'.made = m.made)
    (hcon : m'.config = m.config) (htotal : m'.activeTotal = m.activeTotal)
    (hhosts : m'.activeHosts = m.activeHosts)
    (hquota : m'.startup = m.startup ∨ ∀ n, m.startup.quota n = 0)
    (hsup : m'.startup.Inv m'.made) : Inv config m' where
  config_eq := hcon.trans hi.config_eq
  keys := by rw [hact]; exact hi.keys
  made := by rw [hact, hmade]; exact hi.made
  startup := hsup
  total := by rw [htotal]; exact hi.total.weaken hact hmade hquota
  hosts := by rw [hhosts]; exact hi.hosts.weaken hact hmade hquota

/-- A runtime with a new ID goes to the end of the active ones. -/
theorem active_register {s : Supervised} (hi : Inv config m) (hid : ∀ s' ∈ m.made, s'.id ≠ s.id) :
    (m.register s).active = m.active ++ [s] := by
  rw [register]
  dsimp only
  rw [filter_eq_self.2 fun s' hs' => by simpa using hid s' (hi.made s' hs')]

/-- A runtime with a new ID is registered. -/
theorem Inv.register {s : Supervised} (hi : Inv config m) (hid : ∀ s' ∈ m.made, s'.id ≠ s.id)
    (hact : m'.active = (m.register s).active) (hmade : m'.made = m.made ++ [s])
    (hcon : m'.config = m.config) (htotal : m'.activeTotal = (m.register s).activeTotal)
    (hhosts : m'.activeHosts = (m.register s).activeHosts) (hsup : m'.startup.Inv m'.made)
    (hroom : s.recovered = true ∧ (∀ n, m.startup.quota n = 0) ∨
      s.recovered = false ∧ m'.startup = m.startup ∧
        m.activeTotal s.kind < m.startup.quota (maxTotalJobs config s.kind) ∧
        m.activeHosts s.hostKey < m.startup.quota (maxJobsPerHost config s.hostKey)) :
    Inv config m' := by
  have hact : m'.active = m.active ++ [s] := hact.trans (active_register hi hid)
  refine ⟨hcon.trans hi.config_eq, ?_, ?_, hsup, ?_, ?_⟩
  · rw [hact, map_append, nodup_append]
    refine ⟨hi.keys, nodup_singleton _, ?_⟩
    rintro id hmem _ hs rfl
    obtain ⟨s', hs', rfl⟩ := mem_map.1 hmem
    exact hid s' (hi.made s' hs') (mem_singleton.1 hs)
  · intro s' hs'
    rw [hact] at hs'
    rw [hmade]
    exact (mem_append.1 hs').elim (fun h => mem_append_left _ (hi.made s' h))
      (mem_append_right _)
  · rw [htotal]
    refine hi.total.register hact hmade ?_
    exact hroom.imp_right fun h => ⟨h.1, h.2.1, h.2.2.1⟩
  · rw [hhosts]
    refine hi.hosts.register hact hmade ?_
    exact hroom.imp_right fun h => ⟨h.1, h.2.1, h.2.2.2⟩

theorem Inv.unregister (hi : Inv config m) (s : Supervised) : Inv config (m.unregister s) := by
  unfold Manager.unregister
  split
  · exact hi
  rename_i current hfind
  split
  · exact hi
  rename_i hcur
  obtain rfl : current = s := Decidable.not_not.1 hcur
  have hmem := mem_of_find?_eq_some hfind
  refine ⟨hi.config_eq, ?_, ?_, hi.startup, ?_, ?_⟩
  · exact hi.keys.sublist (filter_sublist.map _)
  · intro s' hs'
    exact hi.made s' (mem_of_mem_filter hs')
  · exact hi.total.unregister hi.keys hmem rfl rfl rfl
  · exact hi.hosts.unregister hi.keys hmem rfl rfl rfl

/-! ## Recovery -/

/-- Rows with distinct IDs, sorted by ID. -/
theorem mergeSort_id_sorted (hrows : (rows.map Job.id).Nodup) :
    (rows.mergeSort fun a b => a.id ≤ b.id).Pairwise fun a b => a.id < b.id := by
  have hsort : (rows.mergeSort fun a b => a.id ≤ b.id).Pairwise
      fun a b => decide (a.id ≤ b.id) = true := by
    refine pairwise_mergeSort ?_ ?_ rows
    · intro a b c hab hbc
      simp only [decide_eq_true_eq] at hab hbc ⊢
      exact le_trans hab hbc
    · intro a b
      simpa using le_total a.id b.id
  have hdist : (rows.mergeSort fun a b => a.id ≤ b.id).Pairwise fun a b => a.id ≠ b.id :=
    pairwise_map.1 (((mergeSort_perm rows _).map Job.id).nodup_iff.2 hrows)
  refine (hsort.and hdist).imp fun h => ?_
  exact lt_of_le_of_ne (of_decide_eq_true h.1) h.2

theorem listRecoverable_sorted (hrows : (rows.map Job.id).Nodup) (lastReadID : String) :
    (listRecoverable rows lastReadID).Pairwise fun a b => a.id < b.id :=
  List.Pairwise.sublist (take_sublist _ _)
    (mergeSort_id_sorted (hrows.sublist (filter_sublist.map _)))

variable {job : Job}

theorem lastReadID_lt (h : job ∈ listRecoverable rows lastReadID) :
    lastReadID = "" ∨ lastReadID < job.id := by
  have hfil := (mem_filter.1 ((mergeSort_perm _ _).subset (mem_of_mem_take h))).2
  simp only [decide_eq_true_eq] at hfil
  exact hfil.2

variable {isLast : Bool}

theorem listBatch_inv (hi : Inv config m) (hsup : m.startup = .recovering lastReadID [] isLast) :
    Inv config (m.listBatch lastReadID) := by
  have hquota : ∀ n, m.startup.quota n = 0 := by rw [hsup]; exact fun _ => rfl
  have hread := hi.startup
  rw [hsup] at hread
  obtain ⟨-, -, hmade, -, hemp⟩ := hread
  unfold listBatch
  dsimp only
  split
  · exact hi.frame rfl rfl rfl rfl rfl (Or.inr hquota) trivial
  rename_i hvalid
  split
  · exact hi.frame rfl rfl rfl rfl rfl (Or.inr hquota) trivial
  rename_i last hlast
  refine hi.frame rfl rfl rfl rfl rfl (Or.inr hquota) ?_
  have hsort := listRecoverable_sorted m.rows.2 lastReadID
  have hle : ∀ job ∈ listRecoverable m.rows.1 lastReadID, job.id ≤ last.id := by
    intro job hjob
    obtain ⟨earlier, hsplit⟩ := List.getLast?_eq_some_iff.1 hlast
    rw [hsplit] at hjob hsort
    rcases mem_append.1 hjob with hjob | hjob
    · exact le_of_lt ((pairwise_append.1 hsort).2.2 job hjob last
        (mem_singleton_self _))
    · rw [mem_singleton.1 hjob]
  have hafter : ∀ s ∈ m.made, ∀ job ∈ listRecoverable m.rows.1 lastReadID, s.id < job.id := by
    intro s hs job hjob
    rcases lastReadID_lt hjob with hnone | hlt
    · rw [(hemp hnone).1] at hs
      exact absurd hs not_mem_nil
    · exact lt_of_le_of_lt (hmade s hs) hlt
  have hmem := mem_of_getLast? hlast
  refine ⟨hsort, hafter, fun s hs => le_of_lt (hafter s hs last hmem), hle, ?_⟩
  -- a Job that was decoded has an ID
  intro hid
  have hsto : last.validateStored = .ok () := by
    simpa using any_eq_false.1 (Bool.eq_false_iff.2 hvalid) last hmem
  exact absurd hid (validateStored_eq_ok.1 hsto).id

theorem recoverJob_inv {storedJob : Job} {rest : List Job} (hi : Inv config m)
    (hsup : m.startup = .recovering lastReadID (storedJob :: rest) isLast) :
    Inv config (m.recoverJob lastReadID storedJob rest isLast) := by
  have hquota : ∀ n, m.startup.quota n = 0 := by rw [hsup]; exact fun _ => rfl
  have hread := hi.startup
  rw [hsup] at hread
  obtain ⟨hsort, hafter, hmade, hle, hemp⟩ := hread
  unfold recoverJob
  split
  · exact hi.frame rfl rfl rfl rfl rfl (Or.inr hquota) trivial
  refine hi.register (s := m.newRuntime storedJob true) ?_ rfl rfl rfl rfl rfl ?_
    (Or.inl ⟨rfl, hquota⟩)
  · intro s' hs'
    exact ne_of_lt (hafter s' hs' storedJob mem_cons_self)
  · dsimp only
    split
    · trivial
    refine ⟨(pairwise_cons.1 hsort).2, ?_, ?_, ?_, ?_⟩
    · intro s hs job hjob
      rcases mem_append.1 hs with hs | hs
      · exact hafter s hs job (mem_cons_of_mem _ hjob)
      · rw [mem_singleton.1 hs]
        exact (pairwise_cons.1 hsort).1 job hjob
    · intro s hs
      rcases mem_append.1 hs with hs | hs
      · exact hmade s hs
      · rw [mem_singleton.1 hs]
        exact hle storedJob mem_cons_self
    · exact fun job hjob => hle job (mem_cons_of_mem _ hjob)
    · exact fun hid => absurd (hemp hid).2 (cons_ne_nil _ _)

/-! ## Create -/

theorem isExhausted_eq_false {policy : Policy} (h : ¬ m.isExhausted policy job = true) :
    m.activeTotal job.kind < policy.maxTotalJobs ∧
      m.activeHosts (job.hostname, job.kind) < policy.maxJobsPerHost := by
  simpa [isExhausted] using h

/-- A successful `Create` found room and registered a runtime. -/
theorem create_eq_ok (h : m.create request id now = .ok m') :
    ∃ s : Supervised, s.id = id ∧ s.recovered = false ∧
      m.activeTotal s.kind < maxTotalJobs m.config s.kind ∧
      m.activeHosts s.hostKey < maxJobsPerHost m.config s.hostKey ∧
      m' = { m.register s with creating := m.creating ++ [s], made := m.made ++ [s] } := by
  unfold create at h
  split at h
  · cases h
  dsimp only at h
  split at h
  · cases h
  split at h
  · cases h
  rename_i policy hpol
  split at h
  · cases h
  rename_i hroom
  obtain ⟨htotal, hhosts⟩ := isExhausted_eq_false hroom
  refine ⟨m.newRuntime (request.newJob id now) false, rfl, rfl, ?_, ?_,
    (Except.ok.inj h).symm⟩
  · simpa [maxTotalJobs, newRuntime, hpol] using htotal
  · simpa [maxJobsPerHost, newRuntime, Supervised.hostKey, hpol] using hhosts

theorem create_inv (hi : Inv config m) (hser : m.startup = .serving) (hid : ∀ s ∈ m.made, s.id ≠ id)
    (h : m.create request id now = .ok m') : Inv config m' := by
  obtain ⟨s, rfl, hcre, htotal, hhosts, rfl⟩ := create_eq_ok h
  refine hi.register (s := s) hid rfl rfl rfl rfl rfl ?_ (Or.inr ⟨hcre, rfl, ?_, ?_⟩)
  · exact hser ▸ trivial
  · rw [hser, ← hi.config_eq]
    exact htotal
  · rw [hser, ← hi.config_eq]
    exact hhosts

/-! ## Runs -/

variable {rows : { rows : List Job // (rows.map Job.id).Nodup }}

theorem inv_new (h : new config rows = .ok m) : Inv config m := by
  unfold new at h
  split at h <;> cases h
  refine ⟨rfl, nodup_nil, fun s hs => absurd hs not_mem_nil, ?_,
    ⟨Counter.counts_nil _, ?_⟩, ⟨Counter.counts_nil _, ?_⟩⟩
  · refine ⟨List.Pairwise.nil, ?_, ?_, ?_, fun _ => ⟨rfl, rfl⟩⟩
    · exact fun s hs => absurd hs not_mem_nil
    · exact fun s hs => absurd hs not_mem_nil
    · exact fun job hjob => absurd hjob not_mem_nil
  · exact fun k => le_max_right _ _
  · exact fun k => le_max_right _ _

theorem step_create (h : m.step (.create request id now) = some m') :
    m.startup = .serving ∧
      (m' = m ∨ (∀ s ∈ m.made, s.id ≠ id) ∧ m.create request id now = .ok m') := by
  simp only [step] at h
  split at h
  · rename_i hserving
    split at h
    · cases h
    rename_i hfresh
    refine ⟨hserving, ?_⟩
    split at h <;> cases h
    · exact .inl rfl
    · rename_i hcreate
      exact .inr ⟨by simpa using hfresh, hcreate⟩
  · cases h

theorem inv_step {a : Action} (hi : Inv config m) (h : m.step a = some m') : Inv config m' := by
  cases a with simp only [step] at h
  | store rows =>
    cases h
    exact hi.frame rfl rfl rfl rfl rfl (Or.inl rfl) hi.startup
  | list failed =>
    split at h <;> cases h
    rename_i lastReadID isLast hsup
    split
    · refine hi.frame rfl rfl rfl rfl rfl (Or.inr ?_) trivial
      rw [hsup]
      exact fun _ => rfl
    · exact listBatch_inv hi hsup
  | recoverJob =>
    split at h <;> cases h
    rename_i lastReadID storedJob rest isLast hsup
    exact recoverJob_inv hi hsup
  | create request id now =>
    obtain ⟨hserving, rfl | ⟨hfresh, hcreate⟩⟩ := step_create h
    · exact hi
    · exact create_inv hi hserving hfresh hcreate
  | createReturns runtime failed =>
    split at h <;> cases h
    split
    · refine Inv.unregister ?_ runtime
      exact hi.frame rfl rfl rfl rfl rfl (Or.inl rfl) hi.startup
    · exact hi.frame rfl rfl rfl rfl rfl (Or.inl rfl) hi.startup
  | runReturns runtime =>
    split at h <;> cases h
    refine Inv.unregister ?_ runtime
    exact hi.frame rfl rfl rfl rfl rfl (Or.inl rfl) hi.startup
  | shutdown =>
    split at h <;> cases h
    exact hi.frame rfl rfl rfl rfl rfl (Or.inl rfl) hi.startup

theorem inv_of_reachable {m₀ : Manager} (hnew : new config rows = .ok m₀)
    (hm : Runs.Reachable step m₀ m) : Inv config m :=
  hm.invariant (inv_new hnew) fun _ _ _ _ hi hs => inv_step hi hs

/-- `Create` adds to one class, in which there is room. -/
theorem create_bound (h : m.create request id now = .ok m') :
    (∀ kind, m.activeTotal kind < m'.activeTotal kind →
      m'.activeTotal kind ≤ maxTotalJobs m.config kind) ∧
    ∀ key, m.activeHosts key < m'.activeHosts key →
      m'.activeHosts key ≤ maxJobsPerHost m.config key := by
  obtain ⟨s, -, -, htotal, hhosts, rfl⟩ := create_eq_ok h
  constructor
  · intro kind hlt
    simp only [register, addTotal, Counter.update_add_apply] at hlt ⊢
    split at hlt
    · subst kind
      simpa using Int.add_one_le_of_lt htotal
    · exact absurd hlt (by simp)
  · intro key hlt
    simp only [register, addHosts, Counter.update_add_apply] at hlt ⊢
    split at hlt
    · subst key
      simpa [Supervised.hostKey] using Int.add_one_le_of_lt hhosts
    · exact absurd hlt (by simp)

/-- The bound that a tally keeps, whether or not Jobs are created yet. -/
theorem Tally.le_max {κ : Type} [DecidableEq κ] {cls : Supervised → κ} {limit count : κ → Int}
    (h : m.Tally cls limit count) (k : κ) : count k ≤ max (m.recoveredBy cls k) (limit k) := by
  refine (h.bound k).trans ?_
  cases m.startup with
  | serving => exact le_rfl
  | recovering lastReadID batch isLast =>
    exact (max_le le_rfl (recoveredBy_nonneg m cls k)).trans (le_max_left _ _)
  | failed => exact (max_le le_rfl (recoveredBy_nonneg m cls k)).trans (le_max_left _ _)

/-- **The counters and the quotas.** In every reachable state `activeTotal` and `activeHosts` count
the registered runtimes; `Create` does not raise them above the limits, so that they stay within the
larger of the limit and the number of recovered Jobs. -/
theorem quotas {m₀ m : Manager} (hnew : new config rows = .ok m₀) (hm : Runs.Reachable step m₀ m) :
    (m.active.map Supervised.id).Nodup ∧
    (∀ kind, m.activeTotal kind = m.active.countP fun s => s.kind = kind) ∧
    (∀ host kind, m.activeHosts (host, kind) =
      m.active.countP fun s => s.hostname = host ∧ s.kind = kind) ∧
    (∀ kind, 0 ≤ m.activeTotal kind) ∧ (∀ key, 0 ≤ m.activeHosts key) ∧
    (∀ request id now m', m.create request id now = .ok m' →
      ∀ kind policy, config.policy kind = some policy →
        (m.activeTotal kind < m'.activeTotal kind → m'.activeTotal kind ≤ policy.maxTotalJobs) ∧
        ∀ host, m.activeHosts (host, kind) < m'.activeHosts (host, kind) →
          m'.activeHosts (host, kind) ≤ policy.maxJobsPerHost) ∧
    ∀ kind policy, config.policy kind = some policy →
      m.activeTotal kind ≤ max (m.recoveredBy Supervised.kind kind) policy.maxTotalJobs ∧
      ∀ host, m.activeHosts (host, kind) ≤
        max (m.recoveredBy Supervised.hostKey (host, kind)) policy.maxJobsPerHost := by
  have hi := inv_of_reachable hnew hm
  refine ⟨hi.keys, hi.total.counts, ?_, hi.total.counts.nonneg, hi.hosts.counts.nonneg, ?_, ?_⟩
  · intro host kind
    simp [hi.hosts.counts (host, kind), Supervised.hostKey]
  · intro request id now m' hcreate kind policy hpolicy
    have hbound := create_bound hcreate
    rw [hi.config_eq] at hbound
    refine ⟨fun hlt => ?_, fun host hlt => ?_⟩
    · simpa only [maxTotalJobs, hpolicy] using hbound.1 kind hlt
    · simpa only [maxJobsPerHost, hpolicy] using hbound.2 (host, kind) hlt
  · intro kind policy hpolicy
    refine ⟨?_, fun host => ?_⟩
    · simpa only [maxTotalJobs, hpolicy] using hi.total.le_max kind
    · simpa only [maxJobsPerHost, hpolicy] using hi.hosts.le_max (host, kind)

def sampleConfig : ManagerConfig where
  storeDSN := "file:jobs.db"
  profilingPolicy := { maxJobsPerHost := 1, maxTotalJobs := 1 }
  tracingPolicy := { maxJobsPerHost := 1, maxTotalJobs := 1 }
  statusPollInterval := Duration.second
  pendingTimeout := Duration.second
  completionGracePeriod := Duration.second
  nodeUnavailableGracePeriod := Duration.second
  jobRetentionPeriod := Duration.second

def sampleRows : { rows : List Job // (rows.map Job.id).Nodup } :=
  ⟨[sampleJob, { sampleJob with id := "job2", hostname := "node2" }], by decide⟩

theorem listBatch_sampleRows (hrows : m.rows = sampleRows) :
    m.listBatch "" = { m with startup := .recovering "job2" sampleRows.1 true } := by
  have hlist : listRecoverable sampleRows.1 "" = sampleRows.1 := by
    unfold listRecoverable sampleRows
    simp [isRecoverable, sampleJob, List.mergeSort, jobBatchSize]
  unfold listBatch
  rw [hrows, hlist]
  rfl

/-- Two Jobs are recovered and one of them completes. -/
def sampleRun : List Action :=
  [.list false, .recoverJob, .recoverJob,
    .runReturns
      { address := 0, id := "job", kind := .profiling, hostname := "node", recovered := true }]

theorem quotas_recovered : ∃ m₀ m, new sampleConfig sampleRows = .ok m₀ ∧
    Runs.run step m₀ sampleRun = some m ∧
    m.activeTotal .profiling = 1 ∧ m.recoveredBy Supervised.kind .profiling = 2 ∧
    m.activeTotal .profiling ≤ max (m.recoveredBy Supervised.kind .profiling) 1 := by
  have hnew : new sampleConfig sampleRows = .ok _ := rfl
  have hrun : ∃ m, Runs.run step { config := sampleConfig, rows := sampleRows } sampleRun = some m ∧
      m.activeTotal .profiling = 1 ∧ m.recoveredBy Supervised.kind .profiling = 2 := by
    unfold sampleRun Runs.run step
    dsimp only
    rw [if_neg Bool.false_ne_true, listBatch_sampleRows rfl]
    exact ⟨_, rfl, rfl, rfl⟩
  obtain ⟨m, hrun, htotal, hrecovered⟩ := hrun
  refine ⟨_, m, hnew, hrun, htotal, hrecovered, ?_⟩
  exact ((quotas hnew ⟨_, hrun⟩).2.2.2.2.2.2 .profiling _ rfl).1

end Manager

end Huatuo.Job
