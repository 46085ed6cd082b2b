import Huatuo.Profiling.AggregatorProof
import Huatuo.Profiling.Pipeline

/-!
# What goes into the pipeline comes out of it

`conserved` — when `Run` returns without an error, the windows together hold, for each identity, the
sum of the values of all samples that were enqueued, and all drops; if totals are retained, each
window holds the totals of its moment, with the negative ones set to zero.

The dictionaries of a window must not outgrow their 32-bit IDs, and the drops must fit into 64 bits;
`drops_wrap` shows what happens otherwise. What one window does to its samples does not show in
another one or in the aggregator, because their slices stay apart (`Heap.Keeps`).
-/

namespace Huatuo.Profiling

open List
open Aggregator (Represents sumOf)

/-! ## Samples in the heap -/

section Heap

variable {hash : Hashes} {heap : Heap AggregatedSample} {a : Aggregator}

theorem keeps_add (sample : Option Sample) :
    heap.Keeps a.profile.samples (a.add hash heap sample).2.1
      (a.add hash heap sample).2.2.profile.samples := by
  rcases Aggregator.add_cases hash heap a sample with
    ⟨err, hadd⟩ | ⟨s, -, ⟨i, old, value, -, -, -, hadd⟩ | ⟨-, hadd⟩⟩
  · rw [hadd]
    exact .refl _ _
  · rw [hadd]
    exact Heap.keeps_write
  · simpa [hadd, Aggregator.appended, Aggregator.appendSample,
      (Aggregator.grows_insertEntries _ _ _).samples] using Heap.keeps_append

/-- A value that is not negative. -/
def clampValue (sample : AggregatedSample) : AggregatedSample :=
  if 0 ≤ sample.value then sample else { sample with value := 0 }

theorem getElem?_clampSample (samples : Slice) (i j : Nat) :
    ((clampSample samples heap i).read samples)[j]? =
      if i = j then ((heap.read samples)[j]?).map clampValue else (heap.read samples)[j]? := by
  by_cases hij : i = j
  · subst hij
    rw [if_pos rfl]
    unfold clampSample
    split
    · rename_i hnone
      rw [hnone]
      rfl
    · rename_i sample hsome
      rw [hsome, Option.map_some, clampValue]
      split
      · exact hsome
      · rw [Heap.read_write_self, List.getElem?_set_self (List.getElem?_eq_some_iff.1 hsome).1]
  · rw [if_neg hij]
    unfold clampSample
    split
    · rfl
    split
    · rfl
    · rw [Heap.read_write_self, List.getElem?_set_ne hij]

theorem keeps_clampSample (samples : Slice) (i : Nat) :
    heap.Keeps samples (clampSample samples heap i) samples := by
  unfold clampSample
  split
  · exact .refl _ _
  split
  · exact .refl _ _
  · exact Heap.keeps_write

theorem keeps_clampNegativeSamples (profile : AggregatedProfile) :
    heap.Keeps profile.samples (clampNegativeSamples heap profile) profile.samples := by
  unfold clampNegativeSamples
  generalize List.range profile.samples.len = indexes
  induction indexes generalizing heap with
  | nil => exact .refl _ _
  | cons i indexes ih => exact (keeps_clampSample _ i).trans ih

/-- Clamping sets what is negative to zero. -/
theorem read_clampNegativeSamples {profile : AggregatedProfile}
    (hvalid : heap.Valid profile.samples) :
    (clampNegativeSamples heap profile).read profile.samples =
      (heap.read profile.samples).map clampValue := by
  have hloop (n j : Nat) :
      (((List.range n).foldl (clampSample profile.samples) heap).read profile.samples)[j]? =
        if j < n then ((heap.read profile.samples)[j]?).map clampValue
        else (heap.read profile.samples)[j]? := by
    induction n with
    | zero => rfl
    | succ n ih =>
      rw [range_succ, foldl_append, foldl_cons, foldl_nil,
        getElem?_clampSample, ih]
      rcases Nat.lt_trichotomy j n with hlt | rfl | hgt
      · rw [if_neg (Nat.ne_of_gt hlt), if_pos hlt, if_pos (Nat.lt_succ_of_lt hlt)]
      · rw [if_pos rfl, if_neg (Nat.lt_irrefl j), if_pos (Nat.lt_succ_self j)]
      · rw [if_neg (Nat.ne_of_lt hgt), if_neg (Nat.not_lt.2 (Nat.le_of_lt hgt)),
          if_neg (Nat.not_lt.2 hgt)]
  refine ext_getElem? fun j => ?_
  rw [clampNegativeSamples, hloop, List.getElem?_map]
  split
  · rfl
  rename_i hge
  rw [List.getElem?_eq_none (by rw [hvalid.length_read]; exact Nat.not_lt.1 hge)]
  rfl

end Heap

/-! ## Batches -/

section Batches

variable {config : PipelineConfig} {heap heap' : Heap AggregatedSample} {a a' : Aggregator}
  {contents : List (List ProfileFrame)} {entries : List (Identity × Int)} {i : Nat}
  {samples : List Sample}

theorem addAll_cons {sample : Sample}
    (h : Pipeline.addAll config heap a i (sample :: samples) = .ok (heap', a')) :
    (a.add config.hash heap (some sample)).1 = .ok () ∧
      Pipeline.addAll config (a.add config.hash heap (some sample)).2.1
        (a.add config.hash heap (some sample)).2.2 (i + 1) samples = .ok (heap', a') := by
  unfold Pipeline.addAll at h
  split at h
  · cases h
  rename_i hadd
  rw [hadd]
  exact ⟨rfl, h⟩

theorem keeps_addAll (h : Pipeline.addAll config heap a i samples = .ok (heap', a')) :
    heap.Keeps a.profile.samples heap' a'.profile.samples := by
  induction samples generalizing heap a i with
  | nil =>
    cases h
    exact .refl _ _
  | cons sample samples ih => exact (keeps_add _).trans (ih (addAll_cons h).2)

theorem small_of_addAll (h : Pipeline.addAll config heap a i samples = .ok (heap', a'))
    (hsm : a'.profile.Small) : a.profile.Small := by
  induction samples generalizing heap a i with
  | nil =>
    cases h
    exact hsm
  | cons sample samples ih => exact Aggregator.small_of_add (ih (addAll_cons h).2)

theorem len_pos_of_add {sample : Option Sample} (h : (a.add config.hash heap sample).1 = .ok ()) :
    0 < (a.add config.hash heap sample).2.2.profile.samples.len := by
  rcases Aggregator.add_cases config.hash heap a sample with
    ⟨err, hadd⟩ | ⟨s, -, ⟨i, old, value, -, hget, -, hadd⟩ | ⟨-, hadd⟩⟩
  · simp [hadd] at h
  · rw [hadd]
    have hlt := (List.getElem?_eq_some_iff.1 hget).1
    exact Nat.lt_of_le_of_lt (Nat.zero_le i) (Nat.lt_of_lt_of_le hlt (length_take_le _ _))
  · rw [hadd]
    exact Heap.append_len_pos

theorem len_pos_of_addAll (h : Pipeline.addAll config heap a i samples = .ok (heap', a'))
    (hpos : 0 < a.profile.samples.len) : 0 < a'.profile.samples.len := by
  induction samples generalizing heap a i with
  | nil =>
    cases h
    exact hpos
  | cons sample samples ih =>
    obtain ⟨hadd, hrest⟩ := addAll_cons h
    exact ih hrest (len_pos_of_add hadd)

/-- A batch after which there are no samples had none. -/
theorem addAll_eq_self (h : Pipeline.addAll config heap a i samples = .ok (heap', a'))
    (hlen : a'.profile.samples.len = 0) : a' = a := by
  cases samples with
  | nil =>
    cases h
    rfl
  | cons sample samples =>
    obtain ⟨hadd, hrest⟩ := addAll_cons h
    exact absurd hlen (Nat.ne_of_gt (len_pos_of_addAll hrest (len_pos_of_add hadd)))

/-- The samples of a batch are booked one after the other. -/
theorem represents_addAll (hr : Represents config.hash heap a contents entries)
    (h : Pipeline.addAll config heap a i samples = .ok (heap', a')) (hsm : a'.profile.Small) :
    ∃ contents', Represents config.hash heap' a' contents'
      (Ledger.postAll entries (samples.map Sample.booking)) := by
  induction samples generalizing heap a i contents entries with
  | nil =>
    cases h
    exact ⟨contents, hr⟩
  | cons sample samples ih =>
    obtain ⟨hadd, hrest⟩ := addAll_cons h
    obtain ⟨s, contents', hs, hr'⟩ := hr.add hadd (small_of_addAll hrest hsm)
    cases hs
    exact ih hr' hrest

end Batches

/-! ## The invariant -/

def samplesOf (batches : List SampleBatch) : List Sample := batches.flatMap SampleBatch.samples

def dropsOf (batches : List SampleBatch) : Nat :=
  (batches.map fun batch => batch.dropped.toNat).sum

/-- What a profile holds for an identity. -/
def AggregatedProfile.valueOf (heap : Heap AggregatedSample) (profile : AggregatedProfile)
    (identity : Identity) : Int :=
  Ledger.total ((profile.decode heap).filterMap fun entry => entry) identity

/-- What all windows together hold for an identity. -/
def shown (heap : Heap AggregatedSample) (emitted : List Emission) (identity : Identity) : Int :=
  (emitted.map fun e => e.window.aggregated.valueOf heap identity).sum

/-- The drops that all windows together report. -/
def droppedIn (emitted : List Emission) : Nat :=
  (emitted.map fun e => (e.window.droppedSamples.getD 0).toNat).sum

def clampEntry (entry : Identity × Int) : Identity × Int := (entry.1, max 0 entry.2)

/-- The ledger of the samples of some batches. -/
def ledgerOf (batches : List SampleBatch) : List (Identity × Int) :=
  Ledger.replay ((samplesOf batches).map Sample.booking)

namespace Pipeline

structure Inv (config : PipelineConfig) (p : Pipeline) : Prop where
  queue : p.accepted = p.consumed ++ p.queue.map QueuedBatch.batch
  valid : p.heap.Valid p.aggregator.profile.samples
  windows : ∀ e ∈ p.emitted, p.heap.Valid e.window.aggregated.samples ∧
    Heap.Apart e.window.aggregated.samples p.aggregator.profile.samples
  consumed : ∀ e ∈ p.emitted, e.consumed <+: p.consumed
  drained : config.retain = false → (∀ e ∈ p.emitted, e.window.aggregated.Small) →
    p.aggregator.profile.Small →
    ∃ contents entries, Represents config.hash p.heap p.aggregator contents entries ∧
      ∀ identity, shown p.heap p.emitted identity + Ledger.total entries identity =
        sumOf (samplesOf p.consumed) identity
  retained : config.retain = true → p.aggregator.profile.Small →
    ∃ contents, Represents config.hash p.heap p.aggregator contents (ledgerOf p.consumed)
  clamped : config.retain = true → ∀ e ∈ p.emitted, e.window.aggregated.Small →
    e.window.aggregated.decode p.heap = ((ledgerOf e.consumed).map clampEntry).map some
  drops : dropsOf p.consumed < 2 ^ 64 →
    droppedIn p.emitted + (p.droppedSamples.getD 0).toNat = dropsOf p.consumed ∧
      p.droppedSamples ≠ some 0 ∧ ∀ e ∈ p.emitted, e.window.droppedSamples ≠ some 0
  nonempty : config.retain = false → ∀ e ∈ p.emitted,
    e.window.aggregated.samples.len ≠ 0 ∨ e.window.droppedSamples.isSome = true
  unused : p.aggregator.profile.samples.len = 0 → p.aggregator.profile.Small
  finished : p.result = some (.ok ()) → p.queue = [] ∧ p.closed = true ∧
    (config.retain = false → p.aggregator.profile.samples.len = 0 ∧ p.droppedSamples = none)

variable {config : PipelineConfig} {p p' : Pipeline}

theorem small_new : AggregatedProfile.Small {} := ⟨by decide, by decide, by decide⟩

theorem inv_newPipeline : Inv config (newPipeline config) where
  queue := rfl
  valid := Heap.valid_nil
  windows := fun _ h => absurd h not_mem_nil
  consumed := fun _ h => absurd h not_mem_nil
  drained := fun _ _ _ => ⟨[], [], Aggregator.represents_new, fun _ => rfl⟩
  retained := fun _ _ => ⟨[], Aggregator.represents_new⟩
  clamped := fun _ _ h => absurd h not_mem_nil
  drops := fun _ => ⟨rfl, nofun, fun _ h => absurd h not_mem_nil⟩
  nonempty := fun _ _ h => absurd h not_mem_nil
  unused := fun _ => small_new
  finished := nofun

variable {heap heap' : Heap AggregatedSample} {profile : AggregatedProfile}
  {entries : List (Identity × Int)}

theorem decode_congr (h : heap'.read profile.samples = heap.read profile.samples) :
    profile.decode heap' = profile.decode heap := by
  rw [AggregatedProfile.decode, AggregatedProfile.decode, h]

theorem shown_congr {emitted : List Emission}
    (h : ∀ e ∈ emitted, heap'.read e.window.aggregated.samples =
      heap.read e.window.aggregated.samples)
    (identity : Identity) : shown heap' emitted identity = shown heap emitted identity := by
  unfold shown
  refine congrArg List.sum (map_congr_left fun e he => ?_)
  rw [AggregatedProfile.valueOf, AggregatedProfile.valueOf, decode_congr (h e he)]

theorem sumOf_append (samples samples' : List Sample) (identity : Identity) :
    sumOf (samples ++ samples') identity = sumOf samples identity + sumOf samples' identity := by
  simp [sumOf]

theorem samplesOf_concat (batches : List SampleBatch) (batch : SampleBatch) :
    samplesOf (batches ++ [batch]) = samplesOf batches ++ batch.samples := by
  simp [samplesOf]

theorem dropsOf_concat (batches : List SampleBatch) (batch : SampleBatch) :
    dropsOf (batches ++ [batch]) = dropsOf batches + batch.dropped.toNat := by
  simp [dropsOf]

theorem ledgerOf_concat (batches : List SampleBatch) (batch : SampleBatch) :
    ledgerOf (batches ++ [batch]) =
      Ledger.postAll (ledgerOf batches) (batch.samples.map Sample.booking) := by
  rw [ledgerOf, samplesOf_concat, map_append, Ledger.replay, Ledger.postAll_append]
  rfl

/-! ## Steps -/

theorem Inv.enqueue (hi : Inv config p) (hopen : p.closed = false) (batch : SampleBatch)
    (now : Time) :
    Inv config { p with
      queue := p.queue ++ [{ batch := batch, enqueuedAt := now }]
      accepted := p.accepted ++ [batch] } where
  queue := by simp [hi.queue]
  valid := hi.valid
  windows := hi.windows
  consumed := hi.consumed
  drained := hi.drained
  retained := hi.retained
  clamped := hi.clamped
  drops := hi.drops
  nonempty := hi.nonempty
  unused := hi.unused
  finished := fun h => absurd ((hi.finished h).2.1.symm.trans hopen) Bool.noConfusion

theorem Inv.close (hi : Inv config p) : Inv config { p with closed := true } :=
  { hi with finished := fun h => ⟨(hi.finished h).1, rfl, (hi.finished h).2.2⟩ }

theorem Inv.fail (hi : Inv config p) (err : String) : Inv config (p.fail err) :=
  { hi with finished := nofun }

/-- A batch that was consumed without an error: its samples were added and its drops counted. -/
theorem consumeBatch_eq_ok {item : QueuedBatch} (h : consumeBatch config p item = .ok p') :
    ∃ heap a windowStart, addAll config p.heap p.aggregator 0 item.batch.samples = .ok (heap, a) ∧
      p' = { p with
        heap := heap
        aggregator := a
        windowStart := windowStart
        droppedSamples :=
          if item.batch.dropped ≠ 0 then some (p.droppedSamples.getD 0 + item.batch.dropped)
          else p.droppedSamples } := by
  simp only [consumeBatch] at h
  by_cases hemp : item.batch.samples.isEmpty = true ∧ item.batch.dropped = 0
  · rw [if_pos hemp] at h
    cases h
    obtain ⟨hsam, hdro⟩ := hemp
    refine ⟨p.heap, p.aggregator, p.windowStart, ?_, ?_⟩
    · rw [isEmpty_iff.1 hsam]
      rfl
    · rw [if_neg (not_not.2 hdro)]
  · rw [if_neg hemp] at h
    split at h <;> cases h
    rename_i hadd
    exact ⟨_, _, _, hadd, rfl⟩

/-- Drops are counted as they are, as long as they fit. -/
theorem drops_add {dropped : Option UInt64} (more : UInt64) (hne : dropped ≠ some 0)
    (hfits : (dropped.getD 0).toNat + more.toNat < 2 ^ 64) :
    let total := if more ≠ 0 then some (dropped.getD 0 + more) else dropped
    (total.getD 0).toNat = (dropped.getD 0).toNat + more.toNat ∧ total ≠ some 0 := by
  by_cases hmore : more = 0
  · subst hmore
    exact ⟨rfl, hne⟩
  · simp only [ne_eq, hmore, not_false_eq_true, if_true, Option.getD_some, UInt64.toNat_add,
      Nat.mod_eq_of_lt hfits, Option.some.injEq, true_and]
    intro hzero
    have hnat : (dropped.getD 0 + more).toNat = 0 := congrArg UInt64.toNat hzero
    rw [UInt64.toNat_add, Nat.mod_eq_of_lt hfits] at hnat
    have hpos : more.toNat ≠ 0 := fun h => hmore (UInt64.toNat_inj.1 h)
    omega

theorem Inv.consume (hi : Inv config p) (hrunn : p.result = none) {item : QueuedBatch}
    {rest : List QueuedBatch} (hqueue : p.queue = item :: rest)
    (h : consumeBatch config p item = .ok p') :
    Inv config { p' with queue := rest, consumed := p.consumed ++ [item.batch] } := by
  obtain ⟨heap, a, windowStart, hadd, rfl⟩ := consumeBatch_eq_ok h
  have hkeeps := keeps_addAll hadd
  have hread (e : Emission) (he : e ∈ p.emitted) :=
    hkeeps.others _ (hi.windows e he).1 (hi.windows e he).2
  refine ⟨?_, hkeeps.valid hi.valid, fun e he => ⟨(hread e he).1, (hread e he).2.2⟩,
    fun e he => (hi.consumed e he).trans (prefix_append _ _), ?_, ?_, ?_, ?_, hi.nonempty,
    fun hlen => ?_, ?_⟩
  · rw [hi.queue, hqueue]
    simp
  · intro hret hsm hlive
    obtain ⟨contents, entries, hr, hsum⟩ := hi.drained hret hsm (small_of_addAll hadd hlive)
    obtain ⟨contents', hr'⟩ := represents_addAll hr hadd hlive
    refine ⟨contents', _, hr', fun identity => ?_⟩
    rw [shown_congr (fun e he => (hread e he).2.1), Ledger.total_postAll, samplesOf_concat,
      sumOf_append, ← hsum identity, Aggregator.total_booking]
    exact (Int.add_assoc _ _ _).symm
  · intro hret hlive
    obtain ⟨contents, hr⟩ := hi.retained hret (small_of_addAll hadd hlive)
    obtain ⟨contents', hr'⟩ := represents_addAll hr hadd hlive
    exact ⟨contents', ledgerOf_concat _ _ ▸ hr'⟩
  · intro hret e he hsm
    rw [decode_congr (hread e he).2.1]
    exact hi.clamped hret e he hsm
  · intro hfits
    rw [dropsOf_concat] at hfits ⊢
    obtain ⟨hsum, hne, hwin⟩ := hi.drops (by omega)
    obtain ⟨htotal, hne'⟩ := drops_add item.batch.dropped hne (by omega)
    refine ⟨?_, hne', hwin⟩
    show droppedIn p.emitted + _ = _
    rw [htotal, ← hsum, Nat.add_assoc]
  · have hsame : a = p.aggregator := addAll_eq_self hadd hlen
    subst hsame
    exact hi.unused hlen
  · intro hres
    simp [hrunn] at hres

/-! ## Snapshots -/

theorem snapshot_eq_ok {stop : Time} {formatterErr : Option String}
    (h : p.snapshot config stop formatterErr = .ok p') :
    (p' = p ∧ config.retain = false ∧ p.aggregator.profile.samples.len = 0 ∧
        p.droppedSamples = none) ∨
      (config.retain = false →
        p.aggregator.profile.samples.len ≠ 0 ∨ p.droppedSamples.isSome = true) ∧
      p' = { (p.sealWindow config stop).2 with
        emitted := p.emitted ++
          [{ window := (p.sealWindow config stop).1, consumed := p.consumed }] } := by
  unfold snapshot at h
  split at h
  · rename_i hemp
    cases h
    refine .inl ⟨rfl, by simpa using hemp.1, ?_, by simpa using hemp.2.2⟩
    simpa [Aggregator.empty] using hemp.2.1
  · rename_i hnon
    (repeat' split at h) <;> cases h
    refine .inr ⟨fun hret => ?_, rfl⟩
    by_cases hlen : p.aggregator.profile.samples.len = 0
    · refine .inr (Option.ne_none_iff_isSome.1 fun hnone => hnon ?_)
      simp [hret, Aggregator.empty, hlen, hnone]
    · exact .inl hlen

theorem shown_concat (heap : Heap AggregatedSample) (emitted : List Emission) (e : Emission)
    (identity : Identity) :
    shown heap (emitted ++ [e]) identity =
      shown heap emitted identity + e.window.aggregated.valueOf heap identity := by
  simp [shown]

theorem droppedIn_concat (emitted : List Emission) (e : Emission) :
    droppedIn (emitted ++ [e]) = droppedIn emitted + (e.window.droppedSamples.getD 0).toNat := by
  simp [droppedIn]

theorem valueOf_eq (h : profile.decode heap = entries.map some) (identity : Identity) :
    profile.valueOf heap identity = Ledger.total entries identity := by
  rw [AggregatedProfile.valueOf, h, filterMap_map]
  exact congrArg (Ledger.total · identity) filterMap_some

theorem forall_mem_concat {α : Type*} {l : List α} {x : α} {q : α → Prop} (hl : ∀ y ∈ l, q y)
    (hx : q x) : ∀ y ∈ l ++ [x], q y := by
  intro y hy
  rcases mem_append.1 hy with hy | hy
  · exact hl y hy
  · exact mem_singleton.1 hy ▸ hx

/-- Drops move into the window. -/
theorem drops_sealed (hi : Inv config p) {window : AggregationWindow}
    (hdro : window.droppedSamples = p.droppedSamples) (hfits : dropsOf p.consumed < 2 ^ 64) :
    droppedIn (p.emitted ++ [{ window := window, consumed := p.consumed }]) + 0 =
        dropsOf p.consumed ∧
      (none : Option UInt64) ≠ some 0 ∧
      ∀ e ∈ p.emitted ++ [{ window := window, consumed := p.consumed }],
        e.window.droppedSamples ≠ some 0 := by
  obtain ⟨hsum, hne, hwin⟩ := hi.drops hfits
  refine ⟨?_, nofun, forall_mem_concat hwin (hdro ▸ hne)⟩
  rw [droppedIn_concat, hdro]
  exact hsum

/-- A snapshot that takes the samples out of the aggregator. -/
theorem Inv.drain (hi : Inv config p) (hrunn : p.result = none) (hret : config.retain = false)
    (hnon : p.aggregator.profile.samples.len ≠ 0 ∨ p.droppedSamples.isSome = true) (stop : Time) :
    Inv config { (p.sealWindow config stop).2 with
      emitted := p.emitted ++
        [{ window := (p.sealWindow config stop).1, consumed := p.consumed }] } := by
  have hret' : ¬ config.retain = true := by rw [hret]; exact Bool.noConfusion
  simp only [sealWindow, if_neg hret', Aggregator.drain]
  refine ⟨hi.queue, Heap.valid_nil, ?_, forall_mem_concat hi.consumed prefix_rfl, ?_, ?_, ?_,
    drops_sealed hi rfl, fun _ => forall_mem_concat (hi.nonempty hret) hnon,
    fun _ => small_new, ?_⟩
  · exact forall_mem_concat (fun e he => ⟨(hi.windows e he).1, (hi.windows e he).1.apart_nil⟩)
      ⟨hi.valid, hi.valid.apart_nil⟩
  · intro _ hsm _
    have hlive := hsm _ (mem_append_right _ (mem_singleton_self _))
    obtain ⟨contents, entries, hr, hsum⟩ := hi.drained hret
      (fun e he => hsm e (mem_append_left _ he)) ⟨hlive.frames, hlive.callStacks, hlive.labelSets⟩
    refine ⟨[], [], Aggregator.represents_new, fun identity => ?_⟩
    rw [shown_concat, Ledger.total_nil, Int.add_zero, ← hsum identity]
    exact congrArg (shown p.heap p.emitted identity + ·) (valueOf_eq hr.decode identity)
  · exact fun h => absurd h hret'
  · exact fun h => absurd h hret'
  · intro hres
    simp [hrunn] at hres

theorem clampValue_eq (sample : AggregatedSample) :
    ∃ value : Int64, clampValue sample = { sample with value := value } ∧
      value.toInt = max 0 sample.value.toInt := by
  unfold clampValue
  split
  · rename_i hpos
    exact ⟨sample.value, rfl, (max_eq_right (Int64.le_iff_toInt_le.1 hpos)).symm⟩
  · rename_i hneg
    have hlt : sample.value.toInt < 0 := not_le.1 fun hle => hneg (Int64.le_iff_toInt_le.2 hle)
    exact ⟨0, rfl, (max_eq_left (Int.le_of_lt hlt)).symm⟩

theorem decodeSample_clampValue (profile : AggregatedProfile) (sample : AggregatedSample) :
    profile.decodeSample (clampValue sample) = (profile.decodeSample sample).map clampEntry := by
  obtain ⟨value, hclamp, hv⟩ := clampValue_eq sample
  rw [hclamp]
  show (appendFrames [] profile sample).bind (fun frames => (labelsOf profile sample).map _) = _
  unfold AggregatedProfile.decodeSample
  cases appendFrames [] profile sample with
  | none => rfl
  | some frames =>
    cases labelsOf profile sample with
    | none => rfl
    | some labels => simp [clampEntry, hv]

/-- A representation is about what the heap shows through the samples. -/
theorem represents_congr {hash : Hashes} {a : Aggregator} {contents : List (List ProfileFrame)}
    (hr : Represents hash heap a contents entries) (hvalid : heap'.Valid a.profile.samples)
    (hread : heap'.read a.profile.samples = heap.read a.profile.samples) :
    Represents hash heap' a contents entries where
  dictionaries := hr.dictionaries
  valid := hvalid
  decode := (decode_congr hread).trans hr.decode
  nodup := hr.nodup
  index := by
    rw [hread]
    exact hr.index

/-- Copying and clamping the copy shows only in the copy. -/
theorem keeps_copy (heap : Heap AggregatedSample) (a : Aggregator) {t : Slice} (ht : heap.Valid t) :
    let copied := a.copyProfile heap
    (clampNegativeSamples copied.2 copied.1).Valid t ∧
      (clampNegativeSamples copied.2 copied.1).read t = heap.read t ∧
      Heap.Apart t copied.1.samples ∧ Heap.Apart copied.1.samples t := by
  have hne : t.address ≠ (a.copyProfile heap).1.samples.address := ht.alloc_ne
  have ht' : (a.copyProfile heap).2.Valid t := ht.alloc
  have hoth := (keeps_clampNegativeSamples (a.copyProfile heap).1).others t ht' (.inl hne)
  exact ⟨hoth.1, hoth.2.1.trans (Heap.read_alloc ht), .inl hne, .inl (Ne.symm hne)⟩

theorem decode_copy {hash : Hashes} {a : Aggregator} {contents : List (List ProfileFrame)}
    (hr : Represents hash heap a contents entries) : let copied := a.copyProfile heap
    copied.1.decode (clampNegativeSamples copied.2 copied.1) =
      (entries.map clampEntry).map some := by
  have hread : (clampNegativeSamples (a.copyProfile heap).2 (a.copyProfile heap).1).read
      (a.copyProfile heap).1.samples = (heap.read a.profile.samples).map clampValue :=
    (read_clampNegativeSamples Heap.valid_alloc_self).trans
      (congrArg (List.map clampValue) Heap.read_alloc_self)
  have hdec : (heap.read a.profile.samples).map a.profile.decodeSample = entries.map some :=
    hr.decode
  show ((clampNegativeSamples _ _).read _).map a.profile.decodeSample = _
  rw [hread, map_map]
  calc (heap.read a.profile.samples).map (a.profile.decodeSample ∘ clampValue)
      = (heap.read a.profile.samples).map (Option.map clampEntry ∘ a.profile.decodeSample) :=
        map_congr_left fun sample _ => decodeSample_clampValue a.profile sample
    _ = (entries.map some).map (Option.map clampEntry) := by rw [← hdec, map_map]
    _ = (entries.map clampEntry).map some := by rw [map_map, map_map]; rfl

/-- A snapshot that keeps the samples in the aggregator. -/
theorem Inv.copy (hi : Inv config p) (hrunn : p.result = none) (hret : config.retain = true)
    (stop : Time) :
    Inv config { (p.sealWindow config stop).2 with
      emitted := p.emitted ++
        [{ window := (p.sealWindow config stop).1, consumed := p.consumed }] } := by
  have hlive := keeps_copy p.heap p.aggregator hi.valid
  simp only [sealWindow, if_pos hret]
  have hret' : ¬ config.retain = false := by rw [hret]; exact Bool.noConfusion
  refine ⟨hi.queue, hlive.1, ?_, forall_mem_concat hi.consumed prefix_rfl,
    fun h => absurd h hret', ?_, ?_, drops_sealed hi rfl, fun h => absurd h hret',
    hi.unused, ?_⟩
  · refine forall_mem_concat (fun e he => ?_) ⟨?_, hlive.2.2.2⟩
    · exact ⟨(keeps_copy p.heap p.aggregator (hi.windows e he).1).1, (hi.windows e he).2⟩
    · exact (keeps_clampNegativeSamples _).valid Heap.valid_alloc_self
  · intro _ hsm
    obtain ⟨contents, hr⟩ := hi.retained hret hsm
    exact ⟨contents, represents_congr hr hlive.1 hlive.2.1⟩
  · refine fun _ => forall_mem_concat (fun e he hsm => ?_) fun hsm => ?_
    · rw [decode_congr (keeps_copy p.heap p.aggregator (hi.windows e he).1).2.1]
      exact hi.clamped hret e he hsm
    · obtain ⟨contents, hr⟩ := hi.retained hret ⟨hsm.frames, hsm.callStacks, hsm.labelSets⟩
      exact decode_copy hr
  · intro hres
    simp [hrunn] at hres

/-! ## Runs -/

theorem Inv.snapshot (hi : Inv config p) (hrunn : p.result = none) {stop : Time}
    {formatterErr : Option String} (h : p.snapshot config stop formatterErr = .ok p') :
    Inv config p' ∧ p'.queue = p.queue ∧ p'.closed = p.closed ∧ p'.result = none ∧
      (config.retain = false → p'.aggregator.profile.samples.len = 0 ∧
        p'.droppedSamples = none) := by
  rcases snapshot_eq_ok h with ⟨rfl, hret, hlen, hdro⟩ | ⟨hnon, rfl⟩
  · exact ⟨hi, rfl, rfl, hrunn, fun _ => ⟨hlen, hdro⟩⟩
  · cases hret : config.retain with
    | false =>
      refine ⟨hi.drain hrunn hret (hnon hret) stop, ?_⟩
      simp only [sealWindow, hret, Bool.false_eq_true, if_false]
      exact ⟨trivial, trivial, hrunn, fun _ => ⟨rfl, trivial⟩⟩
    | true =>
      refine ⟨hi.copy hrunn hret stop, ?_⟩
      simp only [sealWindow, hret, if_true]
      exact ⟨trivial, trivial, hrunn, nofun⟩

theorem inv_step (hi : Inv config p) {action : Action} (h : p.step config action = some p') :
    Inv config p' := by
  cases action with simp only [step] at h
  | enqueue batch now =>
    (repeat' split at h) <;> cases h
    rename_i hopen
    exact hi.enqueue (by simpa using (not_or.1 hopen).1) batch now
  | close =>
    split at h <;> cases h
    exact hi.close
  | consume =>
    split at h
    · cases h
    rename_i hrunn
    split at h
    · cases h
    rename_i item rest hqueue
    split at h
    · cases h
      exact hi.fail _
    · rename_i hcon
      cases h
      exact hi.consume (by simpa using hrunn) hqueue hcon
  | tick now formatterErr =>
    split at h
    · cases h
    rename_i hrunn
    split at h
    · cases h
      exact hi.fail _
    · rename_i hsnap
      cases h
      exact (hi.snapshot (by simpa using (not_or.1 hrunn).1) hsnap).1
  | finish now formatterErr =>
    split at h
    · cases h
    rename_i hguard
    rw [not_or, not_or] at hguard
    split at h
    · cases h
      exact hi.fail _
    · rename_i p'' hsnap
      cases h
      obtain ⟨hi', hqueue, hclo, -, hemp⟩ :=
        hi.snapshot (by simpa using hguard.1) hsnap
      refine { hi' with finished := fun _ => ⟨?_, ?_, hemp⟩ }
      · exact hqueue.trans (by simpa using hguard.2.2)
      · exact hclo.trans (by simpa using hguard.2.1)
  | cancel =>
    split at h <;> cases h
    exact hi.fail _

theorem inv_of_reachable (h : Runs.Reachable (step config) (newPipeline config) p) : Inv config p :=
  h.invariant inv_newPipeline fun _ _ _ _ hi hstep => inv_step hi hstep

/-- Windows stay, and nothing that happens later shows in them. -/
theorem stable_step (hi : Inv config p) {action : Action} (h : p.step config action = some p')
    {e : Emission} (he : e ∈ p.emitted) :
    e ∈ p'.emitted ∧
      p'.heap.read e.window.aggregated.samples = p.heap.read e.window.aggregated.samples := by
  have hsnap {stop : Time} {formatterErr : Option String} {q : Pipeline}
      (hq : p.snapshot config stop formatterErr = .ok q) :
      e ∈ q.emitted ∧
        q.heap.read e.window.aggregated.samples = p.heap.read e.window.aggregated.samples := by
    rcases snapshot_eq_ok hq with ⟨rfl, -⟩ | ⟨-, rfl⟩
    · exact ⟨he, rfl⟩
    · refine ⟨mem_append_left _ he, ?_⟩
      cases hret : config.retain with
      | false => simp only [sealWindow, hret, Bool.false_eq_true, if_false]
      | true =>
        simp only [sealWindow, hret, if_true]
        exact (keeps_copy p.heap p.aggregator (hi.windows e he).1).2.1
  cases action with simp only [step] at h
  | enqueue batch now =>
    (repeat' split at h) <;> cases h
    exact ⟨he, rfl⟩
  | close | cancel =>
    split at h <;> cases h
    exact ⟨he, rfl⟩
  | consume =>
    split at h
    · cases h
    split at h
    · cases h
    split at h
    · cases h
      exact ⟨he, rfl⟩
    · rename_i hcon
      cases h
      obtain ⟨heap, a, windowStart, hadd, rfl⟩ := consumeBatch_eq_ok hcon
      exact ⟨he, ((keeps_addAll hadd).others _ (hi.windows e he).1 (hi.windows e he).2).2.1⟩
  | tick now formatterErr | finish now formatterErr =>
    split at h
    · cases h
    split at h
    · cases h
      exact ⟨he, rfl⟩
    · rename_i q hq
      cases h
      exact ⟨(hsnap hq).1, (hsnap hq).2⟩

theorem stable_of_reachable (hi : Inv config p) (hp' : Runs.Reachable (step config) p p')
    {e : Emission} (he : e ∈ p.emitted) :
    e ∈ p'.emitted ∧
      p'.heap.read e.window.aggregated.samples = p.heap.read e.window.aggregated.samples := by
  let kept (q : Pipeline) : Prop := Inv config q ∧ e ∈ q.emitted ∧
    q.heap.read e.window.aggregated.samples = p.heap.read e.window.aggregated.samples
  have hsta : kept p := ⟨hi, he, rfl⟩
  have hkept : kept p' := by
    refine hp'.invariant hsta ?_
    rintro q action q' - ⟨hq, hmem, hread⟩ hstep
    obtain ⟨hmem', hread'⟩ := stable_step hq hstep hmem
    exact ⟨inv_step hq hstep, hmem', hread'.trans hread⟩
  exact hkept.2

theorem valueOf_clamped {batches : List SampleBatch}
    (h : profile.decode heap = ((ledgerOf batches).map clampEntry).map some) (identity : Identity) :
    profile.valueOf heap identity = max 0 (sumOf (samplesOf batches) identity) := by
  have hled : Ledger.total (ledgerOf batches) identity = sumOf (samplesOf batches) identity :=
    (Ledger.total_replay _ identity).trans (Aggregator.total_booking _ identity)
  rw [valueOf_eq h, ← hled]
  exact Ledger.total_map rfl (Ledger.nodup_replay _) identity

/-- **Conservation.** In every state of a pipeline whose windows have dictionaries with fewer than
2^32 entries: if `Run` returned without an error and the totals are not retained, the windows
together hold the samples that were enqueued, identity by identity, and, if they fit into 64 bits,
the drops, and none of the windows is empty. If the totals are retained, each window holds the
totals of what had been consumed, with zero for the negative ones. A window that was given to the
formatter does not change any more. -/
theorem conserved {config : PipelineConfig} {p : Pipeline}
    (hp : Runs.Reachable (step config) (newPipeline config) p)
    (hsmall : ∀ e ∈ p.emitted, e.window.aggregated.Small) :
    (config.retain = false → p.result = some (.ok ()) →
      (∀ identity, shown p.heap p.emitted identity = sumOf (samplesOf p.accepted) identity) ∧
      (dropsOf p.accepted < 2 ^ 64 → droppedIn p.emitted = dropsOf p.accepted ∧
        ∀ e ∈ p.emitted, e.window.aggregated.samples.len ≠ 0 ∨
          (e.window.droppedSamples.getD 0).toNat ≠ 0)) ∧
    (config.retain = true → ∀ e ∈ p.emitted, e.consumed <+: p.accepted ∧
      ∀ identity, e.window.aggregated.valueOf p.heap identity =
        max 0 (sumOf (samplesOf e.consumed) identity)) ∧
    ∀ p', Runs.Reachable (step config) p p' → ∀ e ∈ p.emitted, e ∈ p'.emitted ∧
      e.window.aggregated.decode p'.heap = e.window.aggregated.decode p.heap := by
  have hi := inv_of_reachable hp
  refine ⟨fun hretain hresult => ?_, fun hretain e he => ⟨?_, ?_⟩, fun p' hp' e he => ?_⟩
  · obtain ⟨hqueue, -, hempty⟩ := hi.finished hresult
    obtain ⟨hlen, hdropped⟩ := hempty hretain
    have hall : p.accepted = p.consumed := by rw [hi.queue, hqueue]; simp
    refine ⟨fun identity => ?_, fun hfits => ?_⟩
    · obtain ⟨contents, entries, hr, hsum⟩ := hi.drained hretain hsmall (hi.unused hlen)
      have hentries : entries.map some = ([] : List (Option (Identity × Int))) := by
        simp [← hr.decode, AggregatedProfile.decode, Heap.read_of_len hlen]
      rw [map_eq_nil_iff.1 hentries] at hsum
      rw [hall, ← hsum identity, Ledger.total_nil, Int.add_zero]
    · obtain ⟨hsum, -, hwindows⟩ := hi.drops (hall ▸ hfits)
      rw [hdropped] at hsum
      refine ⟨hall ▸ hsum, fun e he => (hi.nonempty hretain e he).imp_right fun hsome => ?_⟩
      obtain ⟨dropped, hdropped⟩ := Option.isSome_iff_exists.1 hsome
      have hne := hwindows e he
      rw [hdropped] at hne ⊢
      exact fun hzero => hne (congrArg some (UInt64.toNat_inj.1 hzero))
  · exact (hi.consumed e he).trans (hi.queue ▸ prefix_append _ _)
  · exact valueOf_clamped (hi.clamped hretain e he (hsmall e he))
  · obtain ⟨hmem, hread⟩ := stable_of_reachable hi hp' he
    exact ⟨hmem, decode_congr hread⟩

def sampleConfig : PipelineConfig where
  hash := Aggregator.collidingHashes
  spare := fun _ => 1
  aggregationMode := .streaming
  profileType := "cpu:cpu:nanoseconds:cpu:nanoseconds"
  containerID := ""
  formatterName := "json"

/-- Two batches that report 2^63 drops each. -/
def wrapRun : List Action :=
  [.enqueue { droppedSamples := [("collection", 9223372036854775808)] } 1,
    .enqueue { droppedSamples := [("collection", 9223372036854775808)] } 2,
    .consume, .consume, .close, .finish 3 none]

/-- The counter of drops wraps around: a window without samples and without drops is emitted, and
2^64 drops are lost. -/
theorem drops_wrap :
    ∃ p e, Runs.run (step sampleConfig) (newPipeline sampleConfig) wrapRun = some p ∧
    p.result = some (.ok ()) ∧ sampleConfig.retain = false ∧ p.emitted = [e] ∧
    e.window.aggregated.samples.len = 0 ∧ e.window.droppedSamples = some 0 ∧
    dropsOf p.accepted = 2 ^ 64 ∧ droppedIn p.emitted = 0 :=
  ⟨_, _, rfl, rfl, rfl, rfl, rfl, rfl, rfl, rfl⟩

def physicalConfig : PipelineConfig :=
  { sampleConfig with profileType := profileTypePhysicalUsage, formatterName := formatRemoteStore }

/-- A value that is first negative and then positive, with a snapshot in between. -/
def sampleRun : List Action :=
  [.enqueue { samples := [{ userFrames := [{ name := "f" }], value := -2 }] } 1, .consume,
    .tick 2 none, .enqueue { samples := [{ userFrames := [{ name := "f" }], value := 5 }] } 3,
    .consume, .close, .finish 4 none]

theorem conserved_retained : ∃ p, Runs.run (step physicalConfig) (newPipeline physicalConfig)
      sampleRun = some p ∧ p.emitted.length = 2 ∧
    ∀ e ∈ p.emitted, ∀ identity, e.window.aggregated.valueOf p.heap identity =
      max 0 (sumOf (samplesOf e.consumed) identity) := by
  have hrun : ∃ p, Runs.run (step physicalConfig) (newPipeline physicalConfig) sampleRun = some p ∧
      p.emitted.length = 2 ∧ ∀ e ∈ p.emitted, e.window.aggregated.frames.length < 2 ^ 32 ∧
        e.window.aggregated.callStacks.length < 2 ^ 32 ∧
        e.window.aggregated.labelSets.length < 2 ^ 32 :=
    ⟨_, rfl, rfl, by decide⟩
  obtain ⟨p, hp, hlen, hsmall⟩ := hrun
  obtain ⟨-, hretained, -⟩ := conserved ⟨sampleRun, hp⟩ fun e he =>
    ⟨(hsmall e he).1, (hsmall e he).2.1, (hsmall e he).2.2⟩
  exact ⟨p, hp, hlen, fun e he => (hretained rfl e he).2⟩

end Pipeline

end Huatuo.Profiling
