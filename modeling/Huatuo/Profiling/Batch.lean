import Mathlib.Algebra.Ring.Nat
import Huatuo.Profiling.Pipeline
import Mathlib.Algebra.BigOperators.Group.List.Basic

/-!
# Batches of a provider

`BatchBuilder` of `internal/profiling/pipeline/batch.go`, with an `enqueue` that can fail. A batch
leaves the builder before `enqueue` gets it. If it is refused, it is not tried again, and the
`Append` that had to flush fails with its own sample left out.

The limits are checked before a sample goes in, against the running total `textBytes`;
`validateBatch` adds up the batch again. Both come to the same sum (`BatchBuilder.Fits`), so a batch
that the builder hands out is never refused for its size.

The map of dropped samples of the builder's batch stays nil.
-/

namespace Huatuo.Profiling

open List

/-! ## Calls -/

inductive Call where
  | append (sample : Sample) (enqueue : Enqueue)
  | flush (enqueue : Enqueue)

def Call.apply (builder : BatchBuilder) : Call → Outcome
  | .append sample enqueue => builder.append sample enqueue
  | .flush enqueue => builder.flush enqueue

/-- The samples of an `Append` that returned nil. -/
def Call.accepted : Call → Except String Unit → List Sample
  | .append sample _, .ok () => [sample]
  | _, _ => []

/-- What a sequence of calls returns, the builder after it, and the batches that were handed out. -/
structure Session where
  results : List (Except String Unit)
  builder : BatchBuilder
  handed : List SampleBatch

def BatchBuilder.run (builder : BatchBuilder) : List Call → Session
  | [] => ⟨[], builder, []⟩
  | call :: calls =>
    let outcome := call.apply builder
    let later := outcome.builder.run calls
    ⟨outcome.result :: later.results, later.builder, outcome.handed ++ later.handed⟩

/-- The samples whose `Append` returned nil, in order. -/
def accepted (calls : List Call) (results : List (Except String Unit)) : List Sample :=
  (calls.zipWith Call.accepted results).flatten

/-! ## Sizes -/

/-- The number of bytes of a sample's texts. -/
def Sample.textBytes (sample : Sample) : Nat := (sample.texts.map String.utf8ByteSize).sum

variable {n size : Nat} {texts : List String}

theorem textSize_ok (h : textSize size texts = .ok n) :
    n = size + (texts.map String.utf8ByteSize).sum := by
  induction texts generalizing size with
  | nil => cases h; rfl
  | cons text texts ih =>
    rw [textSize] at h
    split at h
    · cases h
    · rw [ih h, map_cons, sum_cons, Nat.add_assoc]

theorem textSize_le (hsize : size ≤ maxBatchTextBytes) (h : textSize size texts = .ok n) :
    n ≤ maxBatchTextBytes := by
  induction texts generalizing size with
  | nil => cases h; exact hsize
  | cons text texts ih =>
    rw [textSize] at h
    split at h
    · cases h
    · exact ih (by omega) h

variable {sample : Sample}

theorem sampleTextSize_ok (h : sampleTextSize sample = .ok n) :
    n = sample.textBytes ∧ n ≤ maxBatchTextBytes := by
  unfold sampleTextSize at h
  split at h
  · cases h
  have hsum := textSize_ok h
  rw [Nat.zero_add] at hsum
  exact ⟨hsum, textSize_le (Nat.zero_le _) h⟩

/-- A sample within the limits for a single one. -/
def Sample.Sized (sample : Sample) : Prop := sampleTextSize sample = .ok sample.textBytes

theorem sized_of_ok (h : sampleTextSize sample = .ok n) : sample.Sized :=
  h.trans (congrArg Except.ok (sampleTextSize_ok h).1)

theorem validateSamples_ok {samples : List Sample} (hsized : ∀ sample ∈ samples, sample.Sized)
    (i : Nat) (hsum : size + (samples.map Sample.textBytes).sum ≤ maxBatchTextBytes) :
    validateSamples i size samples = .ok () := by
  induction samples generalizing i size with
  | nil => rfl
  | cons sample samples ih =>
    rw [map_cons, sum_cons] at hsum
    have hsamp : sampleTextSize sample = .ok sample.textBytes := hsized sample mem_cons_self
    simp only [validateSamples, hsamp]
    rw [if_neg (by omega)]
    exact ih (fun sample hmem => hsized sample (mem_cons_of_mem _ hmem)) (i + 1) (by omega)

/-! ## The builder -/

/-- The running total is the sum of the sizes, and both limits are kept. -/
structure BatchBuilder.Fits (builder : BatchBuilder) : Prop where
  sized : ∀ sample ∈ builder.samples, sample.Sized
  textBytes : builder.textBytes = (builder.samples.map Sample.textBytes).sum
  length_le : builder.samples.length ≤ maxBatchSamples
  textBytes_le : builder.textBytes ≤ maxBatchTextBytes

/-- A batch as the consumer takes it. -/
def SampleBatch.Deliverable (batch : SampleBatch) : Prop :=
  batch.samples ≠ [] ∧ validateBatch (some batch) = .ok ()

namespace BatchBuilder

theorem fits_new : Fits {} where
  sized := nofun
  textBytes := rfl
  length_le := Nat.zero_le _
  textBytes_le := Nat.zero_le _

variable {builder : BatchBuilder} {sample : Sample} {size : Nat}

theorem Fits.insert (hfits : builder.Fits) (hsize : sampleTextSize sample = .ok size)
    (hlen : builder.samples.length < maxBatchSamples)
    (hbytes : builder.textBytes + size ≤ maxBatchTextBytes) :
    (builder.insert sample size).Fits where
  sized := by
    intro sample' hmem
    rcases mem_append.1 hmem with hmem | hmem
    · exact hfits.sized sample' hmem
    · rw [mem_singleton.1 hmem]
      exact sized_of_ok hsize
  textBytes := by
    rw [BatchBuilder.insert, hfits.textBytes, (sampleTextSize_ok hsize).1, map_append, sum_append,
      map_singleton, sum_singleton]
  length_le := by
    rw [BatchBuilder.insert, length_append]
    exact hlen
  textBytes_le := hbytes

/-- A sample that may be in a batch at all has room in an empty one. -/
theorem Fits.insert_of_nil (hfits : builder.Fits) (hnil : builder.samples = [])
    (hsize : sampleTextSize sample = .ok size) : (builder.insert sample size).Fits := by
  have hbytes : builder.textBytes = 0 := by rw [hfits.textBytes, hnil, map_nil, sum_nil]
  refine hfits.insert hsize ?_ ?_
  · rw [hnil]
    decide
  · rw [hbytes, Nat.zero_add]
    exact (sampleTextSize_ok hsize).2

theorem Fits.deliverable (hfits : builder.Fits) (hne : builder.samples ≠ []) :
    SampleBatch.Deliverable { samples := builder.samples } := by
  refine ⟨hne, ?_⟩
  have hsum : 0 + (builder.samples.map Sample.textBytes).sum ≤ maxBatchTextBytes := by
    rw [Nat.zero_add, ← hfits.textBytes]
    exact hfits.textBytes_le
  rw [validateBatch, if_neg (Nat.not_lt.2 hfits.length_le)]
  exact validateSamples_ok hfits.sized 0 hsum

/-- A call keeps the limits, hands out batches that the consumer takes, and moves samples only from
the builder to `enqueue`, next to the one it accepts. -/
structure Keeps (builder : BatchBuilder) (accepted : List Sample) (outcome : Outcome) : Prop where
  fits : outcome.builder.Fits
  deliverable : ∀ batch ∈ outcome.handed, batch.Deliverable
  samples : outcome.handed.flatMap SampleBatch.samples ++ outcome.builder.samples =
    builder.samples ++ accepted

theorem flush_keeps (hfits : builder.Fits) (enqueue : Enqueue) :
    Keeps builder [] (builder.flush enqueue) ∧ (builder.flush enqueue).builder.samples = [] := by
  unfold flush
  split
  next hemp =>
    have hnil : builder.samples = [] := eq_nil_of_length_eq_zero hemp
    exact ⟨⟨hfits, nofun, (append_nil _).symm⟩, hnil⟩
  next hne =>
    refine ⟨⟨fits_new, ?_, by simp⟩, rfl⟩
    intro batch hmem
    rw [mem_singleton.1 hmem]
    exact hfits.deliverable (mt (fun hnil => congrArg List.length hnil) hne)

theorem Keeps.insert {outcome : Outcome} (hkeeps : Keeps builder [] outcome)
    (hfits : (outcome.builder.insert sample size).Fits)
    (result : Except String Unit) :
    Keeps builder [sample] ⟨result, outcome.builder.insert sample size, outcome.handed⟩ where
  fits := hfits
  deliverable := hkeeps.deliverable
  samples := by
    rw [BatchBuilder.insert, ← append_assoc, hkeeps.samples, append_nil]

theorem append_keeps (hfits : builder.Fits) (sample : Sample) (enqueue : Enqueue) :
    Keeps builder ((Call.append sample enqueue).accepted (builder.append sample enqueue).result)
      (builder.append sample enqueue) := by
  have hsame : Keeps builder [] { result := .ok (), builder } := ⟨hfits, nofun, (append_nil _).symm⟩
  unfold append
  cases hsize : sampleTextSize sample with
  | error err => exact ⟨hfits, nofun, (append_nil _).symm⟩
  | ok size =>
    dsimp only
    split
    next hfull =>
      obtain ⟨hflu, hnil⟩ := flush_keeps hfits enqueue
      cases hres : (builder.flush enqueue).result with
      | error err =>
        dsimp only
        rw [hres]
        exact hflu
      | ok => exact hflu.insert (hflu.fits.insert_of_nil hnil hsize) _
    next hroom =>
      have hle := hfits.length_le
      exact hsame.insert (hfits.insert hsize (by omega) (by omega)) _

theorem apply_keeps (hfits : builder.Fits) (call : Call) :
    Keeps builder (call.accepted (call.apply builder).result) (call.apply builder) := by
  cases call with
  | append sample enqueue => exact append_keeps hfits sample enqueue
  | flush enqueue => exact (flush_keeps hfits enqueue).1

/-! ## Results -/

theorem run_keeps (hfits : builder.Fits) (calls : List Call) :
    (builder.run calls).builder.Fits ∧ (∀ batch ∈ (builder.run calls).handed, batch.Deliverable) ∧
      (builder.run calls).handed.flatMap SampleBatch.samples ++
        (builder.run calls).builder.samples =
        builder.samples ++ accepted calls (builder.run calls).results := by
  induction calls generalizing builder with
  | nil => exact ⟨hfits, nofun, (append_nil _).symm⟩
  | cons call calls ih =>
    have hcall := apply_keeps hfits call
    obtain ⟨hlater, hhan, hsam⟩ := ih hcall.fits
    refine ⟨hlater, ?_, ?_⟩
    · intro batch hmem
      exact (mem_append.1 hmem).elim (hcall.deliverable batch) (hhan batch)
    · calc ((call.apply builder).handed ++ ((call.apply builder).builder.run calls).handed).flatMap
              SampleBatch.samples ++ ((call.apply builder).builder.run calls).builder.samples
          = (call.apply builder).handed.flatMap SampleBatch.samples ++
            (call.apply builder).builder.samples ++
              accepted calls ((call.apply builder).builder.run calls).results := by
            rw [flatMap_append, append_assoc, hsam, append_assoc]
        _ = builder.samples ++ (call.accepted (call.apply builder).result ++
              accepted calls ((call.apply builder).builder.run calls).results) := by
            rw [hcall.samples, append_assoc]

/-- **Every accepted sample is in one batch.** Whatever the samples are and whichever calls of
`enqueue` fail, the batches that were handed out, and then the buffer, are exactly the samples whose
`Append` returned nil, in order. No batch is empty or refused by `validateBatch`, and the buffer
keeps both limits. -/
theorem batches_accepted (calls : List Call) :
    (∀ batch ∈ (run {} calls).handed, batch.samples ≠ [] ∧ validateBatch (some batch) = .ok ()) ∧
    (run {} calls).handed.flatMap SampleBatch.samples ++ (run {} calls).builder.samples =
      accepted calls (run {} calls).results ∧
    (run {} calls).builder.samples.length ≤ maxBatchSamples ∧
    ((run {} calls).builder.samples.map Sample.textBytes).sum ≤ maxBatchTextBytes := by
  obtain ⟨hfits, hhanded, hsamples⟩ := run_keeps fits_new calls
  exact ⟨hhanded, hsamples, hfits.length_le, hfits.textBytes ▸ hfits.textBytes_le⟩

end BatchBuilder

end Huatuo.Profiling
