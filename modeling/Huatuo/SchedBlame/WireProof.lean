import Huatuo.SchedBlame.Wire
import Mathlib.Data.List.Flatten
import Mathlib.Data.List.Induction

/-!
# The sched-blame wire format keeps every slice

What the batches of a CPU submit, what they fail to submit and what they still hold are the appended
slices, and the decoder reads each submitted record as the batch it was made from.

`Inv` relates a CPU to the slices appended to it. The one step that takes work is `emitSliceBatch`:
the record holds the batch up to a power of two of slices, which the decoder works out again from
the count, and the padding of the kernel makes up for the four bytes of the size field.
-/

namespace Huatuo.SchedBlame

open Words List

/-! ## Slices -/

theorem toNat_cssIndex (cssID : Fin maxCSSIDs) : (UInt64.ofNat cssID).toNat = cssID :=
  UInt64.toNat_ofNat_of_lt' (Nat.lt_trans cssID.isLt (by decide))

theorem or_fields {a b c : Nat} (ha : a < 2 ^ 32) (hb : b < 2 ^ 20) (hc : c < 2 ^ 12) :
    a <<< 32 % 2 ^ 64 ||| b <<< 12 % 2 ^ 64 ||| c = a * 2 ^ 32 + (b * 2 ^ 12 + c) := by
  have hlow : b <<< 12 + c < 2 ^ 32 := by
    rw [Nat.shiftLeft_eq]
    omega
  have ha' : a <<< 32 < 2 ^ 64 := by
    rw [Nat.shiftLeft_eq]
    omega
  rw [Nat.mod_eq_of_lt ha', Nat.mod_eq_of_lt (show b <<< 12 < 2 ^ 64 by omega), Nat.or_assoc,
    ← Nat.shiftLeft_add_eq_or_of_lt hc, ← Nat.shiftLeft_add_eq_or_of_lt hlow, Nat.shiftLeft_eq,
    Nat.shiftLeft_eq]

/-- The fields of the first word do not overlap. -/
theorem toNat_packedBase (durationNs : UInt64) (waiting : TargetBitmap) (cssID : Fin maxCSSIDs) :
    (packSlice durationNs waiting (UInt64.ofNat cssID)).packedBase.toNat =
      min durationNs.toNat (2 ^ 32 - 1) * 2 ^ 32 +
        (waiting.base.toNat % 2 ^ 20 * 2 ^ 12 + cssID) := by
  have hdur : (if durationNs > maxDurationNs then maxDurationNs else durationNs).toNat =
      min durationNs.toNat (2 ^ 32 - 1) := by
    have hmax : maxDurationNs.toNat = 2 ^ 32 - 1 := rfl
    split
    · next hgt =>
      have := UInt64.lt_iff_toNat_lt.1 hgt
      omega
    · next hle =>
      have := mt UInt64.lt_iff_toNat_lt.2 hle
      omega
  have hbase : ((waiting.base &&& 0xfffff).toUInt64).toNat = waiting.base.toNat % 2 ^ 20 := by
    rw [UInt32.toNat_toUInt64, UInt32.toNat_and]
    exact Nat.and_two_pow_sub_one_eq_mod _ 20
  simp only [packSlice, UInt64.toNat_or, UInt64.toNat_shiftLeft, hdur, hbase, toNat_cssIndex]
  exact or_fields (by omega) (Nat.mod_lt _ (by decide)) cssID.isLt

theorem unpackSliceBase_packSlice (durationNs : UInt64) (waiting : TargetBitmap)
    (cssID : Fin maxCSSIDs) :
    (unpackSliceBase (packSlice durationNs waiting (UInt64.ofNat cssID))).1.toNat = cssID ∧
      (unpackSliceBase (packSlice durationNs waiting (UInt64.ofNat cssID))).2.toNat =
        min durationNs.toNat (2 ^ 32 - 1) := by
  have hword := toNat_packedBase durationNs waiting cssID
  have hcss : cssID.val < 2 ^ 12 := cssID.isLt
  have hmask : cssIDMask.toNat = 2 ^ 12 - 1 := rfl
  have hshift : (32 : UInt64).toNat % 64 = 32 := rfl
  constructor
  · rw [unpackSliceBase, UInt64.toNat_toUInt16, UInt64.toNat_and, hmask,
      Nat.and_two_pow_sub_one_eq_mod, hword]
    omega
  · rw [unpackSliceBase, UInt64.toNat_shiftRight, hshift, hword, Nat.shiftRight_eq_div_pow]
    omega

theorem sliceHasTarget_packSlice (durationNs : UInt64) (waiting : TargetBitmap)
    (cssID : Fin maxCSSIDs) (targetIndex : Nat) :
    sliceHasTarget (packSlice durationNs waiting (UInt64.ofNat cssID)) targetIndex =
      waiting.contains targetIndex := by
  unfold sliceHasTarget TargetBitmap.contains
  split
  · split
    · next hbase =>
      have hbits : targetIndex < 20 := hbase
      have hcss : cssID.val < 2 ^ 12 := cssID.isLt
      have hlow : waiting.base.toNat % 2 ^ 20 * 2 ^ 12 + cssID < 2 ^ 32 := by omega
      have hsum : cssIDBits + targetIndex = 12 + targetIndex := rfl
      rw [hsum, bit64_eq _ (by omega), bit32_eq _ (by omega), toNat_packedBase, Nat.mul_comm,
        Nat.testBit_two_pow_mul_add _ hlow, if_pos (by omega), Nat.mul_comm,
        Nat.testBit_two_pow_mul_add _ hcss, if_neg (by omega), Nat.testBit_mod_two_pow]
      simp [hbits]
    · rfl
  · rfl

/-! ## The decoder reads what a batch wrote -/

@[simp] theorem length_bytes (packed : PackedSlice) : packed.bytes.length = sliceSize := by
  simp [PackedSlice.bytes, sliceSize, extraBitmapU64Count]

/-- The header of a batch. -/
def SliceBatchEvent.header (batch : SliceBatchEvent) : Bytes :=
  toLE 2 batch.magic.toNat ++ toLE 2 batch.extraBitmapU64Count.toNat ++ toLE 4 batch.count.toNat

@[simp] theorem SliceBatchEvent.length_header (batch : SliceBatchEvent) :
    batch.header.length = batchHeaderSize := by
  simp [header, batchHeaderSize]

theorem SliceBatchEvent.take_bytes (batch : SliceBatchEvent) (capacity : Nat) :
    batch.bytes.take (sliceBatchOutputSize capacity) =
      batch.header ++ (batch.packedSlices.toList.take capacity).flatMap PackedSlice.bytes := by
  have hsize : sliceBatchOutputSize capacity = batch.header.length + sliceSize * capacity := by
    rw [length_header]
    rfl
  rw [hsize, bytes, ← header, take_length_add_append, take_flatMap length_bytes]

section

variable (batch : SliceBatchEvent) (rest : Bytes)

theorem uint16At_magic : uint16At (batch.header ++ rest) 0 = batch.magic := by
  have hread : readLE 2 (batch.header ++ rest) 0 = batch.magic.toNat :=
    readLE_of_eq [] (toLE 2 batch.extraBitmapU64Count.toNat ++ toLE 4 batch.count.toNat ++ rest)
      (by simp [SliceBatchEvent.header]) rfl batch.magic.toNat_lt
  rw [uint16At, hread, UInt16.ofNat_toNat]

theorem uint16At_extraBitmapU64Count :
    uint16At (batch.header ++ rest) 2 = batch.extraBitmapU64Count := by
  have hread : readLE 2 (batch.header ++ rest) 2 = batch.extraBitmapU64Count.toNat :=
    readLE_of_eq (toLE 2 batch.magic.toNat) (toLE 4 batch.count.toNat ++ rest)
      (by simp [SliceBatchEvent.header]) (by simp) batch.extraBitmapU64Count.toNat_lt
  rw [uint16At, hread, UInt16.ofNat_toNat]

theorem uint32At_count : uint32At (batch.header ++ rest) 4 = batch.count := by
  have hread : readLE 4 (batch.header ++ rest) 4 = batch.count.toNat :=
    readLE_of_eq (toLE 2 batch.magic.toNat ++ toLE 2 batch.extraBitmapU64Count.toNat) rest
      (by simp [SliceBatchEvent.header]) (by simp) batch.count.toNat_lt
  rw [uint32At, hread, UInt32.ofNat_toNat]

theorem packedSliceAt_header (front back : List PackedSlice) (packed : PackedSlice) :
    packedSliceAt (batch.header ++ ((front ++ packed :: back).flatMap PackedSlice.bytes ++ rest))
      front.length = packed := by
  have hfront : (batch.header ++ front.flatMap PackedSlice.bytes).length =
      batchHeaderSize + sliceSize * front.length := by
    rw [length_append, batch.length_header, length_flatMap length_bytes]
  have hword (word : UInt64) : word.toNat < 256 ^ 8 := word.toNat_lt
  have hbase := readLE_of_eq (batch.header ++ front.flatMap PackedSlice.bytes)
    (toLE 8 packed.bitmapExtra.toNat ++ (back.flatMap PackedSlice.bytes ++ rest)) rfl hfront.symm
    (hword packed.packedBase)
  have hextra := readLE_of_eq
    (batch.header ++ front.flatMap PackedSlice.bytes ++ toLE 8 packed.packedBase.toNat)
    (back.flatMap PackedSlice.bytes ++ rest) rfl
    (show batchHeaderSize + sliceSize * front.length + 8 = _ by
      rw [length_append, hfront, length_toLE])
    (hword packed.bitmapExtra)
  have hraw : batch.header ++ ((front ++ packed :: back).flatMap PackedSlice.bytes ++ rest) =
      batch.header ++ front.flatMap PackedSlice.bytes ++ (toLE 8 packed.packedBase.toNat ++
        (toLE 8 packed.bitmapExtra.toNat ++ (back.flatMap PackedSlice.bytes ++ rest))) := by
    simp [PackedSlice.bytes]
  rw [hraw, packedSliceAt, uint64At, uint64At, hbase, UInt64.ofNat_toNat]
  rw [append_assoc _ (toLE 8 packed.packedBase.toNat)] at hextra
  rw [hextra, UInt64.ofNat_toNat]

end

theorem getElem_decodePackedSlices (raw : Bytes) (count : Nat) (old : Batch) {i : Nat}
    (hi : i < maxBatchSlices) : (decodePackedSlices raw count old.packedSlices)[i] =
      if i < count then packedSliceAt raw i else old.packedSlices[i] := by
  induction count with
  | zero => rfl
  | succ count ih =>
    rw [decodePackedSlices, range_succ, foldl_append, foldl_cons, foldl_nil,
      ← decodePackedSlices, Vector.getElem_setIfInBounds]
    by_cases heq : count = i
    · simp [heq]
    rw [if_neg heq, ih]
    congr 1
    exact propext (by omega)

/-- The slices that were written are read again. -/
theorem take_decodePackedSlices (batch : SliceBatchEvent) (items : List PackedSlice) (rest : Bytes)
    (old : Batch) {count : Nat} (hcnt : count ≤ items.length) (hmax : count ≤ maxBatchSlices) :
    (decodePackedSlices (batch.header ++ (items.flatMap PackedSlice.bytes ++ rest)) count
      old.packedSlices).toList.take count = items.take count := by
  apply ext_getElem
  · simp [hmax, hcnt]
  · intro i hi _
    have hlt : i < count := (length_take_le count _).trans_lt' hi
    have hitem : i < items.length := by omega
    have hitems : items = items.take i ++ items[i] :: items.drop (i + 1) := by
      rw [← drop_eq_getElem_cons, take_append_drop]
    have hread := packedSliceAt_header batch rest (items.take i) (items.drop (i + 1)) items[i]
    rw [← hitems, length_take_of_le hitem.le] at hread
    rw [getElem_take, getElem_take, Vector.getElem_toList,
      getElem_decodePackedSlices _ _ _ (by omega), if_pos hlt, hread]

/-- Both sides take the same power of two for a count. -/
theorem outputCapacity_spec {count : UInt32} (hpos : count ≠ 0) (hmax : count ≤ 128) :
    outputCapacity count = batchCapacity count ∧ count.toNat ≤ outputCapacity count ∧
      outputCapacity count ≤ maxBatchSlices := by
  have hall : ∀ n : Fin 129, n.val ≠ 0 →
      outputCapacity (UInt32.ofNat n) = batchCapacity (UInt32.ofNat n) ∧
        n ≤ outputCapacity (UInt32.ofNat n) ∧ outputCapacity (UInt32.ofNat n) ≤ maxBatchSlices := by
    decide
  have hlt : count.toNat < 129 := Nat.lt_succ_of_le (UInt32.le_iff_toNat_le.1 hmax)
  have hne : count.toNat ≠ 0 := fun hzero => hpos (UInt32.toNat_inj.1 hzero)
  simpa using hall ⟨count.toNat, hlt⟩ hne

theorem length_perfRecord (fill : Nat → UInt8) (payload : Bytes) :
    (perfRecord fill payload).length = perfRawSampleSize payload.length := by
  have hmask (n : Nat) : n &&& (8 - 1) = n % 8 := Nat.and_two_pow_sub_one_eq_mod n 3
  simp only [perfRecord, perfRawSampleSize, andNot, hmask, length_append, length_map,
    length_range]
  omega

/-- A batch that `emitSliceBatch` submits. -/
structure SliceBatchEvent.Ready (batch : SliceBatchEvent) : Prop where
  magic : batch.magic = batchMagic
  extraBitmapU64Count : batch.extraBitmapU64Count = 1
  count_ne_zero : batch.count ≠ 0
  count_le : batch.count ≤ 128

/-- Whatever the record held, the decoder takes the bytes as a batch of these slices. -/
def DecodesTo (raw : Bytes) (slices : List PackedSlice) : Prop :=
  ∀ record, ∃ batch, decodeRecord raw record = ({ record with batch, kind := .batch }, none) ∧
    batch.slices = slices

variable {batch : SliceBatchEvent}

theorem validateBatchHeader_header (hready : batch.Ready) (rest : Bytes) :
    validateBatchHeader (batch.header ++ rest) = .ok batch.count := by
  have hlen : ¬ (batch.header ++ rest).length < batchHeaderSize := by simp
  have hcnt : ¬ (batch.count = 0 ∨ batch.count.toNat > maxBatchSlices) := by
    rintro (hzero | hgt)
    · exact hready.count_ne_zero hzero
    · exact absurd hgt (Nat.not_lt.2 (UInt32.le_iff_toNat_le.1 hready.count_le))
  rw [validateBatchHeader, if_neg hlen, uint16At_magic, uint16At_extraBitmapU64Count,
    uint32At_count,
    hready.magic, hready.extraBitmapU64Count, if_neg (by decide), if_neg (by decide), if_neg hcnt]

theorem decodeRecord_header (hready : batch.Ready) (rest : Bytes) (record : Record)
    (hlen : (batch.header ++ rest).length = expectedBatchSize batch.count false) :
    decodeRecord (batch.header ++ rest) record =
      ({ record with
          batch :=
            { count := batch.count
              packedSlices := decodePackedSlices (batch.header ++ rest) batch.count.toNat
                record.batch.packedSlices }
          kind := .batch }, none) := by
  have hshort : ¬ (batch.header ++ rest).length < 2 := by
    simp only [length_append, SliceBatchEvent.length_header, batchHeaderSize]
    omega
  have hbatch : decodeBatch (batch.header ++ rest) record.batch false =
      .ok { count := batch.count
            packedSlices := decodePackedSlices (batch.header ++ rest) batch.count.toNat
              record.batch.packedSlices } := by
    simp only [decodeBatch, validateBatchHeader_header hready, hlen, ne_eq, not_true_eq_false,
      if_false]
  simp only [decodeRecord]
  rw [if_neg hshort, uint16At_magic, hready.magic, if_neg (by decide), if_neg (by decide),
    if_pos rfl, hbatch]

theorem decodesTo_submitted (hready : batch.Ready) (fill : Nat → UInt8) :
    DecodesTo (perfRecord fill
      (batch.bytes.take (sliceBatchOutputSize (outputCapacity batch.count)))) batch.slices := by
  intro record
  obtain ⟨hcap, hcnt, hmax⟩ := outputCapacity_spec hready.count_ne_zero hready.count_le
  set capacity := outputCapacity batch.count
  set items := batch.packedSlices.toList.take capacity with hdef
  have hitems : items.length = capacity := by simp [items, hmax]
  have hlen : (perfRecord fill (batch.bytes.take (sliceBatchOutputSize capacity))).length =
      expectedBatchSize batch.count false := by
    rw [length_perfRecord, batch.take_bytes, length_append, batch.length_header,
      length_flatMap length_bytes, hitems, expectedBatchSize, ← hcap, Nat.mul_comm]
    rfl
  rw [perfRecord, batch.take_bytes, ← hdef, append_assoc] at hlen ⊢
  refine ⟨_, decodeRecord_header hready _ record hlen, ?_⟩
  have hsli := take_decodePackedSlices batch items
    ((List.range ((8 - ((batch.header ++ items.flatMap PackedSlice.bytes).length + 4) % 8) % 8)).map
      fill) record.batch (hcnt.trans hitems.ge) (hcnt.trans hmax)
  rw [Batch.slices, hsli, hdef, take_take, min_eq_left hcnt]
  rfl

/-! ## One step -/

/-- The slices of a submitted record, whether or not the kernel took it. -/
def Output.slices (output : Output) : List PackedSlice :=
  (decodeRecord (perfRecord (fun _ => 0) output.payload) {}).1.batch.slices

theorem DecodesTo.slices_eq {output : Output} {slices : List PackedSlice}
    (h : DecodesTo (perfRecord (fun _ => 0) output.payload) slices) : output.slices = slices := by
  obtain ⟨batch, hdeco, hsli⟩ := h {}
  rw [Output.slices, hdeco]
  exact hsli

/-- The submissions that failed. -/
def PerCPU.failed (cpu : PerCPU) : List Output := cpu.outputs.filter fun output => !output.accepted

/-- A CPU to which the given slices were appended. -/
structure Inv (appended : List PackedSlice) (cpu : PerCPU) : Prop where
  slices : cpu.outputs.flatMap Output.slices ++ cpu.batch.slices = appended
  decodes : ∀ output ∈ cpu.outputs, ∀ fill,
    DecodesTo (perfRecord fill output.payload) output.slices
  failures : cpu.nPerfSubmissionFailures = UInt64.ofNat cpu.failed.length
  failedSlices : cpu.nPerfSubmissionFailedSlices =
    UInt64.ofNat (cpu.failed.flatMap Output.slices).length
  count_le : cpu.batch.count ≤ 128
  ready : cpu.batch.count ≠ 0 → cpu.batch.Ready
  first : cpu.batchFirstTsNs ≠ 0 ↔ cpu.batch.count ≠ 0

theorem inv_start : Inv [] {} where
  slices := rfl
  decodes := fun _ h => absurd h not_mem_nil
  failures := rfl
  failedSlices := rfl
  count_le := by decide
  ready := fun h => absurd rfl h
  first := by decide

section

variable {accepts : Nat → Bool} {appended : List PackedSlice} {cpu : PerCPU} (hi : Inv appended cpu)
include hi

theorem Inv.emitSliceBatch :
    Inv appended (emitSliceBatch accepts cpu) ∧ (emitSliceBatch accepts cpu).batch.count = 0 := by
  unfold SchedBlame.emitSliceBatch
  simp only
  split
  · next hskip =>
    have hzero : cpu.batch.count = 0 := hskip.resolve_right (UInt32.not_lt.2 hi.count_le)
    exact ⟨hi, hzero⟩
  · next hsub =>
    have hready : cpu.batch.Ready := hi.ready fun hzero => hsub (.inl hzero)
    set result := outputSliceBatch accepts cpu cpu.batch.count with hres
    have hdec (fill : Nat → UInt8) :
        DecodesTo (perfRecord fill result.payload) cpu.batch.slices :=
          decodesTo_submitted hready fill
    have hsli : result.slices = cpu.batch.slices := (hdec _).slices_eq
    refine ⟨{ slices := ?_, decodes := ?_, failures := ?_, failedSlices := ?_, count_le := ?_,
              ready := ?_, first := ?_ }, rfl⟩
    · simpa [hsli, SliceBatchEvent.slices] using hi.slices
    · intro output hmem fill
      rcases mem_append.1 hmem with hold | hnew
      · exact hi.decodes output hold fill
      · obtain rfl := mem_singleton.1 hnew
        rw [hsli]
        exact hdec fill
    · cases hacc : result.accepted <;>
        simp [PerCPU.failed, hacc, hi.failures]
    · have hlen : cpu.batch.slices.length = cpu.batch.count.toNat := by
        rw [SliceBatchEvent.slices, length_take, Vector.length_toList]
        exact min_eq_left (UInt32.le_iff_toNat_le.1 hi.count_le)
      cases hacc : result.accepted <;>
        simp [PerCPU.failed, hacc, hi.failedSlices, hsli, hlen]
    · exact UInt32.le_iff_toNat_le.2 (Nat.zero_le _)
    · exact fun h => absurd rfl h
    · simp

theorem Inv.flushSliceBatchIfAged (now : UInt64) :
    Inv appended (flushSliceBatchIfAged accepts now cpu) := by
  simp only [SchedBlame.flushSliceBatchIfAged]
  split
  · exact hi
  · exact hi.emitSliceBatch.1

theorem Inv.storeSlice {now : UInt64} (hnow : now ≠ 0) (packed : PackedSlice)
    (hroom : cpu.batch.count < 128) :
    Inv (appended ++ [packed]) (storeSlice now packed cpu.batch.count cpu) := by
  have hlt : cpu.batch.count.toNat < 128 := UInt32.lt_iff_toNat_lt.1 hroom
  have hcnt : (cpu.batch.count + 1).toNat = cpu.batch.count.toNat + 1 := by
    rw [UInt32.toNat_add, UInt32.toNat_one]
    exact Nat.mod_eq_of_lt (by omega)
  have hne : cpu.batch.count + 1 ≠ 0 := by
    intro hzero
    rw [hzero, UInt32.toNat_zero] at hcnt
    omega
  have hle : cpu.batch.count + 1 ≤ 128 := by
    rw [UInt32.le_iff_toNat_le, hcnt]
    exact hlt
  have hsli : (SchedBlame.storeSlice now packed cpu.batch.count cpu).batch.slices =
      cpu.batch.slices ++ [packed] := by
    have hlen : cpu.batch.count.toNat < cpu.batch.packedSlices.toList.length := by
      rw [Vector.length_toList]
      exact hlt
    simp only [SchedBlame.storeSlice, SliceBatchEvent.slices, hcnt, Vector.toList_setIfInBounds]
    rw [set_eq_take_append_cons_drop, if_pos hlen, take_append,
      take_of_length_le (by rw [length_take]; omega), length_take_of_le hlen.le,
      Nat.add_sub_cancel_left, take_succ_cons, take_zero]
  refine { slices := ?_, decodes := hi.decodes, failures := hi.failures,
           failedSlices := hi.failedSlices, count_le := hle, ready := fun _ => ?_, first := ?_ }
  · rw [hsli, ← hi.slices, append_assoc]
    rfl
  · refine ⟨?_, ?_, hne, hle⟩ <;> simp only [SchedBlame.storeSlice]
    · split
      · rfl
      · next h => exact (hi.ready h).magic
    · split
      · rfl
      · next h => exact (hi.ready h).extraBitmapU64Count
  · simp only [SchedBlame.storeSlice, ne_eq, hne, not_false_eq_true, iff_true]
    split
    · exact hnow
    · next h => exact hi.first.2 h

theorem Inv.appendSampledSlice (sliceBatchSize : UInt32) {now : UInt64} (hnow : now ≠ 0)
    (packed : PackedSlice) :
    Inv (appended ++ [packed]) (appendSampledSlice accepts sliceBatchSize now packed cpu) := by
  have hsto : ∀ {cpu : PerCPU}, Inv (appended ++ [packed]) cpu →
      Inv (appended ++ [packed])
        (if cpu.batch.count ≥ clampBatchSize sliceBatchSize then
          SchedBlame.emitSliceBatch accepts cpu
        else cpu) := by
    intro cpu hi
    split
    · exact hi.emitSliceBatch.1
    · exact hi
  have hmask (index : UInt32) (hlt : index < 128) : index &&& 127 = index := by
    rw [← UInt32.toNat_inj, UInt32.toNat_and]
    have h := Nat.and_two_pow_sub_one_eq_mod index.toNat 7
    exact h.trans (Nat.mod_eq_of_lt (UInt32.lt_iff_toNat_lt.1 hlt))
  simp only [SchedBlame.appendSampledSlice]
  apply hsto
  by_cases hfull : cpu.batch.count ≥ 128
  · obtain ⟨hemi, hzero⟩ : Inv appended (SchedBlame.emitSliceBatch accepts cpu) ∧ _ :=
      hi.emitSliceBatch
    rw [if_pos hfull, if_pos hfull, hmask 0 (by decide), ← hzero]
    exact hemi.storeSlice hnow packed (by rw [hzero]; decide)
  · have hroom : cpu.batch.count < 128 := UInt32.not_le.1 hfull
    rw [if_neg hfull, if_neg hfull, hmask _ hroom]
    exact hi.storeSlice hnow packed hroom

theorem Inv.handle (sliceBatchSize : UInt32) {event : Event} (hnow : event.now ≠ 0) :
    Inv (appended ++ event.slices) (handle sliceBatchSize accepts cpu event) := by
  cases event with
  | sample now durationNs waiting cssID => exact hi.appendSampledSlice sliceBatchSize hnow _
  | flush now =>
    rw [Event.slices, append_nil]
    exact hi.flushSliceBatchIfAged now

end

/-! ## Runs -/

theorem inv_runCPU (sliceBatchSize : UInt32) (accepts : Nat → Bool) {events : List Event}
    (hnow : ∀ event ∈ events, event.now ≠ 0) :
    Inv (events.flatMap Event.slices) (runCPU sliceBatchSize accepts events) := by
  induction events using List.reverseRecOn with
  | nil => exact inv_start
  | append_singleton events event ih =>
    have hi := ih fun e he => hnow e (mem_append_left _ he)
    rw [runCPU, foldl_concat, flatMap_append, flatMap_singleton]
    exact hi.handle sliceBatchSize (hnow event (mem_append_right _ mem_cons_self))

/-- Every record that the kernel takes is decoded as a batch, however it is padded and whatever the
reader's record held. The decoded slices of those records, the slices counted as failed and the
slices in the batch are the appended ones: in the order of the submissions, with the batch at the
end. A slice gives back its CSS ID, its run time up to 32 bits and the flags of the targets, and the
first time stamp tells whether the batch holds a slice. -/
theorem records_decode (sliceBatchSize : UInt32) (accepts : Nat → Bool) (events : List Event)
    (hnow : ∀ event ∈ events, event.now ≠ 0) : let cpu := runCPU sliceBatchSize accepts events
    (∀ output ∈ cpu.outputs, ∀ fill,
      ((perfRecord fill output.payload).length + 4) % 8 = 0 ∧
        DecodesTo (perfRecord fill output.payload) output.slices) ∧
    cpu.outputs.flatMap Output.slices ++ cpu.batch.slices = events.flatMap Event.slices ∧
    ((cpu.outputs.filter Output.accepted).flatMap Output.slices ++ cpu.batch.slices).Sublist
      (events.flatMap Event.slices) ∧
    cpu.nPerfSubmissionFailures = UInt64.ofNat cpu.failed.length ∧
    cpu.nPerfSubmissionFailedSlices = UInt64.ofNat (cpu.failed.flatMap Output.slices).length ∧
    (∀ now durationNs waiting cssID, Event.sample now durationNs waiting cssID ∈ events →
      ∃ packed, (Event.sample now durationNs waiting cssID).slices = [packed] ∧
        (unpackSliceBase packed).1.toNat = cssID ∧
        (unpackSliceBase packed).2.toNat = min durationNs.toNat (2 ^ 32 - 1) ∧
        ∀ targetIndex < maxTargets,
          sliceHasTarget packed targetIndex = waiting.contains targetIndex) ∧
    (cpu.batchFirstTsNs ≠ 0 ↔ cpu.batch.slices ≠ []) := by
  intro cpu
  have hi : Inv (events.flatMap Event.slices) cpu := inv_runCPU sliceBatchSize accepts hnow
  refine ⟨fun output hmem fill => ⟨?_, hi.decodes output hmem fill⟩, hi.slices, ?_, hi.failures,
    hi.failedSlices, fun now durationNs waiting cssID _ => ?_, ?_⟩
  · simp only [perfRecord, length_append, length_map, length_range]
    omega
  · rw [← hi.slices]
    exact (filter_sublist.flatMap Output.slices).append (List.Sublist.refl _)
  · obtain ⟨hcss, hduration⟩ := unpackSliceBase_packSlice durationNs waiting cssID
    exact ⟨_, rfl, hcss, hduration, fun targetIndex _ =>
      sliceHasTarget_packSlice durationNs waiting cssID targetIndex⟩
  · have hne : cpu.batch.packedSlices.toList ≠ [] := by
      rw [← length_pos_iff, Vector.length_toList]
      decide
    rw [hi.first, not_iff_not, SliceBatchEvent.slices, take_eq_nil_iff, or_iff_left hne,
      ← UInt32.toNat_inj, UInt32.toNat_zero]

/-- With batches of two: a batch that is full, and one that is flushed at its age. -/
def sampleEvents : List Event :=
  [.sample 1 5 { base := 1 } ⟨7, by decide⟩, .sample 2 8589934592 { extra := 1 } ⟨8, by decide⟩,
    .sample 3 1 {} ⟨9, by decide⟩, .flush 20000000]

/-- The full batch is refused and the other one is read. -/
theorem records_decode_refused : let cpu := runCPU 2 (fun n => n = 1) sampleEvents
    cpu.outputs.map Output.accepted = [false, true] ∧ cpu.nPerfSubmissionFailedSlices = 2 ∧
      (∀ output ∈ cpu.outputs, ∀ fill,
        DecodesTo (perfRecord fill output.payload) output.slices) ∧
      (cpu.batchFirstTsNs ≠ 0 ↔ cpu.batch.slices ≠ []) := by
  have hnow : ∀ event ∈ sampleEvents, event.now ≠ 0 := by decide
  obtain ⟨hdecodes, -, -, -, -, -, hfirst⟩ :=
    records_decode 2 (fun n => n = 1) sampleEvents hnow
  exact ⟨by decide, by decide, fun output hmem fill => (hdecodes output hmem fill).2, hfirst⟩

end Huatuo.SchedBlame
