import Mathlib.Data.List.Nodup
import Mathlib.Data.Nat.Bitwise

/-!
# Words in memory

Little-endian words in a byte string, tests of single bits, and the loop that takes the set bits of
a word from the lowest up, `for x != 0 { i := TrailingZeros(x); ...; x &= x - 1 }`.
-/

namespace Huatuo.Words

open List

abbrev Bytes := List UInt8

/-! ## Little-endian words -/

/-- The low `width` bytes of a number. -/
def toLE : Nat → Nat → Bytes
  | 0, _ => []
  | width + 1, value => UInt8.ofNat (value % 256) :: toLE width (value / 256)

def ofLE : Bytes → Nat
  | [] => 0
  | byte :: rest => byte.toNat + 256 * ofLE rest

/-- The word of `width` bytes at an offset. -/
def readLE (width : Nat) (bytes : Bytes) (offset : Nat) : Nat :=
  ofLE ((bytes.drop offset).take width)

@[simp] theorem length_toLE (width value : Nat) : (toLE width value).length = width := by
  induction width generalizing value with
  | zero => rfl
  | succ width ih => simp [toLE, ih]

theorem ofLE_toLE (width value : Nat) : ofLE (toLE width value) = value % 256 ^ width := by
  induction width generalizing value with
  | zero => simp [toLE, ofLE, Nat.mod_one]
  | succ width ih =>
    simp only [toLE, ofLE, ih]
    rw [Nat.pow_succ, Nat.mul_comm _ 256, Nat.mod_mul]
    simp

variable {width bit x : Nat}

/-- A word is read back from where it stands. -/
theorem readLE_of_eq {bytes : Bytes} {value offset : Nat} (front back : Bytes)
    (hbytes : bytes = front ++ (toLE width value ++ back)) (hoff : offset = front.length)
    (hv : value < 256 ^ width) : readLE width bytes offset = value := by
  have hdrop : bytes.drop offset = toLE width value ++ back := by
    rw [hbytes]
    exact drop_left' hoff.symm
  rw [readLE, hdrop, take_left' (length_toLE width value), ofLE_toLE, Nat.mod_eq_of_lt hv]

/-! ## Blocks of one size -/

section Blocks

variable {α β : Type*} {encode : α → List β} {size : Nat}

theorem length_flatMap (hsize : ∀ a, (encode a).length = size) (items : List α) :
    (items.flatMap encode).length = size * items.length := by
  induction items with
  | nil => rfl
  | cons a rest ih => simp [ih, hsize, Nat.mul_add, Nat.add_comm]

theorem take_flatMap (hsize : ∀ a, (encode a).length = size) (items : List α) (n : Nat) :
    (items.flatMap encode).take (size * n) = (items.take n).flatMap encode := by
  induction items generalizing n with
  | nil => simp
  | cons a rest ih =>
    cases n with
    | zero => simp
    | succ n =>
      have hsum : size * (n + 1) = (encode a).length + size * n := by
        rw [hsize, Nat.mul_add, Nat.mul_one, Nat.add_comm]
      rw [flatMap_cons, hsum, take_length_add_append, ih, take_succ_cons,
        flatMap_cons]

end Blocks

/-! ## Single bits -/

/-- Whether `word & (1 << bit)` is not zero. -/
def bit64 (word : UInt64) (bit : Nat) : Bool := word &&& (1 <<< UInt64.ofNat bit) != 0

def bit32 (word : UInt32) (bit : Nat) : Bool := word &&& (1 <<< UInt32.ofNat bit) != 0

theorem and_two_pow_bne (x i : Nat) : (x &&& 2 ^ i != 0) = x.testBit i := by
  rw [Nat.and_two_pow]
  cases x.testBit i <;> simp

theorem toNat_mask64 (hbit : bit < 64) : ((1 : UInt64) <<< UInt64.ofNat bit).toNat = 2 ^ bit := by
  rw [UInt64.toNat_shiftLeft, UInt64.toNat_ofNat_of_lt' (by simp [UInt64.size]; omega),
    Nat.mod_eq_of_lt hbit, UInt64.toNat_one, Nat.one_shiftLeft]
  exact Nat.mod_eq_of_lt (Nat.pow_lt_pow_right (by decide) hbit)

theorem toNat_mask32 (hbit : bit < 32) : ((1 : UInt32) <<< UInt32.ofNat bit).toNat = 2 ^ bit := by
  rw [UInt32.toNat_shiftLeft, UInt32.toNat_ofNat_of_lt' (by simp [UInt32.size]; omega),
    Nat.mod_eq_of_lt hbit, UInt32.toNat_one, Nat.one_shiftLeft]
  exact Nat.mod_eq_of_lt (Nat.pow_lt_pow_right (by decide) hbit)

theorem bit64_eq (word : UInt64) (hbit : bit < 64) : bit64 word bit = word.toNat.testBit bit := by
  rw [bit64, ← and_two_pow_bne, ← toNat_mask64 hbit, ← UInt64.toNat_and, Bool.eq_iff_iff]
  simp [← UInt64.toNat_inj]

theorem bit32_eq (word : UInt32) (hbit : bit < 32) : bit32 word bit = word.toNat.testBit bit := by
  rw [bit32, ← and_two_pow_bne, ← toNat_mask32 hbit, ← UInt32.toNat_and, Bool.eq_iff_iff]
  simp [← UInt32.toNat_inj]

theorem bit64_or_mask (word : UInt64) {i : Nat} (hbit : bit < 64) (hi : i < 64) :
    bit64 (word ||| (1 <<< UInt64.ofNat i)) bit = (bit64 word bit || decide (i = bit)) := by
  rw [bit64_eq _ hbit, bit64_eq _ hbit, UInt64.toNat_or, toNat_mask64 hi, Nat.testBit_or,
    Nat.testBit_two_pow]

theorem bit32_or_mask (word : UInt32) {i : Nat} (hbit : bit < 32) (hi : i < 32) :
    bit32 (word ||| (1 <<< UInt32.ofNat i)) bit = (bit32 word bit || decide (i = bit)) := by
  rw [bit32_eq _ hbit, bit32_eq _ hbit, UInt32.toNat_or, toNat_mask32 hi, Nat.testBit_or,
    Nat.testBit_two_pow]

/-! ## The loop over the set bits -/

/-- The set bits below `width`, from the lowest up. -/
def setBits (width x : Nat) : List Nat := (List.range width).filter x.testBit

/-- The lowest set bit, and `width` if there is none. -/
def trailingZeros (width x : Nat) : Nat := ((List.range width).find? x.testBit).getD width

/-- `fuel` bounds the rounds; a word of `width` bits takes at most `width` of them. -/
def forEachBit {σ : Type*} (width : Nat) (body : σ → Nat → σ) : Nat → Nat → σ → σ
  | 0, _, s => s
  | fuel + 1, x, s =>
    if x = 0 then s
    else forEachBit width body fuel (x &&& (x - 1)) (body s (trailingZeros width x))

theorem length_setBits_le (width x : Nat) : (setBits width x).length ≤ width := by
  simpa [setBits] using length_filter_le x.testBit (List.range width)

theorem trailingZeros_spec (hx : x ≠ 0) (hlt : x < 2 ^ width) :
    (List.range width).find? x.testBit = some (trailingZeros width x) := by
  obtain ⟨i, hi⟩ := Nat.exists_testBit_of_ne_zero hx
  have hiw : i < width := by
    by_contra hge
    have hf := Nat.testBit_lt_two_pow (hlt.trans_le (Nat.pow_le_pow_right (by decide)
      (Nat.le_of_not_lt hge)))
    exact absurd hi (by simp [hf])
  have hsome : ((List.range width).find? x.testBit).isSome :=
    List.find?_isSome.2 ⟨i, mem_range.2 hiw, hi⟩
  obtain ⟨t, ht⟩ := Option.isSome_iff_exists.1 hsome
  rw [trailingZeros, ht, Option.getD_some]

/-- `x & (x - 1)` clears the lowest set bit and no other. -/
theorem testBit_and_sub_one {t : Nat} (hset : x.testBit t) (hlow : ∀ i < t, x.testBit i = false)
    (i : Nat) : (x &&& (x - 1)).testBit i = (x.testBit i && decide (i ≠ t)) := by
  have hmod : x % 2 ^ t = 0 := by
    apply Nat.eq_of_testBit_eq
    intro j
    by_cases hj : j < t <;> simp [hj, hlow]
  have hodd : x / 2 ^ t % 2 = 1 := by
    simpa [Nat.testBit_eq_decide_div_mod_eq] using hset
  -- x is an odd multiple of 2^t, and subtracting one borrows from its last bit
  obtain ⟨m, hm⟩ : ∃ m, x / 2 ^ t = 2 * m + 1 := ⟨x / 2 ^ t / 2, by omega⟩
  have hx : x = 2 ^ t * (2 * m + 1) + 0 := by
    rw [← hm, ← hmod, Nat.div_add_mod]
  have hpow : 0 < 2 ^ t := Nat.two_pow_pos t
  have hpred : x - 1 = 2 ^ t * (2 * m) + (2 ^ t - 1) := by
    rw [hx, Nat.mul_add]
    omega
  rw [Nat.testBit_and, hpred, Nat.testBit_two_pow_mul_add _ (by omega)]
  rcases Nat.lt_trichotomy i t with hi | rfl | hi
  · simp [hlow i hi]
  · simp
  · obtain ⟨d, rfl⟩ : ∃ d, i = t + (d + 1) := ⟨i - t - 1, by omega⟩
    rw [hx, Nat.testBit_two_pow_mul_add _ hpow]
    have hlt : ¬ t + (d + 1) < t := by omega
    have hd : t + (d + 1) - t = d + 1 := by omega
    simp [hlt, hd, Nat.testBit_succ, Nat.mul_add_div]

theorem filter_eq_cons {α : Type*} [DecidableEq α] {p : α → Bool} {l : List α} {a : α}
    (hnd : l.Nodup) (hfind : l.find? p = some a) :
    l.filter p = a :: l.filter fun b => p b && decide (b ≠ a) := by
  induction l with
  | nil => simp at hfind
  | cons b rest ih =>
    obtain ⟨hb, hrest⟩ := nodup_cons.1 hnd
    by_cases hpb : p b
    · obtain rfl : b = a := by simpa [hpb] using hfind
      have hsame : rest.filter p = rest.filter fun c => p c && decide (c ≠ b) :=
        filter_congr fun c hc => by simp [ne_of_mem_of_not_mem hc hb]
      simp [hpb, hsame]
    · have hne : b ≠ a := fun heq => hpb (heq ▸ List.find?_some hfind)
      simp [hpb, ih hrest (by simpa [hpb] using hfind)]

theorem setBits_eq_cons (hx : x ≠ 0) (hlt : x < 2 ^ width) :
    setBits width x = trailingZeros width x :: setBits width (x &&& (x - 1)) := by
  have hfind := trailingZeros_spec hx hlt
  obtain ⟨hset, -, hlow⟩ := List.find?_range_eq_some.1 hfind
  simp only [Bool.not_eq_eq_eq_not, Bool.not_true] at hlow
  rw [setBits, filter_eq_cons nodup_range hfind, setBits]
  congr 1
  exact filter_congr fun i _ => (testBit_and_sub_one hset hlow i).symm

/-- The loop runs its body at the set bits, from the lowest up. -/
theorem forEachBit_eq {σ : Type*} (body : σ → Nat → σ) {fuel : Nat} (s : σ) (hlt : x < 2 ^ width)
    (hfuel : (setBits width x).length ≤ fuel) :
    forEachBit width body fuel x s = (setBits width x).foldl body s := by
  induction fuel generalizing x s with
  | zero => rw [length_eq_zero_iff.1 (Nat.le_zero.1 hfuel)]; rfl
  | succ fuel ih =>
    rw [forEachBit]
    split
    · next hx =>
      have hnil : setBits width x = [] := by simp [hx, setBits]
      rw [hnil, foldl_nil]
    · next hx =>
      have hcons := setBits_eq_cons hx hlt
      rw [hcons, length_cons] at hfuel
      rw [ih _ (Nat.and_lt_two_pow _ (by omega)) (by omega), hcons, foldl_cons]

/-! ## Up to a terminator -/

section Terminator

variable {α : Type*} [DecidableEq α] {l : List α} {a : α}

theorem length_takeWhile_lt (h : a ∈ l) : (l.takeWhile (· ≠ a)).length < l.length := by
  induction l with
  | nil => exact absurd h not_mem_nil
  | cons b rest ih =>
    by_cases hb : b = a
    · simp [hb]
    · have hrest := ih ((mem_cons.1 h).resolve_left (Ne.symm hb))
      simpa [hb] using hrest

/-- More input behind the terminator does not matter. -/
theorem takeWhile_take_of_mem {m n : Nat} (hmn : m ≤ n) (h : a ∈ l.take m) :
    (l.take n).takeWhile (· ≠ a) = (l.take m).takeWhile (· ≠ a) := by
  have hsplit := take_append_drop m (l.take n)
  rw [take_take, Nat.min_eq_left hmn] at hsplit
  rw [← hsplit, takeWhile_append, if_neg (Nat.ne_of_lt (length_takeWhile_lt h))]

end Terminator

end Huatuo.Words
