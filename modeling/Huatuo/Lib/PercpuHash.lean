import Mathlib.Algebra.BigOperators.Group.Finset.Piecewise
import Mathlib.Data.UInt

/-!
# Per-CPU hash maps of counters

A row has one 64-bit slot for each CPU. A new row starts with a value in the slot of its CPU and 0
in the others; a CPU adds to its own slot. `total` is what all slots of all rows hold. It grows with
the additions up to multiples of 2⁶⁴, which a slot loses when it wraps around.
-/

namespace Huatuo.PercpuHash

open Function List

variable {κ ι : Type*}

/-- The rows of a map, each key once. -/
abbrev Rows (κ ι : Type*) := List (κ × (ι → UInt64))

def wrap : Nat := 2 ^ 64

theorem exists_wrap_succ (x : UInt64) : ∃ lost, (x + 1).toNat + wrap * lost = x.toNat + 1 := by
  refine ⟨(x.toNat + 1) / wrap, ?_⟩
  have hsucc : (x + 1).toNat = (x.toNat + 1) % wrap := by
    rw [UInt64.toNat_add]
    rfl
  rw [hsucc]
  exact Nat.mod_add_div _ _

def slots [Fintype ι] (row : ι → UInt64) : Nat := ∑ c, (row c).toNat

def total [Fintype ι] (rows : Rows κ ι) : Nat := (rows.map fun row => slots row.2).sum

variable [DecidableEq ι]

/-- A CPU adds 1 to its slot. -/
def bump (c : ι) (row : ι → UInt64) : ι → UInt64 := update row c (row c + 1)

theorem slots_bump [Fintype ι] (c : ι) (row : ι → UInt64) :
    ∃ lost, slots (bump c row) + wrap * lost = slots row + 1 := by
  obtain ⟨lost, hlost⟩ := exists_wrap_succ (row c)
  refine ⟨lost, ?_⟩
  have hmem : c ∈ Finset.univ := Finset.mem_univ c
  have hbump : slots (bump c row) =
      (row c + 1).toNat + ∑ c' ∈ Finset.univ \ {c}, (row c').toNat := by
    have hupd : (fun c' => (bump c row c').toNat) =
        update (fun c' => (row c').toNat) c (row c + 1).toNat := by
      funext c'
      by_cases hc' : c' = c
      · subst hc'
        rw [bump, update_self, update_self]
      · rw [bump, update_of_ne hc', update_of_ne hc']
    rw [slots, hupd, Finset.sum_update_of_mem hmem]
  have hrow : slots row = (row c).toNat + ∑ c' ∈ Finset.univ \ {c}, (row c').toNat :=
    Finset.sum_eq_add_sum_sdiff_singleton_of_mem hmem _
  omega

/-- A new row. -/
def fresh (c : ι) : ι → UInt64 := bump c fun _ => 0

theorem slots_fresh [Fintype ι] (c : ι) : slots (fresh c) = 1 := by
  obtain ⟨lost, hlost⟩ := slots_bump c fun _ => 0
  have hzero : slots (fun _ : ι => (0 : UInt64)) = 0 := by simp [slots]
  have hwrap : 1 < wrap := by decide
  rw [hzero] at hlost
  have hnone : lost = 0 := by
    by_contra hlost'
    have := Nat.le_mul_of_pos_right wrap (Nat.pos_of_ne_zero hlost')
    omega
  rw [hnone] at hlost
  exact hlost

variable [DecidableEq κ]

def contains (rows : Rows κ ι) (key : κ) : Bool := rows.any fun row => row.1 = key

/-- `bpf_map_update_elem` for a key that is not there. -/
def insert (rows : Rows κ ι) (key : κ) (c : ι) : Rows κ ι := (key, fresh c) :: rows

def increment (rows : Rows κ ι) (key : κ) (c : ι) : Rows κ ι :=
  rows.map fun row => if row.1 = key then (row.1, bump c row.2) else row

variable {key : κ} {rows : Rows κ ι}

omit [DecidableEq ι] in
theorem contains_iff : contains rows key ↔ key ∈ rows.map Prod.fst := by
  simp [contains]

theorem keys_increment (rows : Rows κ ι) (key : κ) (c : ι) :
    (increment rows key c).map Prod.fst = rows.map Prod.fst := by
  rw [increment, map_map]
  refine map_congr_left fun row _ => ?_
  simp only [comp_apply]
  split <;> rfl

omit [DecidableEq κ] in
theorem total_insert [Fintype ι] (rows : Rows κ ι) (key : κ) (c : ι) :
    total (insert rows key c) = total rows + 1 := by
  rw [total, insert, map_cons, sum_cons, slots_fresh, Nat.add_comm]
  rfl

theorem increment_of_notMem (h : key ∉ rows.map Prod.fst) (c : ι) :
    increment rows key c = rows := by
  refine (map_congr_left fun row hrow => if_neg fun heq => ?_).trans (map_id rows)
  exact h (heq ▸ mem_map_of_mem hrow)

theorem total_increment [Fintype ι] (hnd : (rows.map Prod.fst).Nodup)
    (hkey : key ∈ rows.map Prod.fst) (c : ι) :
    ∃ lost, total (increment rows key c) + wrap * lost = total rows + 1 := by
  induction rows with
  | nil => cases hkey
  | cons row rows ih =>
    rw [map_cons, nodup_cons] at hnd
    have hcons : increment (row :: rows) key c =
        (if row.1 = key then (row.1, bump c row.2) else row) :: increment rows key c := rfl
    have htotal : total (row :: rows) = slots row.2 + total rows := rfl
    rw [hcons, htotal]
    by_cases hrow : row.1 = key
    · obtain ⟨lost, hlost⟩ := slots_bump c row.2
      refine ⟨lost, ?_⟩
      rw [if_pos hrow, increment_of_notMem (hrow ▸ hnd.1), total, map_cons, sum_cons]
      change slots (bump c row.2) + total rows + wrap * lost = _
      omega
    · have hrest : key ∈ rows.map Prod.fst :=
        (mem_cons.1 hkey).resolve_left fun heq => hrow heq.symm
      obtain ⟨lost, hlost⟩ := ih hnd.2 hrest
      refine ⟨lost, ?_⟩
      rw [if_neg hrow, total, map_cons, sum_cons]
      change slots row.2 + total (increment rows key c) + wrap * lost = _
      omega

end Huatuo.PercpuHash
