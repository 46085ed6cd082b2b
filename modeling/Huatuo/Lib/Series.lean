import Mathlib.Algebra.BigOperators.Group.List.Basic
import Mathlib.Data.List.AList

/-!
# Series of totals

A map from keys to totals is changed by adding amounts under a key. `total` is the sum over the keys
with a property, and `total_insert` says what an addition under one key does to it. `amount` reads
the total of an entry, so that an entry may hold more than its total.
-/

namespace Huatuo.Series

open List

variable {κ β M : Type*} [AddCommMonoid M] {amount : β → M} {p : κ → Bool}

/-- The sum of the totals of the keys with a property. -/
def total (amount : β → M) (p : κ → Bool) (series : AList fun _ : κ => β) : M :=
  ((series.entries.filter fun entry => p entry.1).map fun entry => amount entry.2).sum

variable [DecidableEq κ]

/-- The total under a key. -/
def get (amount : β → M) (series : AList fun _ : κ => β) (key : κ) : M :=
  (series.lookup key).elim 0 amount

variable (series : AList fun _ : κ => β)

theorem get_insert (key key' : κ) (value : β) :
    get amount (series.insert key value) key' =
      if key' = key then amount value else get amount series key' := by
  unfold get
  split_ifs with h
  · rw [h, AList.lookup_insert, Option.elim_some]
  · rw [AList.lookup_insert_ne h]

/-- The total of one key and those of the others. -/
theorem total_eq_add_erase (key : κ) :
    total amount p series =
      (if p key then get amount series key else 0) + total amount p (series.erase key) := by
  unfold total get
  by_cases hkey : key ∈ series
  · obtain ⟨value, front, back, -, hents, hrest⟩ := exists_of_kerase hkey
    have hlk : series.lookup key = some value :=
      AList.mem_lookup_iff.2 (hents ▸ mem_append_right front (mem_cons_self ..))
    have herase : (series.erase key).entries = front ++ back := hrest
    rw [hlk, herase, hents, Option.elim_some]
    by_cases hp : p key <;>
      simp [hp, add_left_comm]
  · have hlk : series.lookup key = none := AList.lookup_eq_none.2 hkey
    have herase : (series.erase key).entries = series.entries := kerase_of_notMem_keys hkey
    rw [hlk, herase, Option.elim_none, ite_self, zero_add]

/-- An addition under a key is one to the sums that have the key. -/
theorem total_insert {key : κ} {value : β} {added : M}
    (hv : amount value = get amount series key + added) :
    total amount p (series.insert key value) =
      total amount p series + if p key then added else 0 := by
  have hins : total amount p (series.insert key value) =
      (if p key then amount value else 0) + total amount p (series.erase key) := by
    rw [total, AList.entries_insert, List.filter_cons]
    by_cases hp : p key
    · rw [if_pos hp, if_pos hp, List.map_cons, List.sum_cons]
      rfl
    · rw [if_neg hp, if_neg hp, zero_add]
      rfl
  rw [hins, total_eq_add_erase series key, hv]
  split
  · rw [add_assoc, add_assoc, add_comm added]
  · rw [add_zero]

/-- Under distinct keys an entry is the only one of its key. -/
theorem filter_key {α : Type*} {f : α → κ} {l : List α} (hnd : (l.map f).Nodup) {a : α}
    (ha : a ∈ l) :
    (l.filter fun x => f x = f a) = [a] := by
  induction l with
  | nil => exact absurd ha not_mem_nil
  | cons x l ih =>
    obtain ⟨hx, hnd⟩ := nodup_cons.1 hnd
    obtain rfl | ha := mem_cons.1 ha
    · have hrest : (l.filter fun y => f y = f a) = [] :=
        filter_eq_nil_iff.2 fun y hy heq =>
          hx (of_decide_eq_true heq ▸ mem_map_of_mem hy)
      rw [filter_cons, if_pos (decide_eq_true rfl), hrest]
    · have hne : ¬decide (f x = f a) := fun heq =>
        hx (of_decide_eq_true heq ▸ mem_map_of_mem ha)
      rw [filter_cons, if_neg hne, ih hnd ha]

end Huatuo.Series
