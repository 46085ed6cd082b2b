import Mathlib.Data.List.Nodup

/-!
# Counters by class

A list of elements with distinct keys, and a counter that holds for each class the number of
elements in it, as a map from classes to integers. `Counts.add` and `Counts.remove` are the two
updates that keep them together; the classes need not be known beforehand.
-/

namespace Huatuo.Counter

open Function List

variable {α κ ι : Type*} [DecidableEq κ] [DecidableEq ι]

/-- `count` holds the number of elements of each class. -/
def Counts (cls : α → κ) (l : List α) (count : κ → Int) : Prop :=
  ∀ k, count k = l.countP fun a => cls a = k

theorem counts_nil (cls : α → κ) : Counts cls [] fun _ => 0 := fun _ => rfl

variable {cls : α → κ} {count : κ → Int} {l : List α}

theorem Counts.nonneg (h : Counts cls l count) (k : κ) : 0 ≤ count k := by
  rw [h k]
  exact Int.natCast_nonneg _

theorem update_add_apply (count : κ → Int) (k k' : κ) (n : Int) :
    update count k (count k + n) k' = count k' + if k = k' then n else 0 := by
  by_cases hk : k = k'
  · subst hk
    rw [update_self, if_pos rfl]
  · rw [update_of_ne (Ne.symm hk), if_neg hk, Int.add_zero]

theorem Counts.add (h : Counts cls l count) (a : α) :
    Counts cls (l ++ [a]) (update count (cls a) (count (cls a) + 1)) := by
  intro k
  rw [update_add_apply, h k, countP_append, countP_singleton]
  by_cases hk : cls a = k <;> simp [hk]

/-- Removing the one element with its key. -/
theorem countP_filter_key {key : α → ι} (hkeys : (l.map key).Nodup) {a : α}
    (ha : a ∈ l) (p : α → Bool) :
    (l.filter fun b => key b ≠ key a).countP p + (if p a then 1 else 0) = l.countP p := by
  obtain ⟨l₁, l₂, rfl⟩ := append_of_mem ha
  rw [map_append, map_cons, nodup_append] at hkeys
  obtain ⟨-, hcons, hdis⟩ := hkeys
  have h₁ : l₁.filter (fun b => key b ≠ key a) = l₁ := by
    refine filter_eq_self.2 fun b hb => ?_
    simpa using hdis (key b) (mem_map_of_mem hb) (key a) mem_cons_self
  have h₂ : l₂.filter (fun b => key b ≠ key a) = l₂ := by
    refine filter_eq_self.2 fun b hb => ?_
    have hne : key b ≠ key a := fun heq =>
      (nodup_cons.1 hcons).1 (heq ▸ mem_map_of_mem hb)
    simpa using hne
  rw [filter_append, filter_cons, h₁, h₂]
  simp only [ne_eq, not_true_eq_false, decide_false, Bool.false_eq_true, if_false,
    countP_append, countP_cons]
  omega

theorem Counts.remove {key : α → ι} (h : Counts cls l count) (hkeys : (l.map key).Nodup) {a : α}
    (ha : a ∈ l) :
    Counts cls (l.filter fun b => key b ≠ key a) (update count (cls a) (count (cls a) + (-1))) := by
  intro k
  have hcnt := countP_filter_key hkeys ha fun b => cls b = k
  rw [update_add_apply, h k]
  by_cases hk : cls a = k
  · rw [if_pos (decide_eq_true hk)] at hcnt
    rw [if_pos hk]
    omega
  · rw [if_neg (by simpa using hk)] at hcnt
    rw [if_neg hk]
    omega

end Huatuo.Counter
