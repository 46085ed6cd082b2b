import Mathlib.Data.List.Nodup
import Mathlib.Data.List.Range

/-!
# Worklist search

A stack of indices to look at and a list of those seen. `explore` pops an index, skips it when
it is out of range or seen, and pushes its successors otherwise. With at most `d` successors an
index, `pending.length + d * n` pops are enough, and what is seen is exactly what is reachable.
-/

namespace Worklist

open List

/-- Depth-first search over the indices below `n`. The head of `pending` is the top of the
stack; successors are pushed in order. -/
def explore (n : Nat) (succ : Nat → List Nat) : Nat → List Nat → List Nat → List Nat
  | 0, _, visited => visited
  | _ + 1, [], visited => visited
  | fuel + 1, i :: pending, visited =>
    if n ≤ i ∨ i ∈ visited then explore n succ fuel pending visited
    else explore n succ fuel ((succ i).reverse ++ pending) (i :: visited)

/-- Reachable from a root along successors, never leaving the indices below `n`. -/
inductive Reach (n : Nat) (succ : Nat → List Nat) (roots : List Nat) : Nat → Prop
  | root {i : Nat} (hroot : i ∈ roots) (hi : i < n) : Reach n succ roots i
  | next {i j : Nat} (hreach : Reach n succ roots i) (hj : j ∈ succ i) (hlt : j < n) :
      Reach n succ roots j

variable {n i : Nat} {succ : Nat → List Nat} {roots : List Nat}

theorem Reach.lt (h : Reach n succ roots i) : i < n := by
  cases h <;> assumption

/-! ## Soundness -/

theorem reach_of_mem_explore (fuel : Nat) :
    ∀ pending visited, (∀ i ∈ pending, i < n → Reach n succ roots i) →
      (∀ i ∈ visited, Reach n succ roots i) →
      ∀ i ∈ explore n succ fuel pending visited, Reach n succ roots i := by
  induction fuel with
  | zero =>
    intro pending visited _ hvis
    exact hvis
  | succ fuel ih =>
    intro pending visited hpend hvis
    cases pending with
    | nil => exact hvis
    | cons i pending =>
      have hrest : ∀ j ∈ pending, j < n → Reach n succ roots j :=
        fun j hj => hpend j (mem_cons_of_mem i hj)
      unfold explore
      split
      · exact ih pending visited hrest hvis
      rename_i hnew
      rw [not_or, Nat.not_le] at hnew
      have hi : Reach n succ roots i := hpend i mem_cons_self hnew.1
      refine ih _ _ (fun j hj hlt => ?_) fun j hj => ?_
      · rcases mem_append.1 hj with hj | hj
        · exact .next hi (mem_reverse.1 hj) hlt
        · exact hrest j hj hlt
      · rcases mem_cons.1 hj with rfl | hj
        · exact hi
        · exact hvis j hj

/-! ## Completeness -/

/-- The indices not seen yet. -/
def unseen (n : Nat) (visited : List Nat) : Nat :=
  ((List.range n).filter fun i => decide (i ∉ visited)).length

theorem unseen_cons {visited : List Nat} (hi : i < n) (hnew : i ∉ visited) :
    unseen n (i :: visited) + 1 = unseen n visited := by
  have herase : (List.range n).filter (fun j => decide (j ∉ i :: visited)) =
      ((List.range n).filter fun j => decide (j ∉ visited)).erase i := by
    rw [List.Nodup.erase_eq_filter (nodup_range.filter _), filter_filter]
    refine filter_congr fun j _ => ?_
    by_cases hji : j = i <;> simp [hji]
  have hmem : i ∈ (List.range n).filter fun j => decide (j ∉ visited) := by simp [hi, hnew]
  rw [unseen, unseen, herase, length_erase_of_mem hmem]
  exact Nat.succ_pred_eq_of_pos (length_pos_of_mem hmem)

theorem unseen_le (visited : List Nat) : unseen n visited ≤ n :=
  (length_filter_le _ _).trans_eq (by rw [length_range])

/-- With fuel for every push, nothing is left behind: the search covers what was pending or
seen, and is closed under successors once the seen indices were. -/
theorem explore_closed {d : Nat} (hd : ∀ i, (succ i).length ≤ d) (fuel : Nat) :
    ∀ pending visited, pending.length + d * unseen n visited ≤ fuel →
      (∀ i ∈ visited, ∀ j ∈ succ i, j < n → j ∈ visited ∨ j ∈ pending) →
      (∀ i, i < n → i ∈ visited ∨ i ∈ pending → i ∈ explore n succ fuel pending visited) ∧
      (∀ i ∈ explore n succ fuel pending visited, ∀ j ∈ succ i, j < n →
        j ∈ explore n succ fuel pending visited) := by
  induction fuel with intro pending visited hfuel hclo
  | zero =>
    have hnil : pending = [] :=
      eq_nil_of_length_eq_zero (by omega)
    subst hnil
    refine ⟨fun i _ hi => ?_, fun i hi j hj hlt => ?_⟩
    · exact hi.elim id fun h => absurd h not_mem_nil
    · exact (hclo i hi j hj hlt).elim id fun h => absurd h not_mem_nil
  | succ fuel ih =>
    cases pending with
    | nil =>
      refine ⟨fun i _ hi => ?_, fun i hi j hj hlt => ?_⟩
      · exact hi.elim id fun h => absurd h not_mem_nil
      · exact (hclo i hi j hj hlt).elim id fun h => absurd h not_mem_nil
    | cons i pending =>
      rw [length_cons] at hfuel
      unfold explore
      split
      · -- skipped: out of range, or seen before
        rename_i hskip
        have hdrop : ∀ k, k < n → k ∈ visited ∨ k ∈ i :: pending →
            k ∈ visited ∨ k ∈ pending := by
          intro k hk hmem
          rcases hmem with hmem | hmem
          · exact Or.inl hmem
          · rcases mem_cons.1 hmem with rfl | hmem
            · exact Or.inl (hskip.resolve_left (Nat.not_le.2 hk))
            · exact Or.inr hmem
        obtain ⟨hcover, hnext⟩ := ih pending visited (by omega)
          fun k hk j hj hlt => hdrop j hlt (hclo k hk j hj hlt)
        exact ⟨fun k hk hmem => hcover k hk (hdrop k hk hmem), hnext⟩
      · rename_i hnew
        rw [not_or, Nat.not_le] at hnew
        have hcnt := unseen_cons hnew.1 hnew.2
        have hmove : ∀ k, k ∈ visited ∨ k ∈ i :: pending →
            k ∈ i :: visited ∨ k ∈ (succ i).reverse ++ pending := by
          intro k hmem
          rcases hmem with hmem | hmem
          · exact Or.inl (mem_cons_of_mem i hmem)
          · rcases mem_cons.1 hmem with rfl | hmem
            · exact Or.inl mem_cons_self
            · exact Or.inr (mem_append_right _ hmem)
        have hroom : ((succ i).reverse ++ pending).length + d * unseen n (i :: visited) ≤
            fuel := by
          rw [length_append, length_reverse]
          have hpush := hd i
          have hd' : d * unseen n visited = d * unseen n (i :: visited) + d := by
            rw [← hcnt, Nat.mul_succ]
          omega
        obtain ⟨hcover, hnext⟩ := ih _ _ hroom fun k hk j hj hlt => by
          rcases mem_cons.1 hk with rfl | hk
          · exact Or.inr (mem_append_left _ (mem_reverse.2 hj))
          · exact hmove j (hclo k hk j hj hlt)
        exact ⟨fun k hk hmem => hcover k hk (hmove k hmem), hnext⟩

/-- **The search sees exactly what is reachable.** -/
theorem mem_explore_iff {d : Nat} (hd : ∀ i, (succ i).length ≤ d) {fuel : Nat}
    (hfuel : roots.length + d * n ≤ fuel) :
    i ∈ explore n succ fuel roots [] ↔ Reach n succ roots i := by
  refine ⟨reach_of_mem_explore fuel roots [] (fun j hj hlt => .root hj hlt) (by simp) i, ?_⟩
  intro hreach
  have hle : d * unseen n [] ≤ d * n := Nat.mul_le_mul_left d (unseen_le [])
  obtain ⟨hcover, hnext⟩ := explore_closed (n := n) hd fuel roots [] (by omega) (by simp)
  induction hreach with
  | root hroot hi => exact hcover _ hi (Or.inr hroot)
  | next _ hj hlt ih => exact hnext _ ih _ hj hlt

end Worklist
