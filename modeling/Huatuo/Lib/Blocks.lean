import Mathlib.Data.List.Basic

/-!
# Lists replaced block by block

A pass that replaces each element of a list by a block concatenates the blocks. Where block `i`
starts is the length of the ones before it.

`splice_eq_flatMap` is for a pass that collects replacements in a first loop and splices them in
from the back, so that indices in front stay valid: it is the concatenation too.
-/

namespace Blocks

open List

variable {α : Type}

/-- An element of a block, in the concatenation. -/
theorem getElem?_flatten {blocks : List (List α)} {i : Nat} {block : List α}
    (hi : blocks[i]? = some block) {k : Nat} (hk : k < block.length) :
    blocks.flatten[(blocks.take i).flatten.length + k]? = block[k]? := by
  obtain ⟨hlt, hget⟩ := List.getElem?_eq_some_iff.1 hi
  have hsplit : blocks.flatten =
      (blocks.take i).flatten ++ (block ++ (blocks.drop (i + 1)).flatten) := by
    conv_lhs => rw [← take_append_drop i blocks, drop_eq_getElem_cons hlt, hget]
    rw [flatten_append, flatten_cons]
  rw [hsplit, List.getElem?_append_right (Nat.le_add_right _ _), Nat.add_sub_cancel_left,
    List.getElem?_append_left hk]

theorem length_take_succ {blocks : List (List α)} {i : Nat} {block : List α}
    (hi : blocks[i]? = some block) :
    (blocks.take (i + 1)).flatten.length = (blocks.take i).flatten.length + block.length := by
  rw [take_add_one, hi]
  simp

theorem findIdx_append_of_forall_false {q : α → Bool} {front : List α}
    (h : ∀ y ∈ front, q y = false) (xs : List α) :
    (front ++ xs).findIdx q = front.length + xs.findIdx q := by
  rw [findIdx_append, findIdx_eq_length.2 h, if_neg (Nat.lt_irrefl _), Nat.add_comm]

/-- Blocks whose heads alone can satisfy `q`, and do where the element satisfies `p`: the first
hit is the start of the first hit's block. -/
theorem findIdx_flatten {β : Type} {p : β → Bool} {q : α → Bool} {f : β → List α} (xs : List β)
    (hblock : ∀ x ∈ xs, ∃ head rest, f x = head :: rest ∧ q head = p x ∧ ∀ y ∈ rest, q y = false) :
    (xs.map f).flatten.findIdx q = ((xs.map f).take (xs.findIdx p)).flatten.length := by
  induction xs with
  | nil => rfl
  | cons x xs ih =>
    obtain ⟨head, rest, hf, hhead, hrest⟩ := hblock x mem_cons_self
    rw [map_cons, flatten_cons, findIdx_cons, hf, cons_append,
      findIdx_cons, hhead]
    cases hp : p x with
    | true => rfl
    | false =>
      simp only [cond_false, findIdx_append_of_forall_false hrest, take_succ_cons,
        flatten_cons, length_append, length_cons,
        ih fun y hy => hblock y (mem_cons_of_mem x hy)]
      omega

/-! ## Splicing -/

/-- Replace the element at an index by a block. -/
def splice (patch : Nat × List α) (xs : List α) : List α :=
  xs.take patch.1 ++ (patch.2 ++ xs.drop (patch.1 + 1))

/-- The replacements of the elements that have one, with their indices from `i` on. -/
def patchesFrom (f : α → Option (List α)) : Nat → List α → List (Nat × List α)
  | _, [] => []
  | i, x :: xs =>
    match f x with
    | none => patchesFrom f (i + 1) xs
    | some block => (i, block) :: patchesFrom f (i + 1) xs

theorem splice_patchesFrom (f : α → Option (List α)) (xs : List α) :
    ∀ front : List α, (patchesFrom f front.length xs).foldr splice (front ++ xs) =
      front ++ xs.flatMap fun x => (f x).getD [x] := by
  induction xs with
  | nil => intro front; rfl
  | cons x xs ih =>
    intro front
    have hrest := ih (front ++ [x])
    rw [length_append, length_singleton, append_assoc, singleton_append,
      append_assoc] at hrest
    cases hf : f x with
    | none =>
      simp only [patchesFrom, hf, hrest, flatMap_cons, Option.getD_none]
    | some block =>
      simp [patchesFrom, hf, hrest, splice, drop_append, drop_eq_nil_of_le (Nat.le_succ _)]

/-- Splicing from the back replaces each element where it stands. -/
theorem splice_eq_flatMap (f : α → Option (List α)) (xs : List α) :
    (patchesFrom f 0 xs).foldr splice xs = xs.flatMap fun x => (f x).getD [x] :=
  splice_patchesFrom f xs []

end Blocks
