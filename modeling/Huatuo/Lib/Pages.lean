import Mathlib.Data.List.Sort

/-!
# Pages of a list

A list read in pages: by offset, where page `k` of size `n` is `(xs.drop (k * n)).take n`, and by
key, where a page is the beginning of what comes behind the last key read. And a list delivered
in batches, collected until they are full.
-/

namespace Pages

open List

variable {α κ : Type}

/-! ## By offset -/

/-- The first `n` pages are the beginning of the list. -/
theorem flatMap_pages (xs : List α) (size n : Nat) :
    ((List.range n).flatMap fun k => (xs.drop (k * size)).take size) = xs.take (n * size) := by
  induction n with
  | zero => simp
  | succ n ih =>
    rw [range_succ, flatMap_append, ih, flatMap_singleton, Nat.succ_mul,
      take_add]

/-! ## By key -/

/-- A page of a list in ascending order of keys has everything up to its last key. -/
theorem mem_take_of_le [LinearOrder κ] {key : α → κ} {xs : List α} {n : Nat} {last x : α}
    (hsort : xs.Pairwise fun a b => key a < key b) (hlast : (xs.take n).getLast? = some last)
    (hx : x ∈ xs) (hle : key x ≤ key last) : x ∈ xs.take n := by
  rw [← take_append_drop n xs] at hsort hx
  rcases mem_append.1 hx with hx | hx
  · exact hx
  · have hlt := (pairwise_append.1 hsort).2.2 last (mem_of_getLast? hlast) x hx
    exact absurd hle (not_le.2 hlt)

/-- A page that is not full has everything. -/
theorem take_eq_self_of_length_lt {xs : List α} {n : Nat} (h : (xs.take n).length < n) :
    xs.take n = xs := by
  rw [length_take] at h
  exact take_of_length_le (by omega)

/-! ## Batches -/

/-- Collect elements behind the records there are, and deliver whenever `size` of them are
there, and what is left at the end. -/
def batches (size : Nat) : List α → List α → List (List α)
  | [], records => if records = [] then [] else [records]
  | x :: xs, records =>
    if (records ++ [x]).length = size then (records ++ [x]) :: batches size xs []
    else batches size xs (records ++ [x])

theorem flatten_batches (size : Nat) (xs : List α) :
    ∀ records : List α, (batches size xs records).flatten = records ++ xs := by
  induction xs with (intro records; unfold batches)
  | nil =>
    split
    · rename_i hnil
      simp [hnil]
    · simp
  | cons x xs ih =>
    split
    · rw [flatten_cons, ih, nil_append, append_assoc, singleton_append]
    · rw [ih, append_assoc, singleton_append]

end Pages
