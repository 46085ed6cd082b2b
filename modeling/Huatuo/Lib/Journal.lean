import Mathlib.Data.List.Basic

/-!
# Places in a journal

A journal is a list that only grows at its end. A place in it is the number of the entries before
it, and `between` has the entries from one place to another.
-/

namespace Huatuo.Journal

open List

variable {α : Type*} {journal : List α} {start mid stop : Nat}

def between (journal : List α) (start stop : Nat) : List α := (journal.take stop).drop start

theorem between_self (journal : List α) (place : Nat) : between journal place place = [] :=
  drop_eq_nil_of_le (length_take_le ..)

theorem between_append (hsta : start ≤ mid) (hstop : mid ≤ stop) :
    between journal start mid ++ between journal mid stop = between journal start stop := by
  unfold between
  have hmid : journal.take mid = (journal.take stop).take mid := by
    rw [take_take, Nat.min_eq_left hstop]
  obtain ⟨count, rfl⟩ := Nat.exists_eq_add_of_le hsta
  rw [hmid, drop_take, Nat.add_sub_cancel_left, ← drop_drop, take_append_drop]

/-- Entries that come later do not matter. -/
theorem between_concat_of_le (hstop : stop ≤ journal.length) (entry : α) :
    between (journal ++ [entry]) start stop = between journal start stop := by
  unfold between
  rw [take_append_of_le_length hstop]

theorem between_concat (hsta : start ≤ journal.length) (entry : α) :
    between (journal ++ [entry]) start (journal ++ [entry]).length =
      between journal start journal.length ++ [entry] := by
  unfold between
  rw [take_length, take_length, drop_append_of_le_length hsta]

end Huatuo.Journal
