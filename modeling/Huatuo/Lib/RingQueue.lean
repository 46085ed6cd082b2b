import Mathlib.Algebra.Ring.Nat
import Mathlib.Algebra.Group.Fin.Basic

/-!
# Queues in a ring

A queue of bounded size in a fixed array: `head` is the slot of the oldest element and the others
follow it, around the end of the array. Slots are `Fin capacity`, whose addition wraps around.
`toList` is the queue from its oldest element on.
-/

structure RingQueue (α : Type*) (capacity : Nat) [NeZero capacity] where
  slots : Fin capacity → α
  head : Fin capacity
  count : Nat
  count_le : count ≤ capacity

namespace RingQueue

open Function List

variable {α : Type*} {capacity : Nat} [NeZero capacity] (q : RingQueue α capacity)

/-- The slot that is `i` behind the oldest element. -/
def slot (i : Nat) : Fin capacity := q.head + Fin.ofNat capacity i

def toList : List α :=
  (List.range q.count).map fun i => q.slots (q.slot i)

def clear [Inhabited α] : RingQueue α capacity where
  slots := fun _ => default
  head := 0
  count := 0
  count_le := Nat.zero_le _

def push (q : RingQueue α capacity) (x : α) (h : q.count < capacity) : RingQueue α capacity where
  slots := update q.slots (q.slot q.count) x
  head := q.head
  count := q.count + 1
  count_le := h

/-- Take the oldest element and clear its slot. -/
def pop? [Inhabited α] : Option (α × RingQueue α capacity) :=
  if q.count = 0 then none
  else
    some (q.slots q.head,
      { slots := update q.slots q.head default
        head := q.head + 1
        count := q.count - 1
        count_le := Nat.le_trans (Nat.sub_le _ _) q.count_le })

@[simp] theorem length_toList : q.toList.length = q.count := by
  simp [toList]

@[simp] theorem toList_clear [Inhabited α] : (clear : RingQueue α capacity).toList = [] := rfl

theorem toList_eq_nil {q : RingQueue α capacity} (h : q.count = 0) : q.toList = [] := by
  rw [toList, h]
  rfl

theorem ofNat_injective {i j : Nat} (hi : i < capacity) (hj : j < capacity)
    (h : Fin.ofNat capacity i = Fin.ofNat capacity j) : i = j := by
  have hval := congrArg Fin.val h
  rwa [Fin.val_ofNat, Fin.val_ofNat, Nat.mod_eq_of_lt hi, Nat.mod_eq_of_lt hj] at hval

theorem slot_injective {i j : Nat} (hi : i < capacity)
    (hj : j < capacity) (h : q.slot i = q.slot j) : i = j :=
  ofNat_injective hi hj (add_left_cancel h)

@[simp] theorem toList_push (x : α) (h : q.count < capacity) :
    (q.push x h).toList = q.toList ++ [x] := by
  have hkept : ∀ i ∈ List.range q.count, (q.push x h).slots (q.slot i) = q.slots (q.slot i) := by
    intro i hi
    have hlt := mem_range.1 hi
    refine update_of_ne (fun heq => ?_) _ _
    exact absurd (q.slot_injective (by omega) h heq) (by omega)
  have hlast : (q.push x h).slots (q.slot q.count) = x := update_self ..
  have hrg : (q.push x h).toList =
      (List.range (q.count + 1)).map fun i => (q.push x h).slots (q.slot i) := rfl
  rw [hrg, range_succ, map_append, map_congr_left hkept, map_singleton, hlast]
  rfl

theorem toList_pop? [Inhabited α] {q q' : RingQueue α capacity} {x : α}
    (h : q.pop? = some (x, q')) :
    q.toList = x :: q'.toList := by
  unfold pop? at h
  split at h <;> cases h
  rename_i hcnt
  obtain ⟨n, hn⟩ := Nat.exists_eq_succ_of_ne_zero hcnt
  have hle := q.count_le
  have hfirst : q.slot 0 = q.head := by
    rw [slot, show Fin.ofNat capacity 0 = 0 from rfl, add_zero]
  have hnext (i : Nat) : q.head + 1 + Fin.ofNat capacity i = q.slot (i + 1) := by
    have hsucc : Fin.ofNat capacity (i + 1) = 1 + Fin.ofNat capacity i := by
      apply Fin.ext
      simp [Fin.val_add, Nat.add_comm]
    rw [slot, hsucc, add_assoc]
  have hkept : ∀ i ∈ List.range n,
      update q.slots q.head default (q.head + 1 + Fin.ofNat capacity i) =
        q.slots (q.slot (i + 1)) := by
    intro i hi
    have hlt := mem_range.1 hi
    rw [hnext]
    refine update_of_ne (fun heq => ?_) _ _
    exact absurd (q.slot_injective (by omega) (by omega) (heq.trans hfirst.symm)) (by omega)
  simp only [toList, slot, hn, Nat.succ_sub_one]
  rw [map_congr_left hkept, range_succ_eq_map, map_cons, map_map]
  exact congrArg₂ _ (congrArg q.slots hfirst) rfl

end RingQueue
