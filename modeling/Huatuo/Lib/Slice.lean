import Mathlib.Tactic.Common

/-!
# Go slices

A slice is a window into a backing array: writes through one slice show in every other slice of the
same array, and `append` writes into the array as long as it has room. `Heap` keeps the arrays by
address; the length of an array is its capacity, and how much room an allocation leaves is
arbitrary. The nil slice has address 0, where there is no room.

The frame lemmas (`read_write_of_ne`, `read_append_of_ne`, `read_alloc`) say when another slice does
not notice.
-/

namespace Huatuo

open Function List

structure Slice where
  address : Nat := 0
  len : Nat := 0
  deriving DecidableEq, Repr

structure Heap (α : Type*) where
  cells : Nat → List α := fun _ => []
  next : Nat := 1
  /-- the room that the allocation at an address leaves -/
  spare : Nat → Nat
  next_pos : 0 < next := by decide
  cells_zero : cells 0 = [] := by rfl

namespace Heap

variable {α : Type*}

/-- The heap before the first allocation. -/
def empty (spare : Nat → Nat) : Heap α := { spare }

def read (h : Heap α) (s : Slice) : List α := (h.cells s.address).take s.len

/-- `s[i] = x`. -/
def write (h : Heap α) (s : Slice) (i : Nat) (x : α) : Heap α :=
  { h with
    cells := update h.cells s.address ((h.cells s.address).set i x)
    cells_zero := by
      by_cases hadd : s.address = 0
      · rw [hadd, update_self, h.cells_zero]
        rfl
      · rw [update_of_ne (Ne.symm hadd), h.cells_zero] }

/-- A new array that holds `xs`. -/
def alloc [Inhabited α] (h : Heap α) (xs : List α) : Heap α × Slice :=
  ({ h with
    cells := update h.cells h.next (xs ++ List.replicate (h.spare h.next) default)
    next := h.next + 1
    next_pos := Nat.succ_pos _
    cells_zero := by
      rw [update_of_ne (Nat.ne_of_lt h.next_pos), h.cells_zero] },
    { address := h.next, len := xs.length })

/-- `append(s, x)`. -/
def append [Inhabited α] (h : Heap α) (s : Slice) (x : α) : Heap α × Slice :=
  if s.len < (h.cells s.address).length then
    (h.write s s.len x, { s with len := s.len + 1 })
  else h.alloc (h.read s ++ [x])

/-- `slices.Clone(s)`. -/
def clone [Inhabited α] (h : Heap α) (s : Slice) : Heap α × Slice := h.alloc (h.read s)

/-- A slice of an array of the heap. -/
structure Valid (h : Heap α) (s : Slice) : Prop where
  address : s.address < h.next
  len : s.len ≤ (h.cells s.address).length

variable {h : Heap α} {s t : Slice} {i : Nat} {x : α} {xs : List α}

@[simp] theorem read_nil : h.read {} = [] := take_zero

theorem valid_nil : h.Valid {} := ⟨h.next_pos, Nat.zero_le _⟩

theorem Valid.length_read (hs : h.Valid s) : (h.read s).length = s.len := by
  rw [read, length_take, Nat.min_eq_left hs.len]

/-! ## Writes -/

theorem cells_write_self : (h.write s i x).cells s.address = (h.cells s.address).set i x :=
  update_self _ _ _

theorem cells_write_of_ne {address : Nat} (hne : address ≠ s.address) :
    (h.write s i x).cells address = h.cells address :=
  update_of_ne hne _ _

theorem read_write_self : (h.write s i x).read s = (h.read s).set i x := by
  rw [read, cells_write_self, take_set]
  rfl

theorem read_write_of_ne (hne : t.address ≠ s.address) : (h.write s i x).read t = h.read t := by
  rw [read, cells_write_of_ne hne]
  rfl

theorem Valid.write (ht : h.Valid t) : (h.write s i x).Valid t := by
  refine ⟨ht.address, ?_⟩
  by_cases hadd : t.address = s.address
  · rw [hadd, cells_write_self, length_set, ← hadd]
    exact ht.len
  · rw [cells_write_of_ne hadd]
    exact ht.len

variable [Inhabited α]

/-! ## Allocation -/

theorem alloc_address : (h.alloc xs).2.address = h.next := rfl

theorem cells_alloc_self : (h.alloc xs).1.cells h.next =
    xs ++ List.replicate (h.spare h.next) default :=
  update_self _ _ _

theorem cells_alloc (ht : h.Valid t) : (h.alloc xs).1.cells t.address = h.cells t.address :=
  update_of_ne (Nat.ne_of_lt ht.address) _ _

theorem read_alloc_self : (h.alloc xs).1.read (h.alloc xs).2 = xs := by
  rw [read, alloc_address, cells_alloc_self]
  exact take_left

theorem read_alloc (ht : h.Valid t) : (h.alloc xs).1.read t = h.read t := by
  rw [read, cells_alloc ht]
  rfl

theorem valid_alloc_self : (h.alloc xs).1.Valid (h.alloc xs).2 := by
  refine ⟨Nat.lt_succ_self _, ?_⟩
  rw [alloc_address, cells_alloc_self, length_append]
  exact Nat.le_add_right _ _

theorem Valid.alloc (ht : h.Valid t) : (h.alloc xs).1.Valid t := by
  refine ⟨Nat.lt_succ_of_lt ht.address, ?_⟩
  rw [cells_alloc ht]
  exact ht.len

theorem Valid.alloc_ne (ht : h.Valid t) : t.address ≠ (h.alloc xs).2.address :=
  Nat.ne_of_lt ht.address

/-! ## Appending -/

theorem read_append_self : (h.append s x).1.read (h.append s x).2 = h.read s ++ [x] := by
  unfold append
  split
  · rename_i hroom
    -- the write is just beyond what `s` shows
    have hlen : s.len < ((h.cells s.address).set s.len x).length := by rwa [length_set]
    show ((h.write s s.len x).cells s.address).take (s.len + 1) = _
    rw [cells_write_self, take_succ_eq_append_getElem hlen, getElem_set_self,
      take_set, set_eq_of_length_le]
    · rfl
    · exact length_take_le _ _
  · exact read_alloc_self

theorem valid_append_self (hs : h.Valid s) : (h.append s x).1.Valid (h.append s x).2 := by
  unfold append
  split
  · rename_i hroom
    refine ⟨hs.address, ?_⟩
    show s.len + 1 ≤ ((h.write s s.len x).cells s.address).length
    rw [cells_write_self, length_set]
    exact hroom
  · exact valid_alloc_self

theorem append_len_pos : 0 < (h.append s x).2.len := by
  unfold append
  split
  · exact Nat.succ_pos _
  show 0 < (h.read s ++ [x]).length
  rw [length_append]
  exact Nat.succ_pos _

theorem read_append_of_ne (ht : h.Valid t) (hne : t.address ≠ s.address) :
    (h.append s x).1.read t = h.read t := by
  unfold append
  split
  · exact read_write_of_ne hne
  · exact read_alloc ht

theorem Valid.append (ht : h.Valid t) : (h.append s x).1.Valid t := by
  unfold Heap.append
  split
  · exact ht.write
  · exact ht.alloc

/-- Appending moves a slice only to a new array. -/
theorem append_address_ne (ht : h.Valid t) (hne : t.address ≠ s.address) :
    t.address ≠ (h.append s x).2.address := by
  unfold append
  split
  · exact hne
  · exact ht.alloc_ne

/-! ## Slices apart -/

/-- Nothing that is done through `s` shows in `t`. -/
def Apart (t s : Slice) : Prop := t.address ≠ s.address ∨ t.len = 0

omit [Inhabited α] in
theorem Valid.apart_nil (ht : h.Valid t) : Apart t {} := by
  by_cases hadd : t.address = 0
  · have hlen := ht.len
    rw [hadd, h.cells_zero] at hlen
    exact .inr (Nat.le_zero.1 hlen)
  · exact .inl hadd

omit [Inhabited α] in
theorem read_of_len (hlen : t.len = 0) : h.read t = [] := by
  rw [read, hlen, take_zero]

/-- The slice `s` of `h` became the slice `s'` of `h'`, and slices apart from it did not notice. -/
structure Keeps (h : Heap α) (s : Slice) (h' : Heap α) (s' : Slice) : Prop where
  valid : h.Valid s → h'.Valid s'
  others : ∀ t, h.Valid t → Apart t s → h'.Valid t ∧ h'.read t = h.read t ∧ Apart t s'

omit [Inhabited α] in
theorem Keeps.refl (h : Heap α) (s : Slice) : Keeps h s h s :=
  ⟨fun hs => hs, fun _ ht hapart => ⟨ht, rfl, hapart⟩⟩

omit [Inhabited α] in
theorem Keeps.trans {h' h'' : Heap α} {s' s'' : Slice} (hk : Keeps h s h' s')
    (hk' : Keeps h' s' h'' s'') : Keeps h s h'' s'' := by
  refine ⟨fun hs => hk'.valid (hk.valid hs), fun t ht hapart => ?_⟩
  obtain ⟨ht', hread, hapart'⟩ := hk.others t ht hapart
  obtain ⟨ht'', hread', hapart''⟩ := hk'.others t ht' hapart'
  exact ⟨ht'', hread'.trans hread, hapart''⟩

omit [Inhabited α] in
theorem keeps_write : Keeps h s (h.write s i x) s := by
  refine ⟨Valid.write, fun t ht hapart => ⟨ht.write, ?_, hapart⟩⟩
  rcases hapart with hne | hlen
  · exact read_write_of_ne hne
  · rw [read_of_len hlen, read_of_len hlen]

theorem keeps_append : Keeps h s (h.append s x).1 (h.append s x).2 := by
  refine ⟨valid_append_self, fun t ht hapart => ⟨ht.append, ?_⟩⟩
  rcases hapart with hne | hlen
  · exact ⟨read_append_of_ne ht hne, .inl (append_address_ne ht hne)⟩
  · exact ⟨by rw [read_of_len hlen, read_of_len hlen], .inr hlen⟩

end Heap

end Huatuo
