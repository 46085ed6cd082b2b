import Mathlib.Data.List.Nodup

/-!
# Interning

`Interner` gives equal values one number, the position in a table. The table may have entries that
its index does not know (`push`), which is why a new number is the length of the table and not the
size of the index.

`Numbers` is the other way to keep numbers: from 1 on, in a map in which 0 stands for what is not
there.

In both, what was numbered keeps its number while the table grows; `Grows` and `idxOf_of_grows` say
so.
-/

namespace Huatuo

open Function List

structure Interner (α : Type*) where
  table : List α
  index : α → Option Nat

namespace Interner

variable {α : Type*} {t t' t'' : Interner α} {x y : α} {id : Nat}

/-! ## Operations -/

def intern [DecidableEq α] (t : Interner α) (x : α) : Nat × Interner α :=
  match t.index x with
  | some id => (id, t)
  | none =>
    (t.table.length,
      { table := t.table ++ [x], index := update t.index x (some t.table.length) })

/-- Adds an entry that the index does not know. -/
def push (t : Interner α) (x : α) : Nat × Interner α :=
  (t.table.length, { t with table := t.table ++ [x] })

/-! ## Growth -/

/-- `t'` has all that `t` has, under the same numbers. -/
structure Grows (t t' : Interner α) : Prop where
  table : t.table <+: t'.table
  index : ∀ x id, t.index x = some id → t'.index x = some id

theorem Grows.refl (t : Interner α) : Grows t t := ⟨prefix_rfl, fun _ _ h => h⟩

theorem Grows.trans (h : Grows t t') (h' : Grows t' t'') : Grows t t'' :=
  ⟨h.table.trans h'.table, fun x id hx => h'.index x id (h.index x id hx)⟩

theorem Grows.getElem? (h : Grows t t') (hid : t.table[id]? = some x) : t'.table[id]? = some x := by
  obtain ⟨more, hmore⟩ := h.table
  rw [← hmore, List.getElem?_append_left (List.getElem?_eq_some_iff.1 hid).1, hid]

theorem grows_push (t : Interner α) (x : α) : Grows t (t.push x).2 :=
  ⟨prefix_append _ _, fun _ _ h => h⟩

theorem getElem?_push (t : Interner α) (x : α) : (t.push x).2.table[(t.push x).1]? = some x :=
  List.getElem?_concat_length

/-! ## Soundness -/

/-- The index leads to what it was asked for. -/
def Sound (t : Interner α) : Prop := ∀ x id, t.index x = some id → t.table[id]? = some x

theorem Sound.push (hsound : t.Sound) (x : α) : (t.push x).2.Sound :=
  fun y id hy => (grows_push t x).getElem? (hsound y id hy)

variable [DecidableEq α]

theorem intern_of_some (h : t.index x = some id) : t.intern x = (id, t) := by
  rw [intern, h]

theorem intern_of_none (h : t.index x = none) :
    t.intern x = (t.table.length,
      { table := t.table ++ [x], index := update t.index x (some t.table.length) }) := by
  rw [intern, h]

theorem grows_intern (t : Interner α) (x : α) : Grows t (t.intern x).2 := by
  cases h : t.index x with
  | some id =>
    rw [intern_of_some h]
    exact Grows.refl t
  | none =>
    rw [intern_of_none h]
    refine ⟨prefix_append _ _, fun y id hy => ?_⟩
    have hne : y ≠ x := by
      rintro rfl
      simp [h] at hy
    exact (update_of_ne hne _ _).trans hy

theorem Sound.getElem?_intern (hsound : t.Sound) (x : α) :
    (t.intern x).2.table[(t.intern x).1]? = some x := by
  cases h : t.index x with
  | some id =>
    rw [intern_of_some h]
    exact hsound x id h
  | none =>
    rw [intern_of_none h]
    exact List.getElem?_concat_length

theorem Sound.intern (hsound : t.Sound) (x : α) : (t.intern x).2.Sound := by
  intro y id hy
  by_cases hne : y = x
  · subst hne
    cases h : t.index y with
    | some id' =>
      rw [intern_of_some h] at hy ⊢
      exact hsound y id hy
    | none =>
      rw [intern_of_none h] at hy ⊢
      dsimp only at hy
      rw [update_self] at hy
      cases hy
      exact List.getElem?_concat_length
  · refine (grows_intern t x).getElem? (hsound y id ?_)
    cases h : t.index x with
    | some id' => rwa [intern_of_some h] at hy
    | none =>
      rw [intern_of_none h] at hy
      exact (update_of_ne hne _ _).symm.trans hy

end Interner

/-! ## Numbers from 1 on -/

section Numbers

variable {κ : Type*} [DecidableEq κ] {keys : List κ} {number : κ → Nat} {key : κ}

structure Numbers (keys : List κ) (number : κ → Nat) : Prop where
  nodup : keys.Nodup
  number : ∀ key, number key = if key ∈ keys then keys.idxOf key + 1 else 0

theorem numbers_nil : Numbers ([] : List κ) fun _ => 0 := ⟨nodup_nil, fun _ => rfl⟩

theorem Numbers.of_ne_zero (h : Numbers keys number) (hne : number key ≠ 0) :
    key ∈ keys ∧ number key = keys.idxOf key + 1 := by
  have hnum := h.number key
  by_cases hmem : key ∈ keys
  · rw [if_pos hmem] at hnum
    exact ⟨hmem, hnum⟩
  · rw [if_neg hmem] at hnum
    exact absurd hnum hne

theorem Numbers.notMem (h : Numbers keys number) (hzero : number key = 0) : key ∉ keys := by
  intro hmem
  have hnum := h.number key
  simp [if_pos hmem, hzero] at hnum

theorem idxOf_concat_self (hnew : key ∉ keys) : (keys ++ [key]).idxOf key = keys.length := by
  rw [idxOf_append, if_neg hnew, idxOf_cons_self, Nat.zero_add]

theorem idxOf_of_grows {keys' : List κ} (hpre : keys <+: keys') (hmem : key ∈ keys) :
    keys'.idxOf key = keys.idxOf key := by
  obtain ⟨more, rfl⟩ := hpre
  exact idxOf_append_of_mem hmem

theorem Numbers.insert (h : Numbers keys number) (hnew : key ∉ keys) :
    Numbers (keys ++ [key]) (update number key (keys.length + 1)) where
  nodup := nodup_append.2 ⟨h.nodup, nodup_singleton key, by
    intro x hx y hy
    rw [mem_singleton.1 hy]
    exact fun heq => hnew (heq ▸ hx)⟩
  number := by
    intro key'
    by_cases hne : key' = key
    · subst hne
      rw [update_self, if_pos mem_concat_self, idxOf_concat_self hnew]
    · rw [update_of_ne hne, h.number key']
      by_cases hmem : key' ∈ keys
      · rw [if_pos hmem, if_pos (mem_append_left _ hmem), idxOf_append_of_mem hmem]
      · have hmem' : key' ∉ keys ++ [key] := by
          simp [hmem, hne]
        rw [if_neg hmem, if_neg hmem']

/-- The items of a list that are numbered by their positions are found by their numbers. -/
theorem find?_eq_getElem? {α : Type*} {xs : List α} {number : α → Nat}
    (h : ∀ (i : Nat) (x : α), xs[i]? = some x → number x = i + 1) {i : Nat} {x : α}
    (hx : xs[i]? = some x) : (xs.find? fun y => number y = i + 1) = some x := by
  cases hfind : xs.find? fun y => number y = i + 1 with
  | none =>
    have hnot := List.find?_eq_none.1 hfind x (mem_of_getElem? hx)
    exact absurd (decide_eq_true (h i x hx)) hnot
  | some y =>
    obtain ⟨j, hj⟩ := mem_iff_getElem?.1 (mem_of_find?_eq_some hfind)
    have hy : number y = i + 1 := by simpa using List.find?_some hfind
    have hij : j = i := Nat.succ.inj ((h j y hj).symm.trans hy)
    rw [← hj, hij, hx]

end Numbers

end Huatuo
