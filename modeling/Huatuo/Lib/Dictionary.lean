import Mathlib.Data.List.Nodup

/-!
# Dictionaries in hash buckets

A dictionary numbers distinct nonempty lists from 1 on and keeps 0 for the empty list (`Names`).
Lists are found through buckets: the bucket of a hash holds the numbers of the entries that have it,
and their content decides. `Indexed` is the invariant; nothing is assumed about the hash.
-/

namespace Huatuo.Dictionary

open List

variable {α η : Type*}

/-- `id` stands for `x`. -/
def Names (entries : List (List α)) (id : Nat) (x : List α) : Prop :=
  id = 0 ∧ x = [] ∨ 0 < id ∧ entries[id - 1]? = some x

structure Indexed (hash : List α → η) (entries : List (List α)) (buckets : η → List Nat) :
    Prop where
  nodup : entries.Nodup
  nonempty : [] ∉ entries
  /-- what is in a bucket is the number of an entry -/
  range : ∀ h, ∀ id ∈ buckets h, 0 < id ∧ id ≤ entries.length
  /-- every entry is in its bucket -/
  complete : ∀ (i : Nat) (x : List α), entries[i]? = some x → i + 1 ∈ buckets (hash x)

theorem getElem?_concat_eq_some {β : Type*} {l : List β} {x y : β} {i : Nat} :
    (l ++ [x])[i]? = some y ↔ l[i]? = some y ∨ i = l.length ∧ x = y := by
  rcases Nat.lt_or_ge i l.length with hlt | hge
  · rw [List.getElem?_append_left hlt]
    exact ⟨.inl, fun h => h.elim (fun h => h) fun h => absurd h.1 (Nat.ne_of_lt hlt)⟩
  · rw [List.getElem?_append_right hge, List.getElem?_singleton, List.getElem?_eq_none hge]
    split
    · simp only [Option.some.injEq, reduceCtorEq, false_or]
      exact ⟨fun h => ⟨by omega, h⟩, fun h => h.2⟩
    · simp only [reduceCtorEq, false_or, false_iff]
      omega

section

variable {hash : List α → η} {entries : List (List α)} {buckets : η → List Nat} {id id' : Nat}
  {x x' : List α}

theorem indexed_nil : Indexed hash [] fun _ => [] where
  nodup := nodup_nil
  nonempty := not_mem_nil
  range := fun _ _ h => absurd h not_mem_nil
  complete := fun _ _ h => by cases h

/-! ## Names -/

theorem names_zero : Names entries 0 x ↔ x = [] := by
  simp [Names]

theorem names_succ {i : Nat} : Names entries (i + 1) x ↔ entries[i]? = some x := by
  simp [Names]

theorem Names.unique (h : Names entries id x) (h' : Names entries id x') : x = x' := by
  cases id with
  | zero => rw [names_zero.1 h, names_zero.1 h']
  | succ i => exact Option.some.inj ((names_succ.1 h).symm.trans (names_succ.1 h'))

theorem Names.le_length (h : Names entries id x) : id ≤ entries.length := by
  cases id with
  | zero => exact Nat.zero_le _
  | succ i => exact (List.getElem?_eq_some_iff.1 (names_succ.1 h)).1

theorem Names.ne_zero_iff (hi : Indexed hash entries buckets) (h : Names entries id x) :
    id ≠ 0 ↔ x ≠ [] := by
  cases id with
  | zero => simp [names_zero.1 h]
  | succ i =>
    have hne : x ≠ [] := fun hx => hi.nonempty (hx ▸ mem_of_getElem? (names_succ.1 h))
    simp [hne]

/-- In a dictionary a list has one number. -/
theorem Indexed.names_inj (hi : Indexed hash entries buckets) (h : Names entries id x)
    (h' : Names entries id' x) : id = id' := by
  have hzero := (h.ne_zero_iff hi).trans (h'.ne_zero_iff hi).symm
  cases id with
  | zero =>
    cases id' with
    | zero => rfl
    | succ i' => exact absurd rfl (hzero.2 (Nat.succ_ne_zero i'))
  | succ i =>
    cases id' with
    | zero => exact absurd rfl (hzero.1 (Nat.succ_ne_zero i))
    | succ i' =>
      have hlt := (List.getElem?_eq_some_iff.1 (names_succ.1 h)).1
      rw [(List.getElem?_inj hlt hi.nodup).1 ((names_succ.1 h).trans (names_succ.1 h').symm)]

theorem Names.mono {entries' : List (List α)} (h : Names entries id x)
    (hpre : entries <+: entries') :
    Names entries' id x := by
  obtain ⟨more, rfl⟩ := hpre
  cases id with
  | zero => exact names_zero.2 (names_zero.1 h)
  | succ i =>
    have hget := names_succ.1 h
    have hlt := (List.getElem?_eq_some_iff.1 hget).1
    exact names_succ.2 ((List.getElem?_append_left hlt).trans hget)

theorem names_concat : Names (entries ++ [x]) (entries.length + 1) x :=
  names_succ.2 List.getElem?_concat_length

/-! ## Lookup and insertion -/

/-- The first number of a bucket that passes the test, or 0. -/
def find (bucket : List Nat) (accepts : Nat → Bool) : Nat := (bucket.find? accepts).getD 0

/-- If the test compares contents, a lookup finds the number of `x`, or nothing if there is none. -/
theorem Indexed.find_spec (hi : Indexed hash entries buckets) (x : List α) (accepts : Nat → Bool)
    (hacc : ∀ i, i < entries.length → (accepts (i + 1) = true ↔ entries[i]? = some x)) :
    (find (buckets (hash x)) accepts ≠ 0 → Names entries (find (buckets (hash x)) accepts) x) ∧
      (find (buckets (hash x)) accepts = 0 → x ∉ entries) := by
  have hacc' (id : Nat) (hmem : id ∈ buckets (hash x)) (h : accepts id = true) :
      Names entries id x := by
    obtain ⟨hpos, hle⟩ := hi.range _ id hmem
    obtain ⟨i, rfl⟩ : ∃ i, id = i + 1 := ⟨id - 1, by omega⟩
    exact names_succ.2 ((hacc i hle).1 h)
  unfold find
  cases hfind : (buckets (hash x)).find? accepts with
  | some id =>
    have hid := hacc' id (mem_of_find?_eq_some hfind) (List.find?_some hfind)
    have hpos := (hi.range _ id (mem_of_find?_eq_some hfind)).1
    exact ⟨fun _ => hid, fun hzero => absurd hzero (Nat.ne_of_gt hpos)⟩
  | none =>
    refine ⟨fun hne => absurd rfl hne, fun _ hmem => ?_⟩
    obtain ⟨i, hi'⟩ := mem_iff_getElem?.1 hmem
    have hlt := (List.getElem?_eq_some_iff.1 hi').1
    have hnot := List.find?_eq_none.1 hfind (i + 1) (hi.complete i x hi')
    exact hnot ((hacc i hlt).2 hi')

/-- Add the next number to the bucket of a hash. -/
def insert [DecidableEq η] (buckets : η → List Nat) (h : η) (id : Nat) : η → List Nat :=
  Function.update buckets h (id :: buckets h)

theorem mem_insert [DecidableEq η] {h h' : η} :
    id' ∈ insert buckets h id h' ↔ h = h' ∧ id' = id ∨ id' ∈ buckets h' := by
  unfold insert
  by_cases hh : h = h'
  · subst hh
    rw [Function.update_self, mem_cons]
    simp
  · rw [Function.update_of_ne (Ne.symm hh)]
    simp [hh]

theorem Indexed.insert [DecidableEq η] (hi : Indexed hash entries buckets) (hnew : x ∉ entries)
    (hne : x ≠ []) :
    Indexed hash (entries ++ [x]) (insert buckets (hash x) (entries.length + 1)) where
  nodup := by
    refine nodup_append.2 ⟨hi.nodup, nodup_singleton x, fun y hy y' hy' heq => ?_⟩
    rw [mem_singleton.1 hy'] at heq
    exact hnew (heq ▸ hy)
  nonempty := by
    rw [mem_append, mem_singleton, not_or]
    exact ⟨hi.nonempty, Ne.symm hne⟩
  range := by
    intro h id hmem
    rw [length_append, length_singleton]
    rcases mem_insert.1 hmem with ⟨-, rfl⟩ | hmem
    · exact ⟨Nat.succ_pos _, Nat.le_refl _⟩
    · obtain ⟨hpos, hle⟩ := hi.range h id hmem
      exact ⟨hpos, Nat.le_succ_of_le hle⟩
  complete := by
    intro i y hget
    rw [mem_insert]
    rcases getElem?_concat_eq_some.1 hget with hget | ⟨rfl, rfl⟩
    · exact .inr (hi.complete i y hget)
    · exact .inl ⟨rfl, rfl⟩

end

end Huatuo.Dictionary
