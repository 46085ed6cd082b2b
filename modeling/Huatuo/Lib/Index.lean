import Mathlib.Data.List.Nodup

/-!
# A secondary index of a list

A list owns its elements; an index maps each key to the handles of the elements with that key,
in list order, and holds no empty bucket. `bucket` is the index a list *should* have, `insert`
and `remove` are what a program does to the one it maintains, and the lemmas say that the two
agree after appending and after removing an element.

Handles stand for pointers: they are assumed distinct (`(l.map handle).Nodup`), nothing else.
-/

namespace Index

open Function List

variable {α κ ι : Type*} [DecidableEq κ] {key : α → κ} {handle : α → ι}

/-- A bucket, or nothing where it would be empty. -/
def ofHandles : List ι → Option (List ι)
  | [] => none
  | h :: hs => some (h :: hs)

/-- The index of a list. -/
def bucket (key : α → κ) (handle : α → ι) (l : List α) (k : κ) : Option (List ι) :=
  ofHandles ((l.filter fun a => decide (key a = k)).map handle)

/-- Append a handle to the bucket of `k`. -/
def insert (idx : κ → Option (List ι)) (k : κ) (h : ι) : κ → Option (List ι) :=
  update idx k (some ((idx k).getD [] ++ [h]))

/-- Remove a handle from the bucket of `k`, and the bucket with its last handle. -/
def remove [DecidableEq ι] (idx : κ → Option (List ι)) (k : κ) (h : ι) : κ → Option (List ι) :=
  update idx k (ofHandles (((idx k).getD []).erase h))

@[simp] theorem getD_ofHandles (hs : List ι) : (ofHandles hs).getD [] = hs := by
  cases hs <;> rfl

theorem getD_bucket (l : List α) (k : κ) :
    (bucket key handle l k).getD [] = (l.filter fun a => decide (key a = k)).map handle := by
  simp [bucket]

@[simp] theorem bucket_nil : bucket key handle [] = fun _ => none := rfl

/-- Appending an element inserts its handle. -/
theorem bucket_append_singleton (l : List α) (a : α) :
    bucket key handle (l ++ [a]) = insert (bucket key handle l) (key a) (handle a) := by
  funext k
  unfold insert
  by_cases hk : k = key a
  · subst hk
    rw [update_self, getD_bucket]
    simp only [bucket, filter_append, map_append]
    cases (l.filter fun b => decide (key b = key a)).map handle <;> simp [ofHandles]
  · rw [update_of_ne hk]
    have hne : ¬ key a = k := fun h => hk h.symm
    simp [bucket, hne]

/-- A rewrite of the elements that keeps keys and handles keeps the index. -/
theorem bucket_map (l : List α) {f : α → α} (hkey : ∀ a, key (f a) = key a)
    (hhan : ∀ a, handle (f a) = handle a) : bucket key handle (l.map f) = bucket key handle l := by
  funext k
  have hfil : (l.map f).filter (fun a => decide (key a = k)) =
      (l.filter fun a => decide (key a = k)).map f := by
    rw [filter_map]
    congr 2
    funext a
    simp [hkey]
  have hcomp : handle ∘ f = handle := funext hhan
  simp only [bucket, hfil, map_map, hcomp]

variable [DecidableEq ι]

theorem erase_map_filter {l : List α} (hnd : (l.map handle).Nodup) {a : α} (ha : a ∈ l) (k : κ) :
    ((l.eraseP fun b => decide (handle b = handle a)).filter fun b => decide (key b = k)).map
        handle =
      if key a = k then ((l.filter fun b => decide (key b = k)).map handle).erase (handle a)
      else (l.filter fun b => decide (key b = k)).map handle := by
  induction l with
  | nil => cases ha
  | cons b l ih =>
    rw [map_cons] at hnd
    obtain ⟨hb, hnd'⟩ := nodup_cons.1 hnd
    by_cases hab : handle b = handle a
    · -- the removed element stands at the head
      have hba : b = a := by
        rcases mem_cons.1 ha with rfl | hmem
        · rfl
        · exact absurd (hab ▸ mem_map_of_mem hmem) hb
      subst hba
      rw [eraseP_cons_of_pos (by simp)]
      by_cases hk : key b = k <;> simp [hk]
    · have hmem : a ∈ l := by
        rcases mem_cons.1 ha with rfl | hmem
        · exact absurd rfl hab
        · exact hmem
      rw [eraseP_cons_of_neg (by simpa using hab)]
      have ih' := ih hnd' hmem
      by_cases hb' : key b = k
      · rw [filter_cons_of_pos (by simpa using hb'),
          filter_cons_of_pos (by simpa using hb'), map_cons, map_cons, ih']
        split
        · rw [erase_cons_tail (by simpa using hab)]
        · rfl
      · rw [filter_cons_of_neg (by simpa using hb'),
          filter_cons_of_neg (by simpa using hb'), ih']

/-- Removing an element removes its handle. -/
theorem bucket_eraseP {l : List α} (hnd : (l.map handle).Nodup) {a : α} (ha : a ∈ l) :
    bucket key handle (l.eraseP fun b => decide (handle b = handle a)) =
      remove (bucket key handle l) (key a) (handle a) := by
  funext k
  unfold remove
  by_cases hk : k = key a
  · subst hk
    rw [update_self, getD_bucket]
    unfold bucket
    rw [erase_map_filter hnd ha, if_pos rfl]
  · rw [update_of_ne hk]
    unfold bucket
    rw [erase_map_filter hnd ha, if_neg fun h => hk h.symm]

/-- Handles of list elements resolve to those elements. -/
theorem filterMap_find_handle {l s : List α} (hnd : (l.map handle).Nodup) (hs : ∀ a ∈ s, a ∈ l) :
    (s.map handle).filterMap (fun h => l.find? fun b => decide (handle b = h)) = s := by
  induction s with
  | nil => rfl
  | cons a s ih =>
    have ha : a ∈ l := hs a mem_cons_self
    have hfind : l.find? (fun b => decide (handle b = handle a)) = some a := by
      rw [List.find?_eq_some_iff_append]
      obtain ⟨as, bs, hl⟩ := append_of_mem ha
      refine ⟨by simp, as, bs, hl, fun b hb => ?_⟩
      subst hl
      rw [map_append, map_cons] at hnd
      have hdis := (nodup_append.1 hnd).2.2 (handle b) (mem_map_of_mem hb)
        (handle a) mem_cons_self
      simpa using hdis
    rw [map_cons, filterMap_cons, hfind]
    simp only
    rw [ih fun b hb => hs b (mem_cons_of_mem _ hb)]

end Index
