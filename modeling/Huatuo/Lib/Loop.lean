import Mathlib.Data.List.Forall2

/-!
# Loops that may fail

A `for` loop whose body may return an error is `List.foldlM` in `Except`. `foldlM_induction` is the
rule for its invariants, which may speak of the items that are done. A loop that collects the
results of a body is `List.mapM`.
-/

namespace Huatuo.Loop

open List

variable {α β ε : Type*} {body : β → α → Except ε β} {result : β} {xs : List α} {f : α → Option β}
  {ys : List β}

theorem map_eq_ok {x : Except ε α} {f : α → β} :
    x.map f = .ok result ↔ ∃ value, x = .ok value ∧ f value = result := by
  cases x with
  | error e => exact ⟨nofun, fun ⟨_, h, _⟩ => nomatch h⟩
  | ok value =>
    exact ⟨fun h => ⟨value, rfl, Except.ok.inj h⟩,
      fun ⟨_, h, h'⟩ => Except.ok.inj h ▸ congrArg _ h'⟩

theorem foldlM_cons_eq_ok {acc : β} {x : α} :
    (x :: xs).foldlM body acc = .ok result ↔
      ∃ acc', body acc x = .ok acc' ∧ xs.foldlM body acc' = .ok result := by
  rw [foldlM_cons]
  cases body acc x with
  | error e => exact ⟨nofun, fun ⟨_, h, _⟩ => nomatch h⟩
  | ok acc' => exact ⟨fun h => ⟨acc', rfl, h⟩, fun ⟨_, h, h'⟩ => Except.ok.inj h ▸ h'⟩

/-- **The rule for loops.** What holds before the loop and is kept by its body holds after it. -/
theorem foldlM_induction (inv : List α → β → Prop) {init : β} (hinit : inv [] init)
    (hbody : ∀ done x acc acc', inv done acc → body acc x = .ok acc' → inv (done ++ [x]) acc')
    (h : xs.foldlM body init = .ok result) : inv xs result := by
  suffices ∀ done acc, inv done acc → xs.foldlM body acc = .ok result → inv (done ++ xs) result from
    this [] init hinit h
  clear hinit h
  induction xs with intro done acc hacc h
  | nil =>
    cases h
    rwa [append_nil]
  | cons x xs ih =>
    obtain ⟨acc', hx, hrest⟩ := foldlM_cons_eq_ok.1 h
    rw [append_cons]
    exact ih (done ++ [x]) acc' (hbody done x acc acc' hacc hx) hrest

/-- A loop whose body never fails is a fold. -/
theorem foldlM_ok {f : β → α → β} (init : β) (h : ∀ acc, ∀ x ∈ xs, body acc x = .ok (f acc x)) :
    xs.foldlM body init = .ok (xs.foldl f init) := by
  induction xs generalizing init with
  | nil => rfl
  | cons x xs ih =>
    rw [foldlM_cons_eq_ok]
    exact ⟨f init x, h init x (mem_cons_self ..),
      ih (f init x) fun acc y hy => h acc y (mem_cons_of_mem x hy)⟩

/-- `mapM` in `Option` succeeds item by item. -/
theorem mapM_eq_some : xs.mapM f = some ys ↔ List.Forall₂ (fun x y => f x = some y) xs ys := by
  induction xs generalizing ys with
  | nil =>
    rw [mapM_nil, forall₂_nil_left_iff]
    exact ⟨fun h => (Option.some.inj h).symm, fun h => congrArg some h.symm⟩
  | cons x xs ih =>
    rw [mapM_cons, forall₂_cons_left_iff]
    constructor
    · intro h
      obtain ⟨y, hy, h⟩ := Option.bind_eq_some_iff.1 h
      obtain ⟨ys', hys, h⟩ := Option.bind_eq_some_iff.1 h
      exact ⟨y, ys', hy, ih.1 hys, (Option.some.inj h).symm⟩
    · rintro ⟨y, ys', hy, hys, rfl⟩
      rw [hy, ih.2 hys]
      rfl

theorem exists_of_mem_right {R : α → β → Prop} (h : List.Forall₂ R xs ys) {y : β} (hy : y ∈ ys) :
    ∃ x ∈ xs, R x y := by
  induction h with
  | nil => cases hy
  | @cons x z xs ys hxz _ ih =>
    rcases mem_cons.1 hy with rfl | hy
    · exact ⟨x, mem_cons_self, hxz⟩
    · obtain ⟨x', hx', hy⟩ := ih hy
      exact ⟨x', mem_cons_of_mem _ hx', hy⟩

theorem mem_of_mapM (h : xs.mapM f = some ys) :
    (∀ y ∈ ys, ∃ x ∈ xs, f x = some y) ∧ ∀ x ∈ xs, ∃ y ∈ ys, f x = some y := by
  have hall := mapM_eq_some.1 h
  exact ⟨fun _ => exists_of_mem_right hall, fun _ => exists_of_mem_right hall.flip⟩

theorem mapM_isSome (h : ∀ x ∈ xs, ∃ y, f x = some y) : ∃ ys, xs.mapM f = some ys := by
  induction xs with
  | nil => exact ⟨[], rfl⟩
  | cons x xs ih =>
    obtain ⟨y, hy⟩ := h x mem_cons_self
    obtain ⟨ys, hys⟩ := ih fun z hz => h z (mem_cons_of_mem _ hz)
    exact ⟨y :: ys, by rw [mapM_cons, hy, hys]; rfl⟩

end Huatuo.Loop
