import Mathlib.Algebra.BigOperators.Group.Finset.Piecewise
import Mathlib.Tactic.Abel

/-!
# Amounts on their way

What was handed in is settled, or held at one of finitely many places until it is.
`Conserved.update` is the rule for a step that changes what one place holds; when nothing is held
any more, all is settled (`Conserved.settled_eq`).
-/

variable {M τ : Type*} [AddCommGroup M]

def Conserved (total settled : M) (held : τ → M) : Prop :=
  ∃ places : Finset τ, (∀ x ∉ places, held x = 0) ∧ total = settled + ∑ x ∈ places, held x

namespace Conserved

variable {total total' settled settled' : M} {held : τ → M}

theorem empty (total : M) : Conserved total total fun _ : τ => 0 :=
  ⟨∅, fun _ _ => rfl, by rw [Finset.sum_empty, add_zero]⟩

variable (h : Conserved total settled held)
include h

theorem settled_eq (hheld : ∀ x, held x = 0) : settled = total := by
  obtain ⟨places, -, hsum⟩ := h
  rw [hsum, Finset.sum_eq_zero fun x _ => hheld x, add_zero]

theorem update [DecidableEq τ] (x : τ) (amount : M)
    (hbal : total' + settled + held x = total + settled' + amount) :
    Conserved total' settled' (Function.update held x amount) := by
  obtain ⟨places, hout, hsum⟩ := h
  have hins : ∑ y ∈ insert x places, held y = ∑ y ∈ places, held y :=
    Finset.sum_insert_of_eq_zero_if_notMem (hout x)
  have hmem : x ∈ insert x places := Finset.mem_insert_self x places
  refine ⟨insert x places, fun y hy => ?_, ?_⟩
  · rw [Finset.mem_insert, not_or] at hy
    rw [Function.update_of_ne hy.1]
    exact hout y hy.2
  · rw [← hins, Finset.sum_eq_add_sum_sdiff_singleton_of_mem hmem] at hsum
    rw [Finset.sum_update_of_mem hmem]
    rw [hsum] at hbal
    have hcan : total' + (settled + held x) =
        settled' + (amount + ∑ y ∈ insert x places \ {x}, held y) + (settled + held x) := by
      calc total' + (settled + held x) = total' + settled + held x := (add_assoc _ _ _).symm
        _ = _ := hbal
        _ = _ := by abel
    exact add_right_cancel hcan

/-- One place hands what it holds to another one. -/
theorem move [DecidableEq τ] {x y : τ} (hne : y ≠ x) (hy : held y = 0) :
    Conserved total settled (Function.update (Function.update held x 0) y (held x)) := by
  have hx : Conserved (total - held x) settled (Function.update held x 0) :=
    h.update x 0 (by abel)
  refine hx.update y (held x) ?_
  rw [Function.update_of_ne hne, hy]
  abel

end Conserved
