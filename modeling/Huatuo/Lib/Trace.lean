import Mathlib.Data.List.Basic

/-!
# Traces whose events are justified by what came before

A trace is the list of the events of a run, oldest first. `Justified J t` says that `J pre e` holds
of every event `e` of `t` and the events `pre` before it. A run keeps it by justifying the one event
it appends (`justified_concat`), and facts about whole traces follow by induction from the end with
the same rule.
-/

namespace Huatuo.Trace

open List

variable {ε : Type*} {J : List ε → ε → Prop}

def Justified (J : List ε → ε → Prop) (t : List ε) : Prop :=
  ∀ pre e post, t = pre ++ e :: post → J pre e

theorem justified_nil : Justified J [] := by
  intro pre e post h
  simp at h

theorem justified_concat {t : List ε} {e : ε} : Justified J (t ++ [e]) ↔ Justified J t ∧ J t e := by
  constructor
  · intro h
    refine ⟨fun pre e' post ht => ?_, h t e [] rfl⟩
    exact h pre e' (post ++ [e]) (by rw [ht, append_assoc, cons_append])
  · rintro ⟨ht, he⟩ pre e' post heq
    -- the event is the last one, or one of `t`
    rcases eq_nil_or_concat post with rfl | ⟨post', e'', rfl⟩
    · obtain ⟨rfl, hlast⟩ := append_inj' heq rfl
      cases hlast
      exact he
    · rw [concat_eq_append, ← cons_append, ← append_assoc] at heq
      obtain ⟨rfl, -⟩ := append_inj' heq rfl
      exact ht pre e' post' rfl

theorem justified_of_append {t t' : List ε} (h : Justified J (t ++ t')) : Justified J t := by
  intro pre e post ht
  exact h pre e (post ++ t') (by rw [ht, append_assoc, cons_append])

end Huatuo.Trace
