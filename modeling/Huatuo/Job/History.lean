import Mathlib.Data.List.Induction
import Mathlib.Data.List.Pairwise
import Huatuo.Lib.Trace
import Huatuo.Job.StorageProof
import Huatuo.Job.Runtime

/-!
# Histories of a Job

What may happen to one Job, said about its trace alone. An event is `Legal` if the events before it
justify it: a version is written by one transition of the version before it, a start follows its
persisted intent and is sent once, a stop follows a persisted stop intent. `RuntimeProof` shows that
runtimes only add legal events; here is what follows for a trace of legal events.
-/

namespace Huatuo.Job

open List
open Trace (Justified justified_concat)

def Event.version? : Event → Option Job
  | .created job => some job
  | .saved _ _ _ job => some job
  | .sent _ => none

/-- The versions of a Job that were persisted. -/
def versions (t : List Event) : List Job := t.filterMap Event.version?

theorem versions_concat (t : List Event) (e : Event) :
    versions (t ++ [e]) = versions t ++ e.version?.toList := by
  rw [versions, versions, filterMap_append]
  cases h : e.version? <;> simp [h]

variable {v : Job}

theorem version_mem {t : List Event} {e : Event} (he : e ∈ t) (hv : e.version? = some v) :
    v ∈ versions t :=
  mem_filterMap.2 ⟨e, he, hv⟩

/-- Why an event may follow the events `pre` of the Job with this ID. -/
def Legal (id : String) (pre : List Event) : Event → Prop
  | .created job =>
    versions pre = [] ∧ job.id = id ∧ job.revision = 1 ∧ job.status = .pending ∧ Stored job
  | .saved _ transition now job =>
    now ≠ 0 ∧ ∃ policy previous updated, (versions pre).getLast? = some previous ∧
      transition.apply policy previous now = some updated ∧ job = updated.nextRevision
  | .sent .start => .sent .start ∉ pre ∧ ∃ writer now job,
    .saved writer .startDeadline now job ∈ pre
  | .sent .get => True
  | .sent .stop => ∃ v ∈ versions pre, v.status = .stopping ∧ v.stopReason ≠ .none

/-- What a version keeps of the one before it. -/
structure Before (v v' : Job) : Prop where
  live : v.status ≠ .terminal
  identity : SameIdentity v v'
  status : v.status.rank ≤ v'.status.rank
  pendingDeadline : v.pendingDeadline ≠ 0 → v'.pendingDeadline = v.pendingDeadline

theorem Before.trans {v' v'' : Job} (h : Before v v') (h' : Before v' v'') : Before v v'' where
  live := h.live
  identity := h.identity.trans h'.identity
  status := Nat.le_trans h.status h'.status
  pendingDeadline := fun hne => by
    have hsame := h.pendingDeadline hne
    rw [h'.pendingDeadline (by rw [hsame]; exact hne), hsame]

theorem before_of_apply {policy : RuntimePolicy} {transition : Transition} {updated : Job}
    {now : Time} (h : transition.apply policy v now = some updated) :
    Before v updated.nextRevision := by
  obtain ⟨hlive, hpro⟩ := apply_progress h
  obtain ⟨h₁, h₂, h₃, h₄, h₅, h₆, h₇, h₈, h₉⟩ := hpro.identity
  exact ⟨hlive, ⟨h₁, h₂, h₃, h₄, h₅, h₆, h₇, h₈, h₉⟩, hpro.status,
    hpro.pendingDeadline⟩

section Traces

variable {id : String} {t : List Event} (h : Justified (Legal id) t)
include h

/-- The justification of an event, wherever it stands. -/
theorem legal_of_mem {e : Event} (he : e ∈ t) : ∃ pre post, t = pre ++ e :: post ∧
    Legal id pre e := by
  obtain ⟨pre, post, ht⟩ := append_of_mem he
  exact ⟨pre, post, ht, h pre e post ht⟩

/-! ## Versions -/

variable {v v' : Job} {now : Time} {writer : Nat}

theorem stored_of_mem (hv : v ∈ versions t) : Stored v ∧ v.id = id := by
  induction t using List.reverseRecOn generalizing v with
  | nil => exact absurd hv not_mem_nil
  | append_singleton t e ih =>
    obtain ⟨ht, he⟩ := justified_concat.1 h
    rw [versions_concat, mem_append] at hv
    rcases hv with hv | hv
    · exact ih ht hv
    · cases e with
      | sent _ => exact absurd hv not_mem_nil
      | created job =>
        obtain rfl : v = job := by simpa [Event.version?] using hv
        exact ⟨he.2.2.2.2, he.2.1⟩
      | saved writer transition now job =>
        obtain rfl : v = job := by simpa [Event.version?] using hv
        obtain ⟨hnow, policy, previous, updated, hlast, happly, rfl⟩ := he
        obtain ⟨hsto, hid⟩ := ih ht (mem_of_getLast? hlast)
        have hpro := (apply_progress happly).2
        exact ⟨(hpro.stored hnow hsto).next, hpro.identity.id.trans hid⟩

/-- Revisions count the versions. -/
theorem revision_eq {n : Nat} (hv : (versions t)[n]? = some v) : v.revision = n + 1 := by
  induction t using List.reverseRecOn generalizing n v with
  | nil => simp [versions] at hv
  | append_singleton t e ih =>
    obtain ⟨ht, he⟩ := justified_concat.1 h
    rw [versions_concat] at hv
    rcases Nat.lt_or_ge n (versions t).length with hlt | hge
    · rw [List.getElem?_append_left hlt] at hv
      exact ih ht hv
    · rw [List.getElem?_append_right hge] at hv
      cases e with
      | sent _ => simp [Event.version?] at hv
      | created job =>
        obtain ⟨hnil, -, hrevi, -⟩ := he
        obtain ⟨hn, rfl⟩ : n = 0 ∧ job = v := by
          simpa [Event.version?, hnil, List.getElem?_cons] using hv
        simp [hn, hrevi]
      | saved writer transition now job =>
        obtain ⟨-, policy, previous, updated, hlast, happly, rfl⟩ := he
        obtain ⟨hn, rfl⟩ : n - (versions t).length = 0 ∧ updated.nextRevision = v := by
          simpa [Event.version?, List.getElem?_cons] using hv
        rw [List.getLast?_eq_getElem?] at hlast
        have hprev := ih ht hlast
        have hpos : 0 < (versions t).length :=
          length_pos_of_mem (mem_of_getElem? hlast)
        have hrevi := (apply_progress happly).2.revision
        show updated.revision + 1 = n + 1
        omega

/-- A revision determines the version. -/
theorem eq_of_revision (hv : v ∈ versions t) (hv' : v' ∈ versions t)
    (hrevi : v.revision = v'.revision) : v = v' := by
  obtain ⟨n, hn⟩ := mem_iff_getElem?.1 hv
  obtain ⟨n', hn'⟩ := mem_iff_getElem?.1 hv'
  have hrev := revision_eq h hn
  have hrev' := revision_eq h hn'
  obtain rfl : n = n' := by omega
  rw [hn] at hn'
  exact Option.some.inj hn'

/-- **No lost update.** Each version is one transition of the version before it. -/
theorem exists_transition {n : Nat} (hv : (versions t)[n]? = some v)
    (hv' : (versions t)[n + 1]? = some v') :
    ∃ policy transition now updated, Transition.apply policy v now transition = some updated ∧
      v' = updated.nextRevision := by
  induction t using List.reverseRecOn with
  | nil => simp [versions] at hv
  | append_singleton t e ih =>
    obtain ⟨ht, he⟩ := justified_concat.1 h
    rw [versions_concat] at hv hv'
    rcases Nat.lt_or_ge (n + 1) (versions t).length with hlt | hge
    · rw [List.getElem?_append_left hlt] at hv'
      rw [List.getElem?_append_left (by omega)] at hv
      exact ih ht hv hv'
    · rw [List.getElem?_append_right hge] at hv'
      cases e with
      | sent _ => simp [Event.version?] at hv'
      | created job =>
        obtain ⟨hnil, -⟩ := he
        simp [Event.version?, hnil] at hv'
      | saved writer transition now job =>
        obtain ⟨-, policy, previous, updated, hlast, happly, rfl⟩ := he
        obtain ⟨hn, rfl⟩ : n + 1 - (versions t).length = 0 ∧ updated.nextRevision = v' := by
          simpa [Event.version?, List.getElem?_cons] using hv'
        have hlen : (versions t).length = n + 1 := by omega
        rw [List.getElem?_append_left (by omega)] at hv
        rw [List.getLast?_eq_getElem?, hlen, Nat.add_sub_cancel, hv] at hlast
        cases hlast
        exact ⟨policy, transition, now, updated, happly, rfl⟩

theorem versions_pairwise : (versions t).Pairwise Before := by
  induction t using List.reverseRecOn with
  | nil => exact List.Pairwise.nil
  | append_singleton t e ih =>
    obtain ⟨ht, he⟩ := justified_concat.1 h
    have ih := ih ht
    rw [versions_concat, pairwise_append]
    refine ⟨ih, ?_, ?_⟩
    · cases e with
      | sent _ => exact List.Pairwise.nil
      | created _ | saved _ _ _ _ => exact pairwise_singleton _ _
    · intro v hv v' hv'
      cases e with
      | sent _ => exact absurd hv' not_mem_nil
      | created job =>
        rw [he.1] at hv
        exact absurd hv not_mem_nil
      | saved writer transition now job =>
        obtain rfl : v' = job := by simpa [Event.version?] using hv'
        obtain ⟨-, policy, previous, updated, hlast, happly, rfl⟩ := he
        have hnew := before_of_apply happly
        obtain ⟨earlier, hsplit⟩ := List.getLast?_eq_some_iff.1 hlast
        rw [hsplit] at hv ih
        rcases mem_append.1 hv with hv | hv
        · have hprev := (pairwise_append.1 ih).2.2 v hv previous
          exact (hprev (mem_singleton_self _)).trans hnew
        · obtain rfl := mem_singleton.1 hv
          exact hnew

/-- A version is the last one, or the last one came after it. -/
theorem eq_or_before_last {last : Job} (hv : v ∈ versions t)
    (hlast : (versions t).getLast? = some last) : v = last ∨ Before v last := by
  have hpai := versions_pairwise h
  obtain ⟨earlier, hsplit⟩ := List.getLast?_eq_some_iff.1 hlast
  rw [hsplit] at hv hpai
  rcases mem_append.1 hv with hv | hv
  · exact Or.inr ((pairwise_append.1 hpai).2.2 v hv last (mem_singleton_self _))
  · exact Or.inl (mem_singleton.1 hv)

/-! ## Starts and stops -/

theorem pendingDeadline_of_start (hsta : .saved writer .startDeadline now v ∈ t) :
    v.pendingDeadline ≠ 0 := by
  obtain ⟨pre, post, -, hnow, policy, previous, updated, -, happly, rfl⟩ := legal_of_mem h hsta
  have hdea := (progress_startDeadline happly).2.2.1
  show updated.pendingDeadline ≠ 0
  rw [hdea]
  exact Time.add_ne_zero hnow (le_of_lt policy.pendingTimeout_pos)

/-- Once a start was intended, no version forgets it. -/
theorem pendingDeadline_last {last : Job} (hsta : .saved writer .startDeadline now v ∈ t)
    (hlast : (versions t).getLast? = some last) : last.pendingDeadline ≠ 0 := by
  have hv := pendingDeadline_of_start h hsta
  rcases eq_or_before_last h (version_mem hsta rfl) hlast with rfl | hbef
  · exact hv
  · rw [hbef.pendingDeadline hv]
    exact hv

/-- Only one runtime ever writes the intent to start. -/
theorem writer_unique {i j : Nat} {now' : Time} (hi : .saved i .startDeadline now v ∈ t)
    (hj : .saved j .startDeadline now' v' ∈ t) : i = j := by
  induction t using List.reverseRecOn with
  | nil => exact absurd hi not_mem_nil
  | append_singleton t e ih =>
    obtain ⟨ht, he⟩ := justified_concat.1 h
    -- a second intent would have started from a version without one
    have hsec : ∀ {writer writer' : Nat} {now now' : Time} {v v' : Job},
        .saved writer .startDeadline now v ∈ t →
        e ≠ .saved writer' .startDeadline now' v' := by
      rintro writer writer' now now' v v' hmem rfl
      obtain ⟨-, policy, previous, updated, hlast, happly, -⟩ := he
      exact pendingDeadline_last ht hmem hlast (progress_startDeadline happly).2.1
    rw [mem_append, mem_singleton] at hi hj
    rcases hi with hi | hi <;> rcases hj with hj | hj
    · exact ih ht hi hj
    · exact absurd hj.symm (hsec hi)
    · exact absurd hi.symm (hsec hj)
    · rw [← hi] at hj
      cases hj
      rfl

theorem count_sent_start_le : t.count (.sent .start) ≤ 1 := by
  induction t using List.reverseRecOn with
  | nil => exact Nat.zero_le _
  | append_singleton t e ih =>
    obtain ⟨ht, he⟩ := justified_concat.1 h
    rw [count_append]
    by_cases hsta : e = .sent .start
    · subst hsta
      rw [count_eq_zero_of_not_mem he.1]
      simp
    · have hzero : [e].count (.sent .start) = 0 :=
        count_eq_zero_of_not_mem fun hmem => hsta (mem_singleton.1 hmem).symm
      rw [hzero]
      exact ih ht

/-- A Job that a user's stop made terminal at once was not started and never will be. -/
theorem not_sent_start_of_stopped (hstop : .saved writer .stop now v ∈ t)
    (hterm : v.status = .terminal) : .sent .start ∉ t := by
  intro hsent
  obtain ⟨pre, post, ht, -, writer', now', v', hsta⟩ := legal_of_mem h hsent
  have hmem : .saved writer' .startDeadline now' v' ∈ t := by
    rw [ht]
    exact mem_append_left _ hsta
  have hv := version_mem hstop rfl
  obtain ⟨last, hlast⟩ := Option.ne_none_iff_exists'.1
    (fun hnone => ne_nil_of_mem hv (List.getLast?_eq_none_iff.1 hnone))
  rcases eq_or_before_last h hv hlast with rfl | hbef
  · -- the stop ended the Job at once because no start was intended
    refine pendingDeadline_last h hmem hlast ?_
    obtain ⟨-, -, -, -, policy, previous, updated, -, happly, rfl⟩ := legal_of_mem h hstop
    have happly : Job.stop policy previous now = some updated := happly
    unfold Job.stop at happly
    split at happly
    · cases happly
    split at happly
    · rename_i hpend
      cases happly
      exact (Time.isZero_iff _).1 hpend.2
    · cases happly
      cases hterm
  · exact hbef.live hterm

end Traces

end Huatuo.Job
