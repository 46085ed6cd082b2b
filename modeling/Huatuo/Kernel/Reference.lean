import Huatuo.Lib.Runs
import Mathlib.Data.List.Nodup
import Mathlib.Data.List.Perm.Basic
import Mathlib.Algebra.Ring.Int.Defs

/-!
# The shared reference to a BPF object

`bpf_ref.go`: readers take leases of the published object, and `UnPublish` detaches the object,
waits until no lease is left and closes it. Each section under the lock is one step, and so is the
rest of `UnPublish`. Objects and channels are numbered in the order in which they appear. A lease is
used by one goroutine at a time, which may release it more than once.

The reader count and the channel `readersDone` are shared by all objects. A wait does not end early,
because the count is zero when a channel is closed and an object gets no leases once it is detached
(`reference_safe`). The newest wait ends when no lease is left (`wait_ends`). An earlier one may
not: in `overlapRun`, where the calls are not serialized, the first `UnPublish` waits for ever.
-/

namespace Huatuo.Reference

open List

/-- A call of `UnPublish` that has detached an object, and the channel it waits for. -/
structure Call where
  object : Nat
  readersDone : Option Nat

/-- The reference, the goroutines that use it and what was done. -/
structure State where
  object : Option Nat := none
  readers : Int := 0
  readersDone : Option Nat := none
  /-- the objects of the leases that have a reference -/
  leases : List Nat := []
  calls : List Call := []
  /-- the number of the next object -/
  published : Nat := 0
  /-- the number of the next channel -/
  made : Nat := 0
  /-- the closed channels -/
  closes : List Nat := []
  /-- the closed objects -/
  closed : List Nat := []

inductive Action
  | publish (isNil : Bool)
  | acquire
  | release (lease : Nat)
  | unPublish
  | close (call : Nat)

namespace State

/-- The error, if there is one. -/
def publish (s : State) (isNil : Bool) : Option String × State :=
  if isNil then (some "bpf: cannot publish a nil object", s)
  else if s.object.isSome then (some "bpf: an object is already published", s)
  else (none, { s with object := some s.published, published := s.published + 1 })

/-- The object of the lease, if one is given out. -/
def acquire (s : State) : Option Nat × State :=
  match s.object with
  | none => (none, s)
  | some object => (some object, { s with readers := s.readers + 1, leases := object :: s.leases })

/-- The end of `Release`. -/
def signal (s : State) : State :=
  match s.readersDone with
  | some readersDone =>
    if s.readers = 0 then { s with closes := readersDone :: s.closes, readersDone := none } else s
  | none => s

/-- A lease without a reference is not among the leases. -/
def release (s : State) (lease : Nat) : State :=
  if lease < s.leases.length then
    signal { s with leases := s.leases.eraseIdx lease, readers := s.readers - 1 }
  else s

/-- The section of `UnPublish` under the lock. -/
def unPublish (s : State) : State :=
  match s.object with
  | none => s
  | some object =>
    if s.readers = 0 then { s with object := none, calls := ⟨object, none⟩ :: s.calls }
    else
      { s with
        object := none, readersDone := some s.made, made := s.made + 1
        calls := ⟨object, some s.made⟩ :: s.calls }

def step (s : State) : Action → Option State
  | .publish isNil => some (s.publish isNil).2
  | .acquire => some s.acquire.2
  | .release lease => some (s.release lease)
  | .unPublish => some s.unPublish
  | .close i =>
    match s.calls[i]? with
    | some call =>
      if ∀ ch ∈ call.readersDone, ch ∈ s.closes then
        some { s with calls := s.calls.eraseIdx i, closed := call.object :: s.closed }
      else none
    | none => none

/-- The detached objects. -/
def detached (s : State) : List Nat := s.calls.map Call.object ++ s.closed

end State

/-- Different numbers, given out one by one. -/
def Fresh (numbers : List Nat) (next : Nat) : Prop := numbers.Nodup ∧ ∀ n ∈ numbers, n < next

variable {numbers front : List Nat} {next : Nat}

theorem Fresh.issue (h : Fresh numbers next) : Fresh (next :: numbers) (next + 1) :=
  ⟨nodup_cons.2 ⟨fun hmem => Nat.lt_irrefl _ (h.2 _ hmem), h.1⟩,
    forall_mem_cons.2 ⟨Nat.lt_succ_self _, fun n hn => Nat.lt_succ_of_lt (h.2 n hn)⟩⟩

theorem Fresh.tail (h : Fresh (front ++ numbers) next) : Fresh numbers next :=
  ⟨h.1.of_append_right, fun n hn => h.2 n (mem_append_right _ hn)⟩

/-- What holds before `signal` too. A call that does not wait, and a closed object, has no
leases. -/
structure Core (s : State) : Prop where
  readers : s.readers = s.leases.length
  objects : Fresh (s.object.toList ++ s.detached) s.published
  channels : Fresh (s.readersDone.toList ++ s.closes) s.made
  newest : ∀ ch, ch + 1 = s.made → ch ∈ s.readersDone.toList ++ s.closes
  ready : ∀ call ∈ s.calls, (∀ ch ∈ call.readersDone, ch ∈ s.closes) → call.object ∉ s.leases
  closed : ∀ b ∈ s.closed, b ∉ s.leases

structure Inv (s : State) : Prop extends Core s where
  busy : s.readersDone ≠ none → s.readers ≠ 0

variable {s s' : State} {call : Call}

theorem Core.leases_eq_nil (h : Core s) (hzero : s.readers = 0) : s.leases = [] :=
  eq_nil_of_length_eq_zero (Int.natCast_eq_zero.1 (h.readers.symm.trans hzero))

theorem Core.notMem_detached (h : Core s) {b : Nat} (hobj : s.object = some b) :
    b ∉ s.detached := by
  have hnodup := h.objects.1
  rw [hobj] at hnodup
  exact (nodup_cons.1 hnodup).1

theorem inv_publish (h : Inv s) (isNil : Bool) : Inv (s.publish isNil).2 := by
  unfold State.publish
  split
  · exact h
  split
  · exact h
  · exact { h with objects := h.objects.tail.issue }

theorem inv_acquire (h : Inv s) : Inv s.acquire.2 := by
  unfold State.acquire
  split
  · exact h
  · rename_i object hobj
    have hreaders := h.readers
    have hne : ∀ b ∈ s.detached, b ≠ object := fun b hb heq => h.notMem_detached hobj (heq ▸ hb)
    exact { h with
      readers := by simp [hreaders]
      busy := fun _ => by simp only; omega
      ready := fun call hcall hch => not_mem_cons_of_ne_of_not_mem
        (hne _ (mem_append_left _ (mem_map_of_mem hcall))) (h.ready call hcall hch)
      closed := fun b hb =>
        not_mem_cons_of_ne_of_not_mem (hne b (mem_append_right _ hb)) (h.closed b hb) }

theorem inv_signal (h : Core s) : Inv s.signal := by
  unfold State.signal
  split
  · rename_i ch hdone
    split
    · rename_i hzero
      have hchannels := h.channels
      have hnewest := h.newest
      rw [hdone] at hchannels hnewest
      exact { h with
        channels := hchannels
        newest := hnewest
        busy := fun hne => absurd rfl hne
        ready := fun _ _ _ => by simp [h.leases_eq_nil hzero] }
    · rename_i hne
      exact { h with busy := fun _ => hne }
  · rename_i hnone
    exact { h with busy := fun hne => absurd hnone hne }

theorem inv_release (h : Inv s) (lease : Nat) : Inv (s.release lease) := by
  unfold State.release
  split
  · rename_i hlt
    have hlen := length_eraseIdx_of_lt hlt
    have hreaders := h.readers
    exact inv_signal { h with
      readers := by simp only; omega
      ready := fun call hcall hch hin => h.ready call hcall hch (mem_of_mem_eraseIdx hin)
      closed := fun b hb hin => h.closed b hb (mem_of_mem_eraseIdx hin) }
  · exact h

theorem inv_unPublish (h : Inv s) : Inv s.unPublish := by
  unfold State.unPublish
  split
  · exact h
  rename_i object hobj
  have hobjects := h.objects
  rw [hobj] at hobjects
  split
  · rename_i hzero
    exact { h with
      objects := hobjects
      ready := fun _ _ _ => by simp [h.leases_eq_nil hzero] }
  · rename_i hne
    have hchannels := h.channels.tail.issue
    -- the new channel is not closed yet
    have hnew := (nodup_cons.1 hchannels.1).1
    exact { h with
      objects := hobjects
      channels := hchannels
      newest := fun ch hch => by simp_all
      busy := fun _ => hne
      ready := forall_mem_cons.2 ⟨fun hch => absurd (hch _ rfl) hnew, h.ready⟩ }

variable {i : Nat}

theorem close_eq_some : s.step (.close i) = some s' ↔ ∃ call, s.calls[i]? = some call ∧
    (∀ ch ∈ call.readersDone, ch ∈ s.closes) ∧
    { s with calls := s.calls.eraseIdx i, closed := call.object :: s.closed } = s' := by
  simp only [State.step]
  cases s.calls[i]? <;> simp

theorem inv_close (h : Inv s) (hstep : s.step (.close i) = some s') : Inv s' := by
  obtain ⟨call, hcall, hch, rfl⟩ := close_eq_some.1 hstep
  obtain ⟨hi, rfl⟩ := List.getElem?_eq_some_iff.1 hcall
  have hperm : ((s.calls.eraseIdx i).map Call.object ++ s.calls[i].object :: s.closed).Perm
      s.detached :=
    perm_middle.trans (((getElem_cons_eraseIdx_perm hi).map Call.object).append_right s.closed)
  have hobjects := hperm.append_left s.object.toList
  exact { h with
    objects := ⟨hobjects.nodup_iff.2 h.objects.1, fun b hb => h.objects.2 b (hobjects.mem_iff.1 hb)⟩
    ready := fun c hc => h.ready c (mem_of_mem_eraseIdx hc)
    closed := forall_mem_cons.2 ⟨h.ready _ (getElem_mem hi) hch, h.closed⟩ }

theorem inv_step {action : Action} (h : Inv s) (hstep : s.step action = some s') : Inv s' := by
  cases action with
  | publish isNil => exact Option.some.inj hstep ▸ inv_publish h isNil
  | acquire => exact Option.some.inj hstep ▸ inv_acquire h
  | release lease => exact Option.some.inj hstep ▸ inv_release h lease
  | unPublish => exact Option.some.inj hstep ▸ inv_unPublish h
  | close i => exact inv_close h hstep

theorem inv_of_reachable (h : Runs.Reachable State.step {} s) : Inv s := by
  refine h.invariant ?_ fun _ _ _ _ hs hstep => inv_step hs hstep
  constructor
  · constructor <;> simp [State.detached, Fresh]
  · simp

/-- **No object is closed under a lease**, however the calls overlap. -/
theorem reference_safe (h : Runs.Reachable State.step {} s) :
    s.readers = s.leases.length ∧ s.closes.Nodup ∧ s.closed.Nodup ∧
    (∀ b ∈ s.closed, b ∉ s.leases) ∧ ∀ b ∈ s.detached, s.acquire.1 ≠ some b := by
  have hinv := inv_of_reachable h
  refine ⟨hinv.readers, hinv.channels.tail.1, hinv.objects.tail.tail.1, hinv.closed,
    fun b hb hacq => ?_⟩
  unfold State.acquire at hacq
  split at hacq
  · cases hacq
  · rename_i object hobj
    cases hacq
    exact hinv.notMem_detached hobj hb

/-- The second `UnPublish` replaces the channel that the first one waits for. -/
def overlapRun : List Action :=
  [.publish false, .acquire, .unPublish, .publish false, .acquire, .unPublish, .release 1,
    .release 0, .release 0]

/-- The second object is closed, and a third one is in use. -/
def closeRun : List Action := overlapRun ++ [.close 0, .publish false, .acquire]

theorem reference_safe_overlap : ∃ s, Runs.run State.step {} closeRun = some s ∧
    s.calls = [⟨0, some 0⟩] ∧ s.leases = [2] ∧ s.closes = [1] ∧ s.closed = [1] ∧
    (∀ b ∈ s.closed, b ∉ s.leases) ∧ ∀ b ∈ s.detached, s.acquire.1 ≠ some b :=
  ⟨_, rfl, rfl, rfl, rfl, rfl, (reference_safe ⟨closeRun, rfl⟩).2.2.2⟩

/-- **The newest wait ends when no lease is left.** -/
theorem wait_ends (h : Runs.Reachable State.step {} s) (hcall : s.calls[i]? = some call)
    (hlast : ∀ ch ∈ call.readersDone, ch + 1 = s.made) (hleases : s.leases = []) :
    (s.step (.close i)).isSome := by
  have hinv := inv_of_reachable h
  have hnone : s.readersDone = none := by
    by_contra hne
    exact hinv.busy hne (by simp [hinv.readers, hleases])
  refine Option.isSome_iff_exists.2 ⟨_, close_eq_some.2 ⟨call, hcall, fun ch hch => ?_, rfl⟩⟩
  simpa [hnone] using hinv.newest ch (hlast ch hch)

theorem wait_ends_overlap :
    ∃ s, Runs.run State.step {} overlapRun = some s ∧ s.step (.close 1) = none ∧
    (s.step (.close 0)).isSome :=
  ⟨_, rfl, rfl, wait_ends ⟨overlapRun, rfl⟩ rfl (by decide) rfl⟩

end Huatuo.Reference
