import Mathlib.Data.List.Induction
import Mathlib.Algebra.Order.Group.Multiset
import Huatuo.Retransmit.Correlation

/-!
# The correlator: conservation and no missed correlation

Three facts about every sequence of calls:

* `correlate_conserves` — every retransmission leaves in exactly one result, every drop in at
  most one, a result carries a drop iff it is a match, and a wait is reported as expired only
  at or after its deadline.
* `no_missed_correlation` — a cached drop and a waiting retransmission never explain each other, so
  it does not matter which of the two arrived first.
* `timer_earliest` — the timer of the loop is set to the earliest deadline.

The stores are used through their specification only: a bucket holds every entry of its
canonical flow, and a candidate pair has one canonical flow. `Inv` is what every call keeps,
and `Step` is what one call (or one part of a call) does to the events; parts compose by
`Step.trans`.
-/

namespace Huatuo.Retransmit

open Function List

/-- The drop explains the retransmission: same namespace, and a candidate for it. -/
def Explains (drop : DropEvent) (entry : RetransmitEntry) : Prop :=
  isSameNetNamespace drop.ns entry.ns = true ∧ isDropCandidateForRetransmit drop entry = true

instance (drop : DropEvent) (entry : RetransmitEntry) : Decidable (Explains drop entry) := by
  unfold Explains; infer_instance

/-! ## The loop over cached drops -/

structure DropLoopSpec (retransmit : RetransmitEntry) (l : List (StoreEntry DropEvent))
    (acc : Option (StoreEntry DropEvent) × Bool) : Prop where
  none : acc.1 = none → ∀ e ∈ l, ¬ Explains e.value retransmit
  some : ∀ e, acc.1 = some e → e ∈ l ∧ Explains e.value retransmit ∧ acc.2 = true

theorem dropLoop_spec (retransmit : RetransmitEntry) (l : List (StoreEntry DropEvent)) :
    DropLoopSpec retransmit l (l.foldl (dropLoopStep retransmit) (none, false)) := by
  induction l using List.reverseRecOn with
  | nil => exact ⟨by simp, by simp⟩
  | append_singleton l x ih =>
    rw [foldl_append, foldl_cons, foldl_nil]
    generalize l.foldl (dropLoopStep retransmit) (none, false) = acc at ih
    obtain ⟨hnone, hsome⟩ := ih
    have hkeep : ∀ e, acc.1 = some e →
        e ∈ l ++ [x] ∧ Explains e.value retransmit ∧ acc.2 = true := fun e he =>
      ⟨mem_append_left _ (hsome e he).1, (hsome e he).2⟩
    have hskip : ¬ Explains x.value retransmit → acc.1 = none →
        ∀ e ∈ l ++ [x], ¬ Explains e.value retransmit := by
      intro hx hacc e he
      rcases mem_append.1 he with he | he
      · exact hnone hacc e he
      · simp [mem_singleton.1 he, hx]
    by_cases hns : isSameNetNamespace x.value.ns retransmit.ns = true
    · by_cases hcand : isDropCandidateForRetransmit x.value retransmit = true
      · -- the candidate is eligible: it or the previous best is the new best
        have hx : x ∈ l ++ [x] ∧ Explains x.value retransmit ∧ true = true :=
          ⟨mem_append_right _ (mem_singleton_self x), ⟨hns, hcand⟩, rfl⟩
        cases hacc : acc.1 with
        | none =>
          simp only [dropLoopStep, hns, hcand, hacc, Bool.not_true, Bool.false_eq_true,
            if_false]
          exact ⟨by simp, fun e he => by cases he; exact hx⟩
        | some best =>
          simp only [dropLoopStep, hns, hcand, hacc, Bool.not_true, Bool.false_eq_true,
            if_false]
          split
          · exact ⟨by simp, fun e he => by cases he; exact hx⟩
          refine ⟨by simp, fun e he => ?_⟩
          cases he
          exact ⟨(hkeep best hacc).1, (hkeep best hacc).2.1, rfl⟩
      · simp only [dropLoopStep, hns, hcand, Bool.not_true, Bool.false_eq_true, if_false,
          Bool.not_false, if_true]
        refine ⟨hskip fun h => hcand h.2, fun e he => ?_⟩
        exact ⟨(hkeep e he).1, (hkeep e he).2.1, rfl⟩
    · simp only [dropLoopStep, hns, Bool.not_false, if_true]
      exact ⟨hskip fun h => hns h.1, hkeep⟩

section MatchDrop

variable {c c' : EventCorrelator} {entry : RetransmitEntry} {ns : Bool}
  (hwf : c.dropStore.WellFormed)
  (hflow : ∀ e ∈ c.dropStore.byDeadline, e.flow = e.value.flow)

include hwf hflow

/-- A drop that explains the retransmission is in the bucket that is scanned. -/
theorem mem_bucket_of_explains {e : StoreEntry DropEvent} (he : e ∈ c.dropStore.byDeadline)
    (h : Explains e.value entry) : e ∈ c.dropStore.entriesForFlow entry.flow := by
  rw [Store.mem_entriesForFlow hwf]
  refine ⟨he, ?_⟩
  rw [StoreEntry.key, hflow e he]
  exact canonicalFlow_eq_of_candidate h.2

theorem matchAndRemoveDrop_none (h : matchAndRemoveDrop c entry = (none, ns, c')) :
    c' = c ∧ ∀ e ∈ c.dropStore.byDeadline, ¬ Explains e.value entry := by
  have hspec := dropLoop_spec entry (c.dropStore.entriesForFlow entry.flow)
  simp only [matchAndRemoveDrop] at h
  split at h
  · rename_i hnone
    simp only [Prod.mk.injEq, true_and] at h
    refine ⟨h.2.symm, fun e he hx => ?_⟩
    exact hspec.none hnone e (mem_bucket_of_explains hwf hflow he hx) hx
  · simp at h

omit hflow in
theorem matchAndRemoveDrop_some {d : DropEvent}
    (h : matchAndRemoveDrop c entry = (some d, ns, c')) :
    ∃ e ∈ c.dropStore.byDeadline, e.value = d ∧ Explains d entry ∧ ns = true ∧
      c' = { c with dropStore := c.dropStore.remove e } := by
  have hspec := dropLoop_spec entry (c.dropStore.entriesForFlow entry.flow)
  simp only [matchAndRemoveDrop] at h
  split at h
  · simp at h
  rename_i best hbest
  obtain ⟨hmem, hx, hns⟩ := hspec.some best hbest
  simp only [Prod.mk.injEq, Option.some.injEq] at h
  obtain ⟨rfl, rfl, rfl⟩ := h
  exact ⟨best, ((Store.mem_entriesForFlow hwf).1 hmem).1, rfl, hx, hns, rfl⟩

end MatchDrop

/-! ## The loop over waiting retransmissions

The loop marks entries in place while it scans. What it never touches is an entry's `core`. -/

/-- Everything of an entry but its namespace mark. -/
def StoreEntry.core (e : StoreEntry WaitingRetransmit) :
    RetransmitEvent × RetransmitEntry × FlowKey × Time × Nat × UInt64 :=
  (e.value.event, e.value.matchFields, e.flow, e.deadline, e.address, e.sequence)

/-- The entry after `mark`. -/
def StoreEntry.marked (e : StoreEntry WaitingRetransmit) : StoreEntry WaitingRetransmit :=
  { e with value := e.value.mark }

theorem marked_eq_of_core_eq {a b : StoreEntry WaitingRetransmit} (h : a.core = b.core) :
    a.marked = b.marked := by
  obtain ⟨⟨_, _, _⟩, _, _, _⟩ := a
  obtain ⟨⟨_, _, _⟩, _, _, _⟩ := b
  simp only [StoreEntry.core, Prod.mk.injEq] at h
  obtain ⟨rfl, rfl, rfl, rfl, rfl, rfl⟩ := h
  rfl

theorem marked_eq_self {e : StoreEntry WaitingRetransmit} (h : e.value.netNamespace = true) :
    e.marked = e := by
  obtain ⟨⟨_, _, _⟩, _, _, _⟩ := e
  cases h
  rfl

theorem matchFields_eq_of_core_eq {a b : StoreEntry WaitingRetransmit} (h : a.core = b.core) :
    a.value.matchFields = b.value.matchFields := congrArg (fun p => p.2.1) h

theorem exists_core_eq {l l' : List (StoreEntry WaitingRetransmit)}
    (h : l'.map StoreEntry.core = l.map StoreEntry.core) {x : StoreEntry WaitingRetransmit}
    (hx : x ∈ l') : ∃ y ∈ l, y.core = x.core :=
  mem_map.1 (h ▸ mem_map_of_mem hx)

/-- Marking an entry of the store. -/
theorem mem_modify_mark {s : Store WaitingRetransmit} {x : StoreEntry WaitingRetransmit} {n : Nat} :
    x ∈ (s.modify n WaitingRetransmit.mark).byDeadline ↔
      ∃ y ∈ s.byDeadline, (if y.address = n then y.marked else y) = x :=
  mem_map

theorem core_modify_mark (s : Store WaitingRetransmit) (n : Nat) :
    (s.modify n WaitingRetransmit.mark).byDeadline.map StoreEntry.core =
      s.byDeadline.map StoreEntry.core := by
  simp only [Store.modify, map_map]
  refine map_congr_left fun e _ => ?_
  simp only [comp]
  split <;> rfl

structure WaitingLoopSpec (drop : DropEvent) (s : Store WaitingRetransmit)
    (l : List (StoreEntry WaitingRetransmit))
    (acc : Option (StoreEntry WaitingRetransmit) × Store WaitingRetransmit) : Prop where
  wellFormed : acc.2.WellFormed
  ttl : acc.2.ttl = s.ttl
  core : acc.2.byDeadline.map StoreEntry.core = s.byDeadline.map StoreEntry.core
  none : acc.1 = none → ∀ e ∈ l, ¬ Explains drop e.value.matchFields
  some : ∀ e, acc.1 = some e →
    e ∈ acc.2.byDeadline ∧ Explains drop e.value.matchFields ∧ e.value.netNamespace = true

theorem waitingLoop_spec (drop : DropEvent) {s : Store WaitingRetransmit} (hwf : s.WellFormed)
    (l : List (StoreEntry WaitingRetransmit)) (hl : ∀ e ∈ l, e ∈ s.byDeadline) :
    WaitingLoopSpec drop s l (l.foldl (waitingLoopStep drop) (none, s)) := by
  induction l using List.reverseRecOn with
  | nil => exact ⟨hwf, rfl, rfl, by simp, by simp⟩
  | append_singleton l x ih =>
    rw [foldl_append, foldl_cons, foldl_nil]
    have ih := ih fun e he => hl e (mem_append_left _ he)
    generalize l.foldl (waitingLoopStep drop) (none, s) = acc at ih
    obtain ⟨hacc, httl, hcore, hnone, hsome⟩ := ih
    have hskip : ¬ Explains drop x.value.matchFields → acc.1 = none →
        ∀ e ∈ l ++ [x], ¬ Explains drop e.value.matchFields := by
      intro hx hacc e he
      rcases mem_append.1 he with he | he
      · exact hnone hacc e he
      · simp [mem_singleton.1 he, hx]
    by_cases hns : isSameNetNamespace drop.ns x.value.matchFields.ns = true
    · have hwf' := Store.wellFormed_modify hacc x.address WaitingRetransmit.mark
      have hcore' := (core_modify_mark acc.2 x.address).trans hcore
      -- the best so far is marked already, so marking another entry leaves it in place
      have hkeep : ∀ e, acc.1 = some e →
          e ∈ (acc.2.modify x.address WaitingRetransmit.mark).byDeadline ∧
          Explains drop e.value.matchFields ∧ e.value.netNamespace = true := by
        intro e he
        obtain ⟨hmem, hx, hmark⟩ := hsome e he
        refine ⟨mem_modify_mark.2 ⟨e, hmem, ?_⟩, hx, hmark⟩
        rw [marked_eq_self hmark, ite_self]
      by_cases hcand : isDropCandidateForRetransmit drop x.value.matchFields = true
      · have hx : x.marked ∈ (acc.2.modify x.address WaitingRetransmit.mark).byDeadline ∧
            Explains drop x.marked.value.matchFields ∧
            x.marked.value.netNamespace = true := by
          obtain ⟨y, hy, hyx⟩ := exists_core_eq hcore.symm
            (hl x (mem_append_right _ (mem_singleton_self x)))
          have haddress : y.address = x.address := congrArg (fun p => p.2.2.2.2.1) hyx
          refine ⟨mem_modify_mark.2 ⟨y, hy, ?_⟩, ⟨hns, hcand⟩, rfl⟩
          rw [if_pos haddress, marked_eq_of_core_eq hyx]
        have hstep : waitingLoopStep drop acc x =
              (some x.marked, acc.2.modify x.address WaitingRetransmit.mark) ∨
            waitingLoopStep drop acc x =
              (acc.1, acc.2.modify x.address WaitingRetransmit.mark) ∧ acc.1 ≠ none := by
          cases hbest : acc.1 with
          | none =>
            simp [waitingLoopStep, hns, hcand, hbest, WaitingRetransmit.mark,
              StoreEntry.marked]
          | some best =>
            by_cases hlt : x.sequence < best.sequence <;>
              simp [waitingLoopStep, hns, hcand, hbest, WaitingRetransmit.mark,
                StoreEntry.marked, hlt]
        rcases hstep with hstep | ⟨hstep, hbest⟩ <;> rw [hstep]
        · exact ⟨hwf', httl, hcore', by simp, fun e he => by cases he; exact hx⟩
        · exact ⟨hwf', httl, hcore', fun h => absurd h hbest, hkeep⟩
      · have hstep : waitingLoopStep drop acc x =
            (acc.1, acc.2.modify x.address WaitingRetransmit.mark) := by
          simp [waitingLoopStep, hns, hcand, WaitingRetransmit.mark]
        rw [hstep]
        exact ⟨hwf', httl, hcore', hskip fun h => hcand h.2, hkeep⟩
    · have hstep : waitingLoopStep drop acc x = acc := by simp [waitingLoopStep, hns]
      rw [hstep]
      exact ⟨hacc, httl, hcore, hskip fun h => hns h.1, hsome⟩

/-! ## The invariant -/

/-- What every call keeps. `noMissed` is the point: the rest is what the scans need to find
every candidate. -/
structure Inv (c : EventCorrelator) : Prop where
  drops : c.dropStore.WellFormed
  waits : c.retransmitStore.WellFormed
  dropFlow : ∀ e ∈ c.dropStore.byDeadline, e.flow = e.value.flow
  waitFlow : ∀ w ∈ c.retransmitStore.byDeadline, w.flow = w.value.matchFields.flow
  waitEntry : ∀ w ∈ c.retransmitStore.byDeadline,
    retransmitEntryFromEvent w.value.event = some w.value.matchFields
  ttl : c.retransmitStore.ttl = retransmitRetentionDuration
  noMissed : ∀ e ∈ c.dropStore.byDeadline, ∀ w ∈ c.retransmitStore.byDeadline,
    ¬ Explains e.value w.value.matchFields

theorem inv_newEventCorrelator (ready : Nat) : Inv (newEventCorrelator ready) where
  drops := Store.wellFormed_newStore _ _ _ _
  waits := Store.wellFormed_newStore _ _ _ _
  dropFlow := by simp [newEventCorrelator, newStore]
  waitFlow := by simp [newEventCorrelator, newStore]
  waitEntry := by simp [newEventCorrelator, newStore]
  ttl := rfl
  noMissed := by simp [newEventCorrelator, newStore]

section Inv

variable {c : EventCorrelator} (hi : Inv c)

include hi

variable {c' : EventCorrelator} {d : DropEvent}

/-- Entries may leave. -/
theorem Inv.of_subset (hd : c'.dropStore.WellFormed) (hw : c'.retransmitStore.WellFormed)
    (httl : c'.retransmitStore.ttl = c.retransmitStore.ttl)
    (hds : ∀ e ∈ c'.dropStore.byDeadline, e ∈ c.dropStore.byDeadline)
    (hws : ∀ w ∈ c'.retransmitStore.byDeadline, w ∈ c.retransmitStore.byDeadline) : Inv c' where
  drops := hd
  waits := hw
  dropFlow := fun e he => hi.dropFlow e (hds e he)
  waitFlow := fun w hw' => hi.waitFlow w (hws w hw')
  waitEntry := fun w hw' => hi.waitEntry w (hws w hw')
  ttl := httl.trans hi.ttl
  noMissed := fun e he w hw' => hi.noMissed e (hds e he) w (hws w hw')

/-- Entries may be marked. -/
theorem Inv.of_core {s : Store WaitingRetransmit} (hw : s.WellFormed)
    (httl : s.ttl = c.retransmitStore.ttl)
    (hcore : s.byDeadline.map StoreEntry.core = c.retransmitStore.byDeadline.map StoreEntry.core) :
    Inv { c with retransmitStore := s } where
  drops := hi.drops
  waits := hw
  dropFlow := hi.dropFlow
  waitFlow := fun w hw' => by
    obtain ⟨y, hy, hyw⟩ := exists_core_eq hcore hw'
    have hflow : y.flow = w.flow := congrArg (fun p => p.2.2.1) hyw
    rw [← hflow, ← matchFields_eq_of_core_eq hyw]
    exact hi.waitFlow y hy
  waitEntry := fun w hw' => by
    obtain ⟨y, hy, hyw⟩ := exists_core_eq hcore hw'
    have hev : y.value.event = w.value.event := congrArg Prod.fst hyw
    rw [← hev, ← matchFields_eq_of_core_eq hyw]
    exact hi.waitEntry y hy
  ttl := httl.trans hi.ttl
  noMissed := fun e he w hw' => by
    obtain ⟨y, hy, hyw⟩ := exists_core_eq hcore hw'
    rw [← matchFields_eq_of_core_eq hyw]
    exact hi.noMissed e he y hy

/-- A drop is cached after it explained no waiting retransmission. -/
theorem Inv.addDrop (now : Time)
    (hno : ∀ w ∈ c.retransmitStore.byDeadline, ¬ Explains d w.value.matchFields) :
    Inv { c with dropStore := (c.dropStore.add d d.flow now).2 } where
  drops := Store.wellFormed_add hi.drops _ _ _
  waits := hi.waits
  dropFlow := fun e he => by
    rcases Store.mem_of_mem_add hi.drops he with he | ⟨hv, hf, -⟩
    · exact hi.dropFlow e he
    · rw [hv, hf]
  waitFlow := hi.waitFlow
  waitEntry := hi.waitEntry
  ttl := hi.ttl
  noMissed := fun e he w hw => by
    rcases Store.mem_of_mem_add hi.drops he with he | ⟨hv, -, -⟩
    · exact hi.noMissed e he w hw
    · rw [hv]
      exact hno w hw

/-- A retransmission waits after no cached drop explained it. -/
theorem Inv.addWait {w : WaitingRetransmit} (now : Time)
    (hentry : retransmitEntryFromEvent w.event = some w.matchFields)
    (hno : ∀ e ∈ c.dropStore.byDeadline, ¬ Explains e.value w.matchFields) :
    Inv { c with retransmitStore := (c.retransmitStore.add w w.matchFields.flow now).2 } where
  drops := hi.drops
  waits := Store.wellFormed_add hi.waits _ _ _
  dropFlow := hi.dropFlow
  waitFlow := fun x hx => by
    rcases Store.mem_of_mem_add hi.waits hx with hx | ⟨hv, hf, -⟩
    · exact hi.waitFlow x hx
    · rw [hv, hf]
  waitEntry := fun x hx => by
    rcases Store.mem_of_mem_add hi.waits hx with hx | ⟨hv, -, -⟩
    · exact hi.waitEntry x hx
    · rw [hv]
      exact hentry
  ttl := (Store.evict_ttl _).trans hi.ttl
  noMissed := fun e he x hx => by
    rcases Store.mem_of_mem_add hi.waits hx with hx | ⟨hv, -, -⟩
    · exact hi.noMissed e he x hx
    · rw [hv]
      exact hno e he

theorem waitingLoop_spec_of_inv (d : DropEvent) :
    WaitingLoopSpec d c.retransmitStore (c.retransmitStore.entriesForFlow d.flow)
      ((c.retransmitStore.entriesForFlow d.flow).foldl (waitingLoopStep d)
        (none, c.retransmitStore)) :=
  waitingLoop_spec d hi.waits _ fun _ he => ((Store.mem_entriesForFlow hi.waits).1 he).1

theorem matchAndRemoveRetransmit_none (h : matchAndRemoveRetransmit c d = (none, c')) :
    ∃ s : Store WaitingRetransmit, c' = { c with retransmitStore := s } ∧
      s.WellFormed ∧ s.ttl = c.retransmitStore.ttl ∧
      s.byDeadline.map StoreEntry.core = c.retransmitStore.byDeadline.map StoreEntry.core ∧
      ∀ w ∈ c.retransmitStore.byDeadline, ¬ Explains d w.value.matchFields := by
  have hspec := waitingLoop_spec_of_inv hi d
  simp only [matchAndRemoveRetransmit] at h
  split at h
  · rename_i hnone
    simp only [Prod.mk.injEq, true_and] at h
    refine ⟨_, h.symm, hspec.wellFormed, hspec.ttl, hspec.core, fun w hw hx => ?_⟩
    refine hspec.none hnone w ((Store.mem_entriesForFlow hi.waits).2 ⟨hw, ?_⟩) hx
    rw [StoreEntry.key, hi.waitFlow w hw]
    exact (canonicalFlow_eq_of_candidate hx.2).symm
  · simp at h

theorem matchAndRemoveRetransmit_some {w : WaitingRetransmit}
    (h : matchAndRemoveRetransmit c d = (some w, c')) :
    ∃ (s : Store WaitingRetransmit) (e : StoreEntry WaitingRetransmit),
      c' = { c with retransmitStore := s.remove e } ∧
      s.WellFormed ∧ s.ttl = c.retransmitStore.ttl ∧
      s.byDeadline.map StoreEntry.core = c.retransmitStore.byDeadline.map StoreEntry.core ∧
      e ∈ s.byDeadline ∧ e.value = w ∧ Explains d w.matchFields ∧ w.netNamespace = true := by
  have hspec := waitingLoop_spec_of_inv hi d
  simp only [matchAndRemoveRetransmit] at h
  split at h
  · simp at h
  rename_i best hbest
  obtain ⟨hmem, hx, hmark⟩ := hspec.some best hbest
  simp only [Prod.mk.injEq, Option.some.injEq] at h
  obtain ⟨rfl, rfl⟩ := h
  exact ⟨_, best, rfl, hspec.wellFormed, hspec.ttl, hspec.core, hmem, rfl, hx, hmark⟩

end Inv

/-! ## What a step does to the events -/

/-- The retransmissions that wait, each with its deadline. -/
def pending (c : EventCorrelator) : Multiset (RetransmitEvent × Time) :=
  (c.retransmitStore.byDeadline.map fun e => (e.value.event, e.deadline) : List _)

/-- The drops that are cached. -/
def cached (c : EventCorrelator) : Multiset DropEvent :=
  (c.dropStore.byDeadline.map StoreEntry.value : List _)

variable {c : EventCorrelator}

theorem pending_eq_of_core {c' : EventCorrelator}
    (h : c'.retransmitStore.byDeadline.map StoreEntry.core =
      c.retransmitStore.byDeadline.map StoreEntry.core) : pending c' = pending c := by
  have hmap := congrArg (List.map fun p => (p.1, p.2.2.2.1)) h
  rw [map_map, map_map] at hmap
  exact congrArg Multiset.ofList hmap

/-- A result carries a drop iff it is a match, and then the pair was eligible. -/
def CorrelationResult.Sound (r : CorrelationResult) : Prop :=
  (r.drop.isSome = true ↔ r.reason = .matched) ∧
  ∀ d, r.drop = some d → r.netNamespace = true ∧
    ∃ entry, retransmitEntryFromEvent r.retransmit = some entry ∧ Explains d entry

theorem CorrelationResult.sound_of_none {r : CorrelationResult} (hdrop : r.drop = none)
    (hrea : r.reason ≠ .matched) : r.Sound := by
  refine ⟨?_, fun d hd => ?_⟩
  · rw [hdrop]
    exact ⟨fun h => (Bool.false_ne_true h).elim, fun h => absurd h hrea⟩
  · simp [hdrop] at hd

/-- The reasons of a wait that ran out. -/
def CorrelationReason.isExpiry : CorrelationReason → Bool
  | .waitTimeout | .warmup => true
  | .matched | .unsupported | .queueFull | .interrupted => false

/-- From `c` to `c'`, with `arrived` and `dropped` given to the correlator and `out` returned:
nothing is lost and nothing is reported twice. `tagged` gives each result the deadline of the
retransmission it reports. -/
structure Step (c : EventCorrelator) (arrived : Multiset (RetransmitEvent × Time))
    (dropped : Multiset DropEvent) (out : List (Time × CorrelationResult))
    (c' : EventCorrelator) : Prop where
  inv : Inv c'
  sound : ∀ o ∈ out, o.2.Sound
  retransmits : ∃ tagged : List ((Time × CorrelationResult) × Time),
    tagged.map Prod.fst = out ∧
    ((tagged.map fun p => (p.1.2.retransmit, p.2) : List _) : Multiset _) + pending c' =
      pending c + arrived ∧
    ∀ p ∈ tagged, p.1.2.reason.isExpiry = true → p.2 ≤ p.1.1
  drops : ((out.filterMap fun o => o.2.drop : List _) : Multiset DropEvent) + cached c' ≤
    cached c + dropped

theorem Step.refl (hi : Inv c) : Step c 0 0 [] c where
  inv := hi
  sound := by simp
  retransmits := ⟨[], rfl, by simp, by simp⟩
  drops := by simp

theorem Step.trans {c' c'' : EventCorrelator} {arrived arrived' : Multiset (RetransmitEvent × Time)}
    {dropped dropped' : Multiset DropEvent} {out out' : List (Time × CorrelationResult)}
    (h : Step c arrived dropped out c') (h' : Step c' arrived' dropped' out' c'') :
    Step c (arrived + arrived') (dropped + dropped') (out ++ out') c'' where
  inv := h'.inv
  sound := fun o ho => (mem_append.1 ho).elim (h.sound o) (h'.sound o)
  retransmits := by
    obtain ⟨t, ht, hcons, hdl⟩ := h.retransmits
    obtain ⟨t', ht', hcons', hdl'⟩ := h'.retransmits
    refine ⟨t ++ t', by rw [map_append, ht, ht'], ?_, fun p hp => ?_⟩
    · rw [map_append, ← Multiset.coe_add, add_assoc, hcons', ← add_assoc, hcons, add_assoc]
    · exact (mem_append.1 hp).elim (hdl p) (hdl' p)
  drops := by
    rw [filterMap_append, ← Multiset.coe_add, add_assoc]
    calc _ ≤ _ + (cached c' + dropped') := add_le_add_right h'.drops _
      _ = _ + cached c' + dropped' := (add_assoc _ _ _).symm
      _ ≤ cached c + dropped + dropped' := add_le_add_left h.drops _
      _ = _ := add_assoc _ _ _

section Parts

variable {c : EventCorrelator} (hi : Inv c) (now : Time)

include hi

theorem expire_step :
    Step c 0 0 ((expireRetransmitPendingEvents c now).1.map fun r => (now, r))
      (expireRetransmitPendingEvents c now).2 := by
  have hkeep := Store.takeAllExpired_append hi.waits now
  have hkeep' := Store.takeAllExpired_append hi.drops now
  refine ⟨?_, ?_, ?_, ?_⟩
  · refine hi.of_subset (Store.wellFormed_takeAllExpired hi.drops now)
      (Store.wellFormed_takeAllExpired hi.waits now) (Store.takeAllExpired_ttl hi.waits now) ?_ ?_
    · intro e he
      rw [← hkeep']
      exact mem_append_right _ he
    · intro w hw
      rw [← hkeep]
      exact mem_append_right _ hw
  · intro o ho
    simp only [expireRetransmitPendingEvents, map_map, mem_map] at ho
    obtain ⟨e, -, rfl⟩ := ho
    refine CorrelationResult.sound_of_none rfl ?_
    simp only [comp, expiredResult]
    split <;> simp
  · refine ⟨(c.retransmitStore.takeAllExpired now).1.map fun e =>
        ((now, expiredResult c.readyFromMonotonicNS e.value), e.deadline), ?_, ?_, ?_⟩
    · simp [expireRetransmitPendingEvents, comp_def]
    · simp [pending, expireRetransmitPendingEvents, comp_def, expiredResult, ← map_append, hkeep]
    · intro p hp _
      obtain ⟨e, he, rfl⟩ := mem_map.1 hp
      exact Store.deadline_le_of_mem_takeAllExpired hi.waits now e he
  · have hnone : ((expireRetransmitPendingEvents c now).1.map fun r => (now, r)).filterMap
        (fun o => o.2.drop) = [] := by
      simp [expireRetransmitPendingEvents, expiredResult]
    rw [hnone, Multiset.coe_nil, zero_add, add_zero]
    simp only [cached, expireRetransmitPendingEvents, Multiset.coe_le]
    rw [← hkeep', map_append]
    exact (sublist_append_right _ _).subperm

/-- The three ways a retransmission is admitted: it cannot be correlated, a cached drop
explains it, or it waits. -/
theorem admitRetransmit_cases (event : RetransmitEvent) :
    ((∀ entry, retransmitEntryFromEvent event = some entry →
        entry.kind = .unsupported ∨ entry.hasSequenceRange = false) ∧
      admitRetransmit c event now = ([{ retransmit := event, reason := .unsupported }], c)) ∨
    (∃ entry, ∃ e ∈ c.dropStore.byDeadline, retransmitEntryFromEvent event = some entry ∧
      Explains e.value entry ∧
      admitRetransmit c event now =
        ([{ retransmit := event, drop := some e.value, reason := .matched,
            netNamespace := true }],
          { c with dropStore := c.dropStore.remove e })) ∨
    (∃ entry ns, retransmitEntryFromEvent event = some entry ∧
      (∀ e ∈ c.dropStore.byDeadline, ¬ Explains e.value entry) ∧
      admitRetransmit c event now =
        ((c.retransmitStore.add ⟨event, entry, ns⟩ entry.flow now).1.toList.map fun evicted =>
            { retransmit := evicted.value.event, reason := .queueFull,
              netNamespace := evicted.value.netNamespace },
          { c with
            retransmitStore :=
              (c.retransmitStore.add ⟨event, entry, ns⟩ entry.flow now).2 })) := by
  unfold admitRetransmit
  cases hentry : retransmitEntryFromEvent event with
  | none => exact Or.inl ⟨by simp, rfl⟩
  | some entry =>
    dsimp only
    split
    · rename_i huns
      exact Or.inl ⟨fun x hx => by cases hx; exact huns, rfl⟩
    · refine Or.inr ?_
      split
      · rename_i d ns c' hmatch
        obtain ⟨e, he, rfl, hx, rfl, rfl⟩ := matchAndRemoveDrop_some hi.drops hmatch
        exact Or.inl ⟨entry, e, he, rfl, hx, rfl⟩
      · rename_i ns c' hmatch
        obtain ⟨rfl, hno⟩ := matchAndRemoveDrop_none hi.drops hi.dropFlow hmatch
        exact Or.inr ⟨entry, ns, rfl, hno, rfl⟩

theorem cached_remove {e : StoreEntry DropEvent} (he : e ∈ c.dropStore.byDeadline) :
    e.value ::ₘ cached { c with dropStore := c.dropStore.remove e } = cached c :=
  Multiset.coe_eq_coe.2 ((Store.remove_perm hi.drops he).map StoreEntry.value)

theorem admitRetransmit_step (event : RetransmitEvent) :
    Step c {(event, now.add retransmitRetentionDuration)} 0
      ((admitRetransmit c event now).1.map fun r => (now, r))
      (admitRetransmit c event now).2 := by
  obtain ⟨-, h⟩ | ⟨entry, e, he, hentry, hx, h⟩ | ⟨entry, ns, hentry, hno, h⟩ :=
    admitRetransmit_cases hi now event <;> rw [h]
  · refine ⟨hi, ?_, ⟨[((now, _), now.add retransmitRetentionDuration)], rfl, ?_, ?_⟩, ?_⟩
    · simpa using CorrelationResult.sound_of_none rfl (by simp)
    · simp [add_comm]
    · simp [CorrelationReason.isExpiry]
    · simp
  · refine ⟨?_, ?_, ⟨[((now, _), now.add retransmitRetentionDuration)], rfl, ?_, ?_⟩, ?_⟩
    · exact hi.of_subset (Store.wellFormed_remove hi.drops he) hi.waits rfl
        (fun x hx => Store.mem_of_mem_remove hx) fun w hw => hw
    · simp only [map_cons, map_nil, mem_singleton, forall_eq]
      refine ⟨by simp, fun d hd => ?_⟩
      cases hd
      exact ⟨rfl, entry, hentry, hx⟩
    · simp [add_comm, pending]
    · simp [CorrelationReason.isExpiry]
    · simp only [map_cons, map_nil, add_zero]
      exact (cached_remove hi he).le
  · refine ⟨hi.addWait now (w := ⟨event, entry, ns⟩) hentry hno, ?_,
      ⟨(c.retransmitStore.evict.1.toList.map fun e =>
        ((now, { retransmit := e.value.event, reason := .queueFull,
                 netNamespace := e.value.netNamespace }), e.deadline)), ?_, ?_, ?_⟩, ?_⟩
    · intro o ho
      simp only [map_map, mem_map] at ho
      obtain ⟨e, -, rfl⟩ := ho
      exact CorrelationResult.sound_of_none rfl (by simp)
    · simp [Store.add]
    · -- what is evicted and what is kept are the entries there were; the new one is added
      have hperm := (Store.evict_perm hi.waits).map fun e => (e.value.event, e.deadline)
      have hpush : pending { c with
            retransmitStore := (c.retransmitStore.add ⟨event, entry, ns⟩ entry.flow now).2 } =
          ((c.retransmitStore.evict.2.byDeadline.map fun e => (e.value.event, e.deadline) :
            List _) : Multiset _) + {(event, now.add retransmitRetentionDuration)} := by
        simp only [pending, Store.add, Store.push, Store.evict_ttl, hi.ttl, map_append,
          map_cons, map_nil, ← Multiset.coe_add, Multiset.coe_singleton]
      rw [hpush, ← add_assoc]
      simp only [map_map, comp_def, Multiset.coe_add]
      rw [← map_append, Multiset.coe_eq_coe.2 hperm]
      rfl
    · intro p hp
      obtain ⟨e, -, rfl⟩ := mem_map.1 hp
      simp [CorrelationReason.isExpiry]
    · simp [cached, comp_def]

/-- The three ways a drop is admitted: it cannot be correlated, a waiting retransmission is
explained, or it is cached. -/
theorem admitDrop_cases (d : DropEvent) :
    (((d.ns.cookie = 0 ∧ d.ns.inode = 0) ∨
        ¬ (d.flow.source.addr.isValid = true ∧ d.flow.destination.addr.isValid = true)) ∧
      admitDrop c d now = ([], c)) ∨
    (∃ (s : Store WaitingRetransmit) (e : StoreEntry WaitingRetransmit),
      s.WellFormed ∧ s.ttl = c.retransmitStore.ttl ∧
      s.byDeadline.map StoreEntry.core = c.retransmitStore.byDeadline.map StoreEntry.core ∧
      e ∈ s.byDeadline ∧ Explains d e.value.matchFields ∧
      admitDrop c d now =
        ([{ retransmit := e.value.event, drop := some d, reason := .matched,
            netNamespace := true }],
          { c with retransmitStore := s.remove e })) ∨
    (∃ s : Store WaitingRetransmit,
      s.WellFormed ∧ s.ttl = c.retransmitStore.ttl ∧
      s.byDeadline.map StoreEntry.core = c.retransmitStore.byDeadline.map StoreEntry.core ∧
      (∀ w ∈ c.retransmitStore.byDeadline, ¬ Explains d w.value.matchFields) ∧
      admitDrop c d now =
        ([], { c with
          retransmitStore := s
          dropStore := (c.dropStore.add d d.flow now).2 })) := by
  unfold admitDrop
  dsimp only
  split
  · rename_i hskip
    refine Or.inl ⟨?_, rfl⟩
    simpa [Classical.or_iff_not_imp_left] using hskip
  · refine Or.inr ?_
    split
    · rename_i w c' hmatch
      obtain ⟨s, e, rfl, hwf, httl, hcore, he, rfl, hx, hmark⟩ :=
        matchAndRemoveRetransmit_some hi hmatch
      exact Or.inl ⟨s, e, hwf, httl, hcore, he, hx, by rw [hmark]⟩
    · rename_i c' hmatch
      obtain ⟨s, rfl, hwf, httl, hcore, hno⟩ := matchAndRemoveRetransmit_none hi hmatch
      exact Or.inr ⟨s, hwf, httl, hcore, hno, rfl⟩

theorem admitDrop_step (d : DropEvent) :
    Step c 0 {d} ((admitDrop c d now).1.map fun r => (now, r)) (admitDrop c d now).2 := by
  obtain ⟨-, h⟩ | ⟨s, e, hwf, httl, hcore, he, hx, h⟩ | ⟨s, hwf, httl, hcore, hno, h⟩ :=
    admitDrop_cases hi now d <;> rw [h]
  · exact ⟨hi, by simp, ⟨[], by simp, by simp, by simp⟩, by simp⟩
  · have hi' : Inv { c with retransmitStore := s } := hi.of_core hwf httl hcore
    refine ⟨?_, ?_, ⟨[((now, _), e.deadline)], rfl, ?_, ?_⟩, ?_⟩
    · exact hi'.of_subset hi.drops (Store.wellFormed_remove hwf he) rfl (fun x hx => hx)
        fun w hw => Store.mem_of_mem_remove hw
    · simp only [map_cons, map_nil, mem_singleton, forall_eq]
      refine ⟨by simp, fun d' hd => ?_⟩
      cases hd
      exact ⟨rfl, _, hi'.waitEntry e he, hx⟩
    · have hperm := (Store.remove_perm hwf he).map fun e => (e.value.event, e.deadline)
      have hpend : pending { c with retransmitStore := s } = pending c :=
        pending_eq_of_core hcore
      rw [add_zero, ← hpend]
      exact Multiset.coe_eq_coe.2 hperm
    · simp [CorrelationReason.isExpiry]
    · simp [cached, add_comm]
  · have hi' : Inv { c with retransmitStore := s } := hi.of_core hwf httl hcore
    refine ⟨?_, by simp, ⟨[], by simp, ?_, by simp⟩, ?_⟩
    · refine hi'.addDrop now fun w hw => ?_
      obtain ⟨y, hy, hyw⟩ := exists_core_eq hcore hw
      rw [← matchFields_eq_of_core_eq hyw]
      exact hno y hy
    · simpa using pending_eq_of_core hcore
    · -- the evicted drop is forgotten, the new one is cached
      have hperm := (Store.evict_perm hi.drops).map StoreEntry.value
      have hsub : (c.dropStore.evict.2.byDeadline.map StoreEntry.value).Subperm
          (c.dropStore.byDeadline.map StoreEntry.value) := by
        refine (List.Sublist.subperm ?_).trans hperm.subperm
        rw [map_append]
        exact sublist_append_right _ _
      simp only [cached, Store.add, Store.push, map_append, map_cons, map_nil,
        filterMap_nil, Multiset.coe_nil, zero_add, ← Multiset.coe_add,
        Multiset.coe_singleton]
      exact add_le_add_left (Multiset.coe_le.2 hsub) _

/-- Emptying the store of waits at shutdown. -/
theorem interrupt_step :
    Step c 0 0
      ((c.retransmitStore.drain.1.map fun waiting =>
          ({ retransmit := waiting.value.event, reason := .interrupted,
             netNamespace := waiting.value.netNamespace } : CorrelationResult)).map
        fun r => (now, r))
      { c with retransmitStore := c.retransmitStore.drain.2 } := by
  obtain ⟨hall, hemp⟩ := Store.drain_eq c.retransmitStore
  refine ⟨?_, ?_, ?_, ?_⟩
  · refine hi.of_subset hi.drops (Store.wellFormed_drain hi.waits) (Store.drain_ttl _)
      (fun e he => he) fun w hw => ?_
    simp [hemp] at hw
  · intro o ho
    simp only [map_map, mem_map] at ho
    obtain ⟨e, -, rfl⟩ := ho
    exact CorrelationResult.sound_of_none rfl (by simp)
  · refine ⟨c.retransmitStore.drain.1.map fun e =>
      ((now, { retransmit := e.value.event, reason := .interrupted,
               netNamespace := e.value.netNamespace }), e.deadline), by simp, ?_, ?_⟩
    · simp [pending, hemp, hall, comp_def]
    · intro p hp
      obtain ⟨e, -, rfl⟩ := mem_map.1 hp
      simp [CorrelationReason.isExpiry]
  · simp [cached, comp_def]

theorem drain_step :
    Step c 0 0 ((drainRetransmits c now).1.map fun r => (now, r)) (drainRetransmits c now).2 ∧
      pending (drainRetransmits c now).2 = 0 := by
  have hexp := expire_step hi now
  obtain ⟨-, hemp⟩ := Store.drain_eq (expireRetransmitPendingEvents c now).2.retransmitStore
  refine ⟨?_, by simp [pending, drainRetransmits, hemp]⟩
  have hdrain := hexp.trans (interrupt_step hexp.inv now)
  rw [zero_add, zero_add, ← map_append] at hdrain
  exact hdrain

end Parts

/-! ## Sessions -/

def Input.retransmitEvent : Input → Option RetransmitEvent
  | .retransmit event => some event
  | .drop _ | .expire => none

def Input.dropEvent : Input → Option DropEvent
  | .drop event => some event
  | .retransmit _ | .expire => none

/-- The retransmission a call at `now` brings, with the deadline its wait has. -/
def Input.arrival (now : Time) (input : Input) : Option (RetransmitEvent × Time) :=
  input.retransmitEvent.map fun event => (event, now.add retransmitRetentionDuration)

theorem feed_step (hi : Inv c) (input : Input) (now : Time) :
    Step c (input.arrival now).toList input.dropEvent.toList
      ((feed c input now).1.map fun r => (now, r)) (feed c input now).2 := by
  have hexp := expire_step hi now
  cases input with
  | retransmit event =>
    simp only [feed, processRetransmitEvent, map_append]
    simpa [Input.arrival, Input.retransmitEvent, Input.dropEvent] using
      hexp.trans (admitRetransmit_step hexp.inv now event)
  | drop event =>
    simp only [feed, processDropEvent, map_append]
    simpa [Input.arrival, Input.retransmitEvent, Input.dropEvent] using
      hexp.trans (admitDrop_step hexp.inv now event)
  | expire => exact hexp

theorem feedAll_step (hi : Inv c) (inputs : List (Input × Time)) :
    Step c (inputs.filterMap fun i => i.1.arrival i.2 : List _)
      (inputs.filterMap fun i => i.1.dropEvent : List _)
      (feedAll c inputs).1 (feedAll c inputs).2 := by
  induction inputs generalizing c with
  | nil => exact Step.refl hi
  | cons i rest ih =>
    obtain ⟨input, now⟩ := i
    have hfeed := feed_step hi input now
    have hrest := hfeed.trans (ih hfeed.inv)
    rw [Multiset.coe_add, Multiset.coe_add] at hrest
    simp only [feedAll, filterMap_cons]
    cases harr : input.arrival now <;> cases hdrop : input.dropEvent <;>
      simpa only [harr, hdrop, Option.toList_none, Option.toList_some, nil_append,
        cons_append] using hrest

theorem correlate_step (ready : Nat) (inputs : List (Input × Time)) (shutdown : Time) :
    ∃ c', pending c' = 0 ∧
      Step (newEventCorrelator ready) (inputs.filterMap fun i => i.1.arrival i.2 : List _)
        (inputs.filterMap fun i => i.1.dropEvent : List _)
        (correlate ready inputs shutdown) c' := by
  have hfed := feedAll_step (inv_newEventCorrelator ready) inputs
  obtain ⟨hdrain, hemp⟩ := drain_step hfed.inv shutdown
  exact ⟨_, hemp, by simpa [correlate] using hfed.trans hdrain⟩

/-- **Conservation.** Over every session: each retransmission given to the correlator is in
exactly one result, each drop in at most one; a result carries a drop iff it is a match, and
then the pair is in one namespace, is a candidate and is flagged so; and a wait is reported as
run out (`waitTimeout`, `warmup`) by no call earlier than the deadline of the event it reports. -/
theorem correlate_conserves (ready : Nat) (inputs : List (Input × Time)) (shutdown : Time) :
    ((correlate ready inputs shutdown).map fun o => o.2.retransmit).Perm
      (inputs.filterMap fun i => i.1.retransmitEvent) ∧
    ((correlate ready inputs shutdown).filterMap fun o => o.2.drop).Subperm
      (inputs.filterMap fun i => i.1.dropEvent) ∧
    (∀ o ∈ correlate ready inputs shutdown,
      (o.2.drop.isSome = true ↔ o.2.reason = .matched) ∧
      ∀ d, o.2.drop = some d → o.2.netNamespace = true ∧
        ∃ entry, retransmitEntryFromEvent o.2.retransmit = some entry ∧
          isSameNetNamespace d.ns entry.ns = true ∧
          isDropCandidateForRetransmit d entry = true) ∧
    (∃ withDeadline : List ((Time × CorrelationResult) × Time),
      withDeadline.map Prod.fst = correlate ready inputs shutdown ∧
      (withDeadline.map fun p => (p.1.2.retransmit, p.2)).Perm
        (inputs.filterMap fun i => i.1.arrival i.2) ∧
      ∀ p ∈ withDeadline, p.1.2.reason = .waitTimeout ∨ p.1.2.reason = .warmup →
        p.2 ≤ p.1.1) := by
  obtain ⟨c', hempty, -, hsound, ⟨tagged, htagged, hcons, hdl⟩, hdrops⟩ :=
    correlate_step ready inputs shutdown
  have hfresh : pending (newEventCorrelator ready) = 0 := rfl
  rw [hempty, hfresh, add_zero, zero_add, Multiset.coe_eq_coe] at hcons
  refine ⟨?_, ?_, hsound, tagged, htagged, hcons, fun p hp hreason => ?_⟩
  · have hevents := hcons.map Prod.fst
    rw [map_map, map_filterMap] at hevents
    rw [← htagged, map_map]
    refine hevents.trans (List.Perm.of_eq (filterMap_congr fun i _ => ?_))
    rw [Input.arrival, Option.map_map]
    exact Option.map_id' ..
  · have hle := le_trans (Multiset.le_add_right _ _) hdrops
    have hnothing : cached (newEventCorrelator ready) = 0 := rfl
    rw [hnothing, zero_add, Multiset.coe_le] at hle
    exact hle
  · refine hdl p hp ?_
    rcases hreason with hreason | hreason <;> rw [hreason] <;> rfl

/-! ## Either order of arrival -/

/-- The result of a match. -/
def matchedResult (event : RetransmitEvent) (drop : DropEvent) : CorrelationResult :=
  { retransmit := event, drop := some drop, reason := .matched, netNamespace := true }

/-- A drop that explains a retransmission is not turned away. -/
theorem admissible_of_explains {d : DropEvent} {entry : RetransmitEntry} (hx : Explains d entry)
    (hvalid : entry.flow.source.addr.isValid = true ∧ entry.flow.destination.addr.isValid = true) :
    ¬ ((d.ns.cookie = 0 ∧ d.ns.inode = 0) ∨
      ¬ (d.flow.source.addr.isValid = true ∧ d.flow.destination.addr.isValid = true)) := by
  have hns := hasNamespace_of_isSame hx.1
  rintro (⟨hcoo, hinode⟩ | hinv)
  · exact hns.elim (fun h => h hcoo) fun h => h hinode
  · exact hinv (flow_valid_of_candidate hx.2 hvalid)

section Order

variable {c : EventCorrelator} (hi : Inv c) (now : Time)

include hi

/-- A retransmission that a cached drop explains is matched on arrival. -/
theorem admitRetransmit_matched {event : RetransmitEvent} {entry : RetransmitEntry}
    (hentry : retransmitEntryFromEvent event = some entry) {e : StoreEntry DropEvent}
    (he : e ∈ c.dropStore.byDeadline) (hx : Explains e.value entry) :
    ∃ e' ∈ c.dropStore.byDeadline,
      (admitRetransmit c event now).1 = [matchedResult event e'.value] := by
  obtain ⟨huns, -⟩ | ⟨-, e', he', -, -, h⟩ | ⟨entry', ns, hentry', hno, -⟩ :=
    admitRetransmit_cases hi now event
  · exact absurd (huns entry hentry) (supported_of_candidate hx.2)
  · exact ⟨e', he', by rw [h]; rfl⟩
  · rw [hentry] at hentry'
    cases hentry'
    exact absurd hx (hno e he)

/-- A drop that explains a waiting retransmission is matched on arrival. -/
theorem admitDrop_matched {d : DropEvent} {w : StoreEntry WaitingRetransmit}
    (hw : w ∈ c.retransmitStore.byDeadline) (hx : Explains d w.value.matchFields) :
    ∃ w' ∈ c.retransmitStore.byDeadline,
      (admitDrop c d now).1 = [matchedResult w'.value.event d] := by
  obtain ⟨hskip, -⟩ | ⟨s, e, -, -, hcore, he, -, h⟩ | ⟨s, -, -, -, hno, -⟩ :=
    admitDrop_cases hi now d
  · exact absurd hskip (admissible_of_explains hx (flow_valid_of_entry (hi.waitEntry w hw)))
  · obtain ⟨y, hy, hye⟩ := exists_core_eq hcore he
    have hev : y.value.event = e.value.event := congrArg Prod.fst hye
    exact ⟨y, hy, by rw [h, hev]; rfl⟩
  · exact absurd hx (hno w hw)

theorem feed_drop_lone {d : DropEvent} {w : StoreEntry WaitingRetransmit}
    (hwaits : c.retransmitStore.byDeadline = [w]) (hx : Explains d w.value.matchFields)
    (hsto : (expireRetransmitPendingEvents c now).2.retransmitStore.byDeadline ≠ []) :
    (feed c (.drop d) now).1 = [matchedResult w.value.event d] := by
  obtain ⟨hexpi, hkept⟩ := Store.takeAllExpired_singleton hi.waits now hwaits hsto
  have hkept : (expireRetransmitPendingEvents c now).2.retransmitStore.byDeadline = [w] := hkept
  obtain ⟨w', hw', hmatch⟩ := admitDrop_matched (expire_step hi now).inv now
    (hkept ▸ mem_singleton_self w) hx
  rw [hkept, mem_singleton] at hw'
  rw [feed, processDropEvent, hmatch, hw']
  simp [expireRetransmitPendingEvents, hexpi]

theorem feed_retransmit_lone {event : RetransmitEvent} {entry : RetransmitEntry}
    {e : StoreEntry DropEvent} (hwaits : c.retransmitStore.byDeadline = [])
    (hdrops : c.dropStore.byDeadline = [e]) (hentry : retransmitEntryFromEvent event = some entry)
    (hx : Explains e.value entry)
    (hsto : (expireRetransmitPendingEvents c now).2.dropStore.byDeadline ≠ []) :
    (feed c (.retransmit event) now).1 = [matchedResult event e.value] := by
  have hexpi := Store.takeAllExpired_append hi.waits now
  rw [hwaits, append_eq_nil_iff] at hexpi
  obtain ⟨-, hkept⟩ := Store.takeAllExpired_singleton hi.drops now hdrops hsto
  have hkept : (expireRetransmitPendingEvents c now).2.dropStore.byDeadline = [e] := hkept
  obtain ⟨e', he', hmatch⟩ := admitRetransmit_matched (expire_step hi now).inv now hentry
    (hkept ▸ mem_singleton_self e) hx
  rw [hkept, mem_singleton] at he'
  rw [feed, processRetransmitEvent, hmatch, he']
  simp [expireRetransmitPendingEvents, hexpi.1]

end Order

section Pair

variable (ready : Nat) {event : RetransmitEvent} {entry : RetransmitEntry} {d : DropEvent}
  (hentry : retransmitEntryFromEvent event = some entry) (hx : Explains d entry)

include hentry hx

theorem feed_retransmit_alone (now : Time) :
    ∃ w : StoreEntry WaitingRetransmit, w.value.event = event ∧ w.value.matchFields = entry ∧
      (feed (newEventCorrelator ready) (.retransmit event) now).1 = [] ∧
      (feed (newEventCorrelator ready) (.retransmit event) now).2.retransmitStore.byDeadline =
        [w] := by
  have hexp : expireRetransmitPendingEvents (newEventCorrelator ready) now =
      ([], newEventCorrelator ready) := rfl
  simp only [feed, processRetransmitEvent, hexp, nil_append]
  obtain ⟨huns, -⟩ | ⟨-, e, he, -⟩ | ⟨entry', ns, hentry', -, h⟩ :=
    admitRetransmit_cases (inv_newEventCorrelator ready) now event
  · exact absurd (huns entry hentry) (supported_of_candidate hx.2)
  · cases he
  · rw [hentry] at hentry'
    cases hentry'
    rw [h]
    exact ⟨_, rfl, rfl, rfl, rfl⟩

theorem feed_drop_alone (now : Time) :
    ∃ e : StoreEntry DropEvent, e.value = d ∧
      (feed (newEventCorrelator ready) (.drop d) now).1 = [] ∧
      (feed (newEventCorrelator ready) (.drop d) now).2.retransmitStore.byDeadline = [] ∧
      (feed (newEventCorrelator ready) (.drop d) now).2.dropStore.byDeadline = [e] := by
  have hexp : expireRetransmitPendingEvents (newEventCorrelator ready) now =
      ([], newEventCorrelator ready) := rfl
  simp only [feed, processDropEvent, hexp, nil_append]
  obtain ⟨hskip, -⟩ | ⟨s, e, -, -, hcore, he, -⟩ | ⟨s, -, -, hcore, -, h⟩ :=
    admitDrop_cases (inv_newEventCorrelator ready) now d
  · exact absurd hskip (admissible_of_explains hx (flow_valid_of_entry hentry))
  · obtain ⟨y, hy, -⟩ := exists_core_eq hcore he
    cases hy
  · rw [h]
    exact ⟨_, rfl, rfl, map_eq_nil_iff.1 hcore, rfl⟩

end Pair

/-- **No missed correlation.** In every state a session reaches, no cached drop explains a
waiting retransmission. So the order of arrival does not matter: of a pair that qualifies,
whichever comes second is matched with the first while the first is still stored. The last two
parts say the same in any reachable state, among other events: the second arrival is matched
at once, if not with this partner then with another one that qualifies. -/
theorem no_missed_correlation (ready : Nat) :
    (∀ inputs, ∀ e ∈ (feedAll (newEventCorrelator ready) inputs).2.dropStore.byDeadline,
      ∀ w ∈ (feedAll (newEventCorrelator ready) inputs).2.retransmitStore.byDeadline,
        ¬ (isSameNetNamespace e.value.ns w.value.matchFields.ns = true ∧
          isDropCandidateForRetransmit e.value w.value.matchFields = true)) ∧
    (∀ event entry d (t₁ t₂ : Time), retransmitEntryFromEvent event = some entry →
      isSameNetNamespace d.ns entry.ns = true → isDropCandidateForRetransmit d entry = true →
      ((expireRetransmitPendingEvents (feed (newEventCorrelator ready) (.retransmit event) t₁).2
          t₂).2.retransmitStore.byDeadline ≠ [] →
        (feedAll (newEventCorrelator ready) [(.retransmit event, t₁), (.drop d, t₂)]).1 =
          [(t₂, matchedResult event d)]) ∧
      ((expireRetransmitPendingEvents (feed (newEventCorrelator ready) (.drop d) t₁).2
          t₂).2.dropStore.byDeadline ≠ [] →
        (feedAll (newEventCorrelator ready) [(.drop d, t₁), (.retransmit event, t₂)]).1 =
          [(t₂, matchedResult event d)])) ∧
    (∀ inputs event entry (now : Time), retransmitEntryFromEvent event = some entry →
      ∀ e ∈ (expireRetransmitPendingEvents (feedAll (newEventCorrelator ready) inputs).2
          now).2.dropStore.byDeadline,
        isSameNetNamespace e.value.ns entry.ns = true →
        isDropCandidateForRetransmit e.value entry = true →
        ∃ d, matchedResult event d ∈
          (feed (feedAll (newEventCorrelator ready) inputs).2 (.retransmit event) now).1) ∧
    (∀ inputs d (now : Time),
      ∀ w ∈ (expireRetransmitPendingEvents (feedAll (newEventCorrelator ready) inputs).2
          now).2.retransmitStore.byDeadline,
        isSameNetNamespace d.ns w.value.matchFields.ns = true →
        isDropCandidateForRetransmit d w.value.matchFields = true →
        ∃ event, matchedResult event d ∈
          (feed (feedAll (newEventCorrelator ready) inputs).2 (.drop d) now).1) := by
  have hreach := fun inputs => (feedAll_step (inv_newEventCorrelator ready) inputs).inv
  have hfeed := fun input now => (feed_step (inv_newEventCorrelator ready) input now).inv
  refine ⟨fun inputs => (hreach inputs).noMissed, ?_, ?_, ?_⟩
  · intro event entry d t₁ t₂ hentry hns hcand
    refine ⟨fun hstored => ?_, fun hstored => ?_⟩
    · obtain ⟨w, rfl, rfl, hout, hwaits⟩ := feed_retransmit_alone ready hentry ⟨hns, hcand⟩ t₁
      have hmatch := feed_drop_lone (hfeed (.retransmit w.value.event) t₁) t₂ hwaits
        ⟨hns, hcand⟩ hstored
      simp [feedAll, hout, hmatch]
    · obtain ⟨e, rfl, hout, hwaits, hdrops⟩ := feed_drop_alone ready hentry ⟨hns, hcand⟩ t₁
      have hmatch := feed_retransmit_lone (hfeed (.drop e.value) t₁) t₂ hwaits hdrops
        hentry ⟨hns, hcand⟩ hstored
      simp [feedAll, hout, hmatch]
  · intro inputs event entry now hentry e he hns hcand
    obtain ⟨e', -, hmatch⟩ := admitRetransmit_matched (expire_step (hreach inputs) now).inv now
      hentry he ⟨hns, hcand⟩
    refine ⟨e'.value, ?_⟩
    simp [feed, processRetransmitEvent, hmatch]
  · intro inputs d now w hw hns hcand
    obtain ⟨w', -, hmatch⟩ := admitDrop_matched (expire_step (hreach inputs) now).inv now
      hw ⟨hns, hcand⟩
    refine ⟨w'.value.event, ?_⟩
    simp [feed, processDropEvent, hmatch]

/-- A data segment from 10.0.0.1:80 to 10.0.0.2:9000, retransmitted. -/
def sampleRetransmit : RetransmitEvent :=
  ⟨{ kernelObservedNS := 20, netNamespaceCookie := 7, netNamespaceInum := 0, family := afInet
     saddr := 0x0a000001000000000000000000000000, daddr := 0x0a000002000000000000000000000000
     sport := 80, dport := 9000, eventType := .skb, tcpSeq := 100, tcpEndSeq := 200
     tcpAck := 1, tcpFlags := tcpFlagACK }⟩

/-- The drop of the acknowledgement of that segment, seen on the reverse flow. -/
def sampleDrop : DropEvent where
  kernelObservedNS := 10
  ns := ⟨7, 0⟩
  flow := ⟨⟨.v4 0x0a000002, 9000⟩, ⟨.v4 0x0a000001, 80⟩⟩
  sequence := 1
  endSequence := 1
  ackSequence := 200
  tcpFlags := tcpFlagACK

def sampleEntry : RetransmitEntry where
  flow := ⟨⟨.v4 0x0a000001, 80⟩, ⟨.v4 0x0a000002, 9000⟩⟩
  ns := ⟨7, 0⟩
  kernelObservedNS := 20
  sequence := 100
  endSequence := 200
  hasSequenceRange := true
  ackSequence := 1
  kind := .data

theorem no_missed_correlation_sample :
    (feedAll (newEventCorrelator 0) [(.retransmit sampleRetransmit, 5), (.drop sampleDrop, 6)]).1
        = [(6, matchedResult sampleRetransmit sampleDrop)] ∧
    (feedAll (newEventCorrelator 0) [(.drop sampleDrop, 5), (.retransmit sampleRetransmit, 6)]).1
        = [(6, matchedResult sampleRetransmit sampleDrop)] ∧
    (∃ d, matchedResult sampleRetransmit d ∈
      (feed (feedAll (newEventCorrelator 0) [(.drop sampleDrop, 5)]).2
        (.retransmit sampleRetransmit) 6).1) ∧
    (∃ event, matchedResult event sampleDrop ∈
      (feed (feedAll (newEventCorrelator 0) [(.retransmit sampleRetransmit, 5)]).2
        (.drop sampleDrop) 6).1) := by
  obtain ⟨-, hpair, hretransmit, hdrop⟩ := no_missed_correlation 0
  obtain ⟨h₁, h₂⟩ := hpair sampleRetransmit sampleEntry sampleDrop 5 6
    (by decide) (by decide) (by decide)
  refine ⟨h₁ (by decide), h₂ (by decide), ?_, ?_⟩
  · exact hretransmit [(.drop sampleDrop, 5)] sampleRetransmit sampleEntry 6 (by decide)
      ⟨sampleDrop, sampleDrop.flow, Time.add 5 dropRetentionDuration, 1, 1⟩ (by decide) (by decide)
      (by decide)
  · exact hdrop [(.retransmit sampleRetransmit, 5)] sampleDrop 6
      ⟨⟨sampleRetransmit, sampleEntry, false⟩, sampleEntry.flow,
        Time.add 5 retransmitRetentionDuration, 1, 1⟩ (by decide) (by decide) (by decide)

/-! ## The timer of the loop -/

variable {T : Type} {s s' : Store T} {c : EventCorrelator} {now t : Time}

namespace Store

def deadlines (s : Store T) : List Time := s.byDeadline.map StoreEntry.deadline

/-- The invariant of a store whose last use was at `now`. -/
def Timely (s : Store T) (now : Time) : Prop := Owned.Inv s.capacity ⟨s, now⟩

theorem Timely.sublist (h : s.Timely t) (hle : t ≤ now) (hwf : s'.WellFormed)
    (httl : s'.ttl = s.ttl) (hsub : s'.deadlines.Sublist s.deadlines) : s'.Timely now := by
  refine ⟨hwf, rfl, pairwise_map.1 ((pairwise_map.2 h.ordered).sublist hsub), fun e he => ?_⟩
  obtain ⟨x, hx, hdead⟩ := mem_map.1 (hsub.subset (mem_map_of_mem he))
  rw [← hdead, httl]
  exact Nat.le_trans (h.due x hx) (Int.toNat_le_toNat (Int.add_le_add_right (Int.ofNat_le.2 hle) _))

theorem Timely.add (h : s.Timely now) (value : T) (flow : FlowKey) :
    (s.add value flow now).2.Timely now :=
  have hstep : Owned.step ⟨s, now⟩ (.add value flow now) = _ := if_pos (Nat.le_refl now)
  { Owned.inv_step h hstep with capacity := rfl }

theorem Timely.expired (h : s.Timely t) (now : Time) :
    (s.takeAllExpired now).2.deadlines = s.deadlines.filter fun u => decide (now < u) := by
  rw [deadlines, (Owned.Inv.expired h now).2, deadlines, filter_map]
  rfl

theorem Timely.expire (h : s.Timely t) (hle : t ≤ now) : (s.takeAllExpired now).2.Timely now :=
  h.sublist hle (wellFormed_takeAllExpired h.wellFormed now) (takeAllExpired_ttl h.wellFormed now)
    (h.expired now ▸ filter_sublist)

/-- Marks leave the deadlines as they are. -/
theorem Timely.mark {s s' : Store WaitingRetransmit} (h : s.Timely now) (hwf : s'.WellFormed)
    (httl : s'.ttl = s.ttl)
    (hcore : s'.byDeadline.map StoreEntry.core = s.byDeadline.map StoreEntry.core) :
    s'.Timely now := by
  have hmap := congrArg (map fun core => core.2.2.2.1) hcore
  rw [map_map, map_map] at hmap
  have hdead : s'.deadlines = s.deadlines := hmap
  exact h.sublist (Nat.le_refl _) hwf httl (hdead ▸ Sublist.refl _)

end Store

def deadlines (c : EventCorrelator) : List Time :=
  c.dropStore.deadlines ++ c.retransmitStore.deadlines

def Timely (c : EventCorrelator) (now : Time) : Prop :=
  c.dropStore.Timely now ∧ c.retransmitStore.Timely now

theorem feed_timely (hi : Inv c) (h : Timely c t) (hle : t ≤ now) (input : Input) :
    Timely (feed c input now).2 now := by
  have hi' := (expire_step hi now).inv
  have hd := h.1.expire hle
  have hw := h.2.expire hle
  cases input with
  | expire => exact ⟨hd, hw⟩
  | retransmit event =>
    simp only [feed, processRetransmitEvent]
    obtain ⟨-, heq⟩ | ⟨_, e, he, -, -, heq⟩ | ⟨_, _, -, -, heq⟩ :=
      admitRetransmit_cases hi' now event <;>
      rw [heq]
    · exact ⟨hd, hw⟩
    · exact ⟨Owned.Inv.remove hd he, hw⟩
    · exact ⟨hd, hw.add _ _⟩
  | drop event =>
    simp only [feed, processDropEvent]
    obtain ⟨-, heq⟩ | ⟨s, e, hwf, httl, hcore, he, -, heq⟩ | ⟨s, hwf, httl, hcore, -, heq⟩ :=
      admitDrop_cases hi' now event <;> rw [heq]
    · exact ⟨hd, hw⟩
    · exact ⟨hd, Owned.Inv.remove (hw.mark hwf httl hcore) he⟩
    · exact ⟨hd.add _ _, hw.mark hwf httl hcore⟩

theorem feedAll_timely (hi : Inv c) (h : Timely c t) {inputs : List (Input × Time)}
    (htimes : (t :: inputs.map Prod.snd).Pairwise (· ≤ ·)) :
    ∃ t, Timely (feedAll c inputs).2 t := by
  induction inputs generalizing c t with
  | nil => exact ⟨t, h⟩
  | cons i rest ih =>
    obtain ⟨hle, htimes⟩ := pairwise_cons.1 htimes
    exact ih (feed_step hi i.1 i.2).inv (feed_timely hi h (hle _ mem_cons_self) i.1) htimes

theorem nextDeadline_eq (h : Timely c t) : nextDeadline c = (deadlines c).min? := by
  have hhead {T : Type} (s : Store T) : s.nextDeadline = s.deadlines.head? := head?_map.symm
  have hd : c.dropStore.deadlines.Pairwise (· ≤ ·) := pairwise_map.2 h.1.ordered
  have hw : c.retransmitStore.deadlines.Pairwise (· ≤ ·) := pairwise_map.2 h.2.ordered
  rw [nextDeadline, hhead, hhead, deadlines]
  generalize c.dropStore.deadlines = drops at *
  generalize c.retransmitStore.deadlines = waits at *
  cases drops with
  | nil => exact (min?_eq_head? (hw.imp Nat.min_eq_left)).symm
  | cons drop drops =>
    cases waits with
    | nil => simpa using (min?_eq_head? (hd.imp Nat.min_eq_left)).symm
    | cons waiting waits =>
      show some (if drop.before waiting then drop else waiting) = _
      rw [eq_comm, min?_eq_some_iff]
      grind [Time.before, pairwise_cons]

/-- **The loop wakes in time**: its timer is set to the earliest deadline, and what is due goes. -/
theorem timer_earliest (ready : Nat) (inputs : List (Input × Time))
    (htimes : (inputs.map Prod.snd).Pairwise (· ≤ ·)) :
    let c := (feedAll (newEventCorrelator ready) inputs).2
    nextDeadline c = (deadlines c).min? ∧
    ∀ now, deadlines (expireRetransmitPendingEvents c now).2 =
      (deadlines c).filter fun t => decide (now < t) := by
  have hi := inv_newEventCorrelator ready
  have hinit : Timely (newEventCorrelator ready) 0 :=
    ⟨⟨hi.drops, rfl, .nil, forall_mem_nil _⟩, hi.waits, rfl, .nil, forall_mem_nil _⟩
  obtain ⟨t, h⟩ := feedAll_timely hi hinit (pairwise_cons.2 ⟨fun _ _ => Nat.zero_le _, htimes⟩)
  refine ⟨nextDeadline_eq h, fun now => ?_⟩
  rw [deadlines, deadlines, filter_append, ← h.1.expired, ← h.2.expired]
  rfl

/-- A drop of another namespace and a waiting retransmission: the latter is due first, and is the
one that expires then. -/
theorem timer_earliest_sample :
    let c := (feedAll (newEventCorrelator 0)
      [(.retransmit sampleRetransmit, 5), (.drop { sampleDrop with ns := ⟨8, 0⟩ }, 6)]).2
    deadlines c = [1100000006, 100000005] ∧ nextDeadline c = some 100000005 ∧
    deadlines (expireRetransmitPendingEvents c 100000005).2 = [1100000006] := by
  obtain ⟨hnext, hexpire⟩ := timer_earliest 0
    [(.retransmit sampleRetransmit, 5), (.drop { sampleDrop with ns := ⟨8, 0⟩ }, 6)] (by decide)
  exact ⟨by decide, hnext.trans (by decide), (hexpire 100000005).trans (by decide)⟩

end Huatuo.Retransmit
