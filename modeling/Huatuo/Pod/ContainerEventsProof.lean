import Mathlib.Algebra.Ring.Nat
import Huatuo.Pod.ContainerEvents

/-!
# Replicas follow the store

A consumer that applies its updates in order has the store's set of containers after every
successful `DrainEvents` that leaves nothing queued, and it is never left without a token while
there is something to drain. `Inv` says why: unless a subscription is about to get the full set, its
replica and its queued events make up the set of the store. Created events have increasing
generations until the revision, a word, wraps around (`generations_wrap`).
-/

namespace Huatuo.Pod

open List

/-! ## Sets of containers -/

/-- The containers of the store. -/
def refs (records : Records) : Finset ContainerRef :=
  (records.entries.map fun entry => entry.2.ref).toFinset

/-- Records are kept under the ID of their container. -/
def Keyed (records : Records) : Prop :=
  ∀ id record, records.lookup id = some record → record.ref.key.id = id

section Records

variable {records : Records} {id : String} {record previous : ContainerRecord}

theorem mem_refs {ref : ContainerRef} :
    ref ∈ refs records ↔ ∃ id record, records.lookup id = some record ∧ record.ref = ref := by
  simp only [refs, mem_toFinset, mem_map]
  constructor
  · rintro ⟨⟨id, record⟩, hent, rfl⟩
    exact ⟨id, record, AList.mem_lookup_iff.2 hent, rfl⟩
  · rintro ⟨id, record, hlk, rfl⟩
    exact ⟨⟨id, record⟩, AList.mem_lookup_iff.1 hlk, rfl⟩

theorem refs_perm {records' : Records} (h : records'.entries.Perm records.entries) :
    refs records' = refs records :=
  toFinset_eq_of_perm _ _ (h.map _)

theorem forall_lookup_erase {Q : String → ContainerRecord → Prop}
    (h : ∀ id record, records.lookup id = some record → Q id record) (id : String) :
    ∀ id' r, (records.erase id).lookup id' = some r → Q id' r := by
  intro id' r hlk
  by_cases hid : id' = id
  · rw [hid, AList.lookup_erase] at hlk
    cases hlk
  · rw [AList.lookup_erase_ne hid] at hlk
    exact h id' r hlk

theorem forall_lookup_insert {Q : String → ContainerRecord → Prop}
    (h : ∀ id record, records.lookup id = some record → Q id record) (hrec : Q id record) :
    ∀ id' r, (records.insert id record).lookup id' = some r → Q id' r := by
  intro id' r hlk
  by_cases hid : id' = id
  · subst hid
    rw [AList.lookup_insert] at hlk
    exact Option.some.inj hlk ▸ hrec
  · rw [AList.lookup_insert_ne hid] at hlk
    exact h id' r hlk

/-- No other record has the reference of a record that is erased. -/
theorem refs_erase (h : Keyed records) (hlk : records.lookup id = some record) :
    refs (records.erase id) = (refs records).erase record.ref := by
  ext ref
  rw [Finset.mem_erase, mem_refs, mem_refs]
  constructor
  · rintro ⟨id', record', hlk', rfl⟩
    have hid : id' ≠ id := by
      rintro rfl
      simp at hlk'
    rw [AList.lookup_erase_ne hid] at hlk'
    refine ⟨fun heq => hid ?_, id', record', hlk', rfl⟩
    rw [← h id' record' hlk', heq, h id record hlk]
  · rintro ⟨hne, id', record', hlk', rfl⟩
    have hid : id' ≠ id := by
      rintro rfl
      cases hlk.symm.trans hlk'
      exact hne rfl
    exact ⟨id', record', by rwa [AList.lookup_erase_ne hid], rfl⟩

theorem refs_insert :
    refs (records.insert id record) = insert record.ref (refs (records.erase id)) := by
  rw [refs, AList.entries_insert, List.map_cons, List.toFinset_cons]
  rfl

theorem refs_insert_new (hlk : records.lookup id = none) :
    refs (records.insert id record) = insert record.ref (refs records) := by
  rw [refs, AList.entries_insert_of_notMem (AList.lookup_eq_none.1 hlk)]
  simp [refs]

/-- A refresh of an instance keeps its reference. -/
theorem refs_refresh (h : Keyed records) (hlk : records.lookup id = some previous)
    (href : record.ref = previous.ref) : refs (records.insert id record) = refs records := by
  rw [refs_insert, refs_erase h hlk, href, Finset.insert_erase]
  exact mem_refs.2 ⟨id, previous, hlk, rfl⟩

end Records

/-! ## Subscriptions -/

/-- The replica once all queued events are applied. -/
def ContainerSubscription.caughtUp (s : ContainerSubscription) : Finset ContainerRef :=
  (s.queue.toList.map QueuedEvent.event).foldl ContainerEvent.apply s.replica

/-- A subscription of a store with the containers `set`. -/
structure Follows (set : Finset ContainerRef) (err : Option String) (s : ContainerSubscription) :
    Prop where
  replica : s.needsFull = false → s.caughtUp = set
  notified : err = none → s.queue.count ≠ 0 ∨ s.needsFull = true → s.wake = true ∨ s.received = true

section Subscriptions

variable {set : Finset ContainerRef} {err : Option String} {s : ContainerSubscription}

theorem Follows.publish (h : Follows set err s) (item : QueuedEvent) :
    Follows (item.event.apply set) err (s.publish item) := by
  unfold ContainerSubscription.publish
  split
  · next hfull => exact ⟨fun hnot => absurd (hfull.symm.trans hnot) nofun, fun _ _ => .inl rfl⟩
  rename_i hfull
  split
  · exact ⟨nofun, fun _ _ => .inl rfl⟩
  refine ⟨fun _ => ?_, fun _ _ => .inl rfl⟩
  have hset := h.replica (Bool.not_eq_true _ ▸ hfull)
  rw [← hset]
  simp [ContainerSubscription.caughtUp, ContainerSubscription.signal]

theorem follows_needsFull (s : ContainerSubscription) :
    Follows set err { s with needsFull := true }.signal :=
  ⟨nofun, fun _ _ => .inl rfl⟩

theorem takeBatch_spec {room : Nat} {queue queue' : RingQueue QueuedEvent containerEventQueueSize}
    {batch batch' : List ContainerEvent} {revision revision' : UInt64}
    (h : takeBatch room queue batch revision = (batch', revision', queue')) :
    batch' ++ queue'.toList.map QueuedEvent.event =
      batch ++ queue.toList.map QueuedEvent.event := by
  induction room generalizing queue batch revision with
  | zero =>
    cases h
    rfl
  | succ room ih =>
    unfold takeBatch at h
    cases hpop : queue.pop? with
    | none =>
      rw [hpop] at h
      cases h
      rfl
    | some popped =>
      obtain ⟨item, rest⟩ := popped
      rw [hpop] at h
      rw [ih h, RingQueue.toList_pop? hpop]
      simp

/-- A drain leaves the consumer's set to the consumer. -/
theorem drainEvents_frame (v : ContainerStore) (s : ContainerSubscription) :
    (v.drainEvents s).1.isClosed = s.isClosed ∧ (v.drainEvents s).1.replica = s.replica := by
  unfold ContainerStore.drainEvents
  split
  · exact ⟨rfl, rfl⟩
  dsimp only
  split
  · exact ⟨rfl, rfl⟩
  split
  · exact ⟨rfl, rfl⟩
  · dsimp only
    split <;> exact ⟨rfl, rfl⟩

/-- A drain that is not refused, whose update the consumer applies. -/
theorem Follows.drain {v : ContainerStore} (h : Follows (refs v.records) v.err s)
    (hopen : s.isClosed = false) :
    Follows (refs v.records) v.err ((v.drainEvents s).1.afterDrain (v.drainEvents s).2) := by
  unfold ContainerStore.drainEvents
  rw [if_neg (by simp [hopen])]
  dsimp only
  split
  · next err herr =>
    exact ⟨h.replica, fun hnone => absurd (herr.symm.trans hnone) nofun⟩
  · split
    · refine ⟨fun _ => ?_, fun _ hsome => ?_⟩
      · simp [ContainerSubscription.caughtUp, ContainerSubscription.afterDrain,
          ContainerUpdate.apply, refs, Function.comp_def]
      · exact absurd hsome (by simp [ContainerSubscription.afterDrain, RingQueue.clear])
    · next hfull =>
      generalize hbatch : takeBatch containerEventBatchSize s.queue [] 0 = taken
      obtain ⟨batch, revision, queue⟩ := taken
      have hsplit := takeBatch_spec hbatch
      rw [nil_append] at hsplit
      have hset := h.replica (Bool.not_eq_true _ ▸ hfull)
      rw [ContainerSubscription.caughtUp, ← hsplit, foldl_append] at hset
      refine ⟨fun _ => ?_, fun _ hsome => ?_⟩
      · dsimp only
        split <;> exact hset
      · dsimp only at hsome ⊢
        split at hsome
        · next hmore =>
          rw [if_pos hmore]
          exact .inl rfl
        · next hmore =>
          have hemp : queue.count ≠ 0 := hsome.resolve_right hfull
          omega

end Subscriptions

/-! ## The store -/

/-- As long as the revision has not wrapped around, created events have increasing generations. -/
structure Generations (v : ContainerStore) : Prop where
  revision : v.revision.toNat = v.published.length
  records : ∀ id record, v.records.lookup id = some record →
    record.ref.key.generation.toNat ≤ v.published.length
  published : ∀ e ∈ v.published, e.container.key.generation.toNat ≤ v.published.length
  increasing : v.published.Pairwise fun e e' =>
    e'.kind = .created → e.container.key.generation < e'.container.key.generation

/-- A store whose subscriptions have been sent the changes up to `set`. -/
structure Inv (set : Finset ContainerRef) (v : ContainerStore) : Prop where
  keyed : Keyed v.records
  follows : ∀ i s, v.subscriptions i = some s → s.isClosed = false → Follows set v.err s
  generations : v.published.length < 2 ^ 64 → Generations v

section Store

variable {set : Finset ContainerRef} {v : ContainerStore} {s : ContainerSubscription} {id : String}
  {previous : ContainerRecord} {i : Nat}

/-- A subscriber after a loop over the subscribers. -/
theorem forSubscribers_some {f : ContainerSubscription → ContainerSubscription}
    (h : (v.forSubscribers f).subscriptions i = some s) (hopen : s.isClosed = false) :
    ∃ s₀, v.subscriptions i = some s₀ ∧ s₀.isClosed = false ∧ s = f s₀ := by
  obtain ⟨s₀, hs₀, rfl⟩ := Option.map_eq_some_iff.1 h
  cases hclo : s₀.isClosed with
  | true =>
    simp [hclo] at hopen
  | false => exact ⟨s₀, hs₀, hclo, rfl⟩

theorem inv_publish (h : Inv set v) (kind : ContainerEventKind) (ref : ContainerRef)
    (hle : v.published.length + 1 < 2 ^ 64 → Generations v →
      ref.key.generation.toNat ≤ v.published.length + 1)
    (hnew : kind = .created → ref.key.generation = v.revision + 1) :
    Inv (ContainerEvent.apply set { kind, container := ref }) (v.publish kind ref) := by
  refine ⟨h.keyed, fun i s hs hopen => ?_, fun hfits => ?_⟩
  · obtain ⟨s₀, hs₀, hopen₀, rfl⟩ := forSubscribers_some hs hopen
    exact (h.follows i s₀ hs₀ hopen₀).publish ⟨⟨kind, ref⟩, v.revision + 1⟩
  · have hlen : (v.publish kind ref).published.length = v.published.length + 1 := by
      simp [ContainerStore.publish, ContainerStore.forSubscribers]
    rw [hlen] at hfits
    have hgens := h.generations (by omega)
    have hrev : (v.revision + 1).toNat = v.published.length + 1 := by
      rw [UInt64.toNat_add, UInt64.toNat_one, hgens.revision, Nat.mod_eq_of_lt hfits]
    refine ⟨hrev.trans hlen.symm, ?_, ?_, ?_⟩
    · intro id record hlk
      have hrec := hgens.records id record hlk
      omega
    · intro e he
      obtain he | he := mem_append.1 he
      · have hold := hgens.published e he
        omega
      · cases mem_singleton.1 he
        exact hlen ▸ hle hfits hgens
    · refine pairwise_append.2 ⟨hgens.increasing, pairwise_singleton _ _, ?_⟩
      intro e he e' he'
      cases mem_singleton.1 he'
      intro hkind
      have hold := hgens.published e he
      rw [UInt64.lt_iff_toNat_lt, hnew hkind, hrev]
      omega

theorem inv_setRecords {records : Records} (h : Inv set v) (hkeyed : Keyed records)
    (hgens : v.published.length < 2 ^ 64 → ∀ id record, records.lookup id = some record →
      record.ref.key.generation.toNat ≤ v.published.length) : Inv set { v with records } where
  keyed := hkeyed
  follows := h.follows
  generations := fun hfits =>
    ⟨(h.generations hfits).revision, hgens hfits, (h.generations hfits).published,
      (h.generations hfits).increasing⟩

theorem inv_create (h : Inv set v) (record : ContainerRecord)
    (hset : ∀ r : ContainerRecord, refs (v.records.insert id r) = insert r.ref set) :
    Inv (refs (v.create id record).records) (v.create id record) := by
  set created := { record with ref.key := { id, generation := v.revision + 1 } } with hcre
  have hpub : Inv (insert created.ref set) (v.publish .created created.ref) := by
    refine inv_publish h .created created.ref (fun _ hgens => ?_) fun _ => rfl
    rw [← hgens.revision]
    exact Nat.mod_le _ _
  have hkeyed : Keyed (v.records.insert id created) := forall_lookup_insert h.keyed rfl
  have hins := inv_setRecords hpub hkeyed fun hfits => by
    have hgens := hpub.generations hfits
    refine forall_lookup_insert hgens.records (hgens.published ⟨.created, created.ref⟩ ?_)
    exact mem_append_right _ (mem_singleton_self _)
  rwa [← hset created] at hins

/-- A record in the store that is deleted, or replaced in a moment. -/
theorem inv_publish_deleted (h : Inv set v) (hlk : v.records.lookup id = some previous) :
    Inv (set.erase previous.ref) (v.publish .deleted previous.ref) := by
  refine inv_publish h .deleted previous.ref (fun _ hgens => ?_) nofun
  have hprev := hgens.records id previous hlk
  omega

theorem inv_delete (h : Inv (refs v.records) v) (hlk : v.records.lookup id = some previous) :
    Inv (refs (v.records.erase id))
      (ContainerStore.publish { v with records := v.records.erase id } .deleted previous.ref) := by
  rw [refs_erase h.keyed hlk]
  have hpub := inv_publish_deleted h hlk
  exact inv_setRecords hpub (forall_lookup_erase h.keyed id) fun hfits =>
    forall_lookup_erase (hpub.generations hfits).records id

/-- The same instance with other metadata. -/
theorem inv_refresh {record : ContainerRecord} (h : Inv (refs v.records) v)
    (hlk : v.records.lookup id = some previous) (hsame : previous.sameInstance record = true) :
    Inv (refs (v.records.insert id { record with ref.key := previous.ref.key }))
      { v with records := v.records.insert id { record with ref.key := previous.ref.key } } := by
  simp only [ContainerRecord.sameInstance, Bool.and_eq_true, beq_iff_eq] at hsame
  have href : { record.ref with key := previous.ref.key } = previous.ref := by
    simp [← hsame.1.1.1, ← hsame.1.2]
  rw [refs_refresh h.keyed hlk href]
  exact inv_setRecords h (forall_lookup_insert h.keyed (h.keyed id previous hlk)) fun hfits =>
    have hgens := h.generations hfits
    forall_lookup_insert hgens.records (hgens.records id previous hlk)

theorem inv_commitRecord (h : Inv (refs v.records) v)
    (entry : (_ : String) × Option ContainerRecord) :
    Inv (refs (v.commitRecord entry).records) (v.commitRecord entry) := by
  obtain ⟨id, resolved⟩ := entry
  cases resolved with
  | none => exact h
  | some record =>
    cases hlk : v.records.lookup id with simp only [ContainerStore.commitRecord, hlk]
    | none => exact inv_create h record fun r => refs_insert_new hlk
    | some previous =>
      split
      · exact h
      split
      · next hsame => exact inv_refresh h hlk hsame
      refine inv_create (inv_publish_deleted h hlk) record fun r => ?_
      rw [← refs_erase h.keyed hlk]
      exact refs_insert

/-- The loop over the records: every entry is there until its turn. -/
theorem inv_deleteMissing (snapshot : ContainerSnapshot)
    {entries : List ((_ : String) × ContainerRecord)} (hkeys : entries.NodupKeys)
    (hents : ∀ entry ∈ entries, v.records.lookup entry.1 = some entry.2)
    (h : Inv (refs v.records) v) :
    Inv (refs (entries.foldl (ContainerStore.deleteMissing snapshot) v).records)
      (entries.foldl (ContainerStore.deleteMissing snapshot) v) := by
  induction entries generalizing v with
  | nil => exact h
  | cons entry rest ih =>
    obtain ⟨hnot, hrest⟩ := nodupKeys_cons.1 hkeys
    have hent := hents entry mem_cons_self
    have hlater := fun e he => hents e (mem_cons_of_mem _ he)
    rw [foldl_cons]
    by_cases hmem : entry.1 ∈ snapshot.records
    · rw [ContainerStore.deleteMissing, if_pos hmem]
      exact ih hrest hlater h
    · rw [ContainerStore.deleteMissing, if_neg hmem]
      refine ih hrest (fun e he => ?_) (inv_delete h hent)
      have hne : e.1 ≠ entry.1 := by
        intro heq
        exact hnot (heq ▸ mem_keys_of_mem he)
      exact (AList.lookup_erase_ne hne).trans (hlater e he)

theorem inv_commitRecords (entries : List ((_ : String) × Option ContainerRecord))
    (h : Inv (refs v.records) v) :
    Inv (refs (entries.foldl ContainerStore.commitRecord v).records)
      (entries.foldl ContainerStore.commitRecord v) := by
  induction entries generalizing v with
  | nil => exact h
  | cons entry rest ih => exact ih (inv_commitRecord h entry)

/-- An error that comes or goes makes every subscriber get the full set. -/
theorem inv_setErr (h : Inv set v) (err : Option String) :
    Inv set
      (ContainerStore.forSubscribers { v with err } fun s =>
        { s with needsFull := true }.signal) := by
  refine ⟨h.keyed, fun i s hs hopen => ?_, fun hfits => ?_⟩
  · obtain ⟨s₀, _, _, rfl⟩ := forSubscribers_some hs hopen
    exact follows_needsFull s₀
  · have hgens := h.generations hfits
    exact ⟨hgens.revision, hgens.records, hgens.published, hgens.increasing⟩

theorem inv_deletions (h : Inv (refs v.records) v) (snapshot : ContainerSnapshot) :
    let v' := if snapshot.isComplete then
      v.records.entries.foldl (ContainerStore.deleteMissing snapshot) v else v
    Inv (refs v'.records) v' := by
  dsimp only
  split
  · refine inv_deleteMissing snapshot v.records.nodupKeys (fun entry hent => ?_) h
    exact AList.mem_lookup_iff.2 hent
  · exact h

theorem inv_commit (h : Inv (refs v.records) v) (snapshot : ContainerSnapshot)
    (syncErr : Option String) :
    Inv (refs (v.commit snapshot syncErr).records) (v.commit snapshot syncErr) := by
  simp only [ContainerStore.commit]
  split
  · exact h
  have hcomm := inv_commitRecords snapshot.records.entries (inv_deletions h snapshot)
  generalize List.foldl ContainerStore.commitRecord _ _ = v' at hcomm ⊢
  split
  · exact inv_setErr hcomm _
  rename_i hquiet
  obtain ⟨hbef, hafter⟩ := not_or.1 hquiet
  have hbef : v'.err = none := Option.not_isSome_iff_eq_none.1 hbef
  have hafter : syncErr = none := Option.not_isSome_iff_eq_none.1 hafter
  rw [hafter, Option.map_none, ← hbef]
  exact hcomm

/-- A step of one subscription. -/
theorem inv_update (h : Inv set v) (i : Nat) (hs : s.isClosed = false → Follows set v.err s) :
    Inv set { v with subscriptions := Function.update v.subscriptions i (some s) } := by
  refine ⟨h.keyed, fun j t ht hopen => ?_, fun hfits => ?_⟩
  · by_cases hj : j = i
    · rw [hj] at ht
      cases (Function.update_self i (some s) v.subscriptions).symm.trans ht
      exact hs hopen
    · exact h.follows j t ((Function.update_of_ne hj _ _).symm.trans ht) hopen
  · have hgens := h.generations hfits
    exact ⟨hgens.revision, hgens.records, hgens.published, hgens.increasing⟩

theorem inv_start (h : Inv (refs v.records) v) : Inv (refs v.start.records) v.start := by
  refine ⟨h.keyed, fun i s hs hopen => ⟨(h.follows i s hs hopen).replica, nofun⟩, fun hfits => ?_⟩
  have hgens := h.generations hfits
  exact ⟨hgens.revision, hgens.records, hgens.published, hgens.increasing⟩

/-- No subscription is open after the producer has stopped. -/
theorem inv_stop (h : Inv (refs v.records) v) : Inv (refs v.stop.records) v.stop := by
  refine ⟨nofun, fun i s hs hopen => ?_, fun hfits => ?_⟩
  · obtain ⟨s₀, _, _, rfl⟩ := forSubscribers_some hs hopen
    cases hopen
  · have hgens := h.generations hfits
    exact ⟨hgens.revision, nofun, hgens.published, hgens.increasing⟩

theorem inv_step {action : Action} {v' : ContainerStore} (h : Inv (refs v.records) v)
    (hstep : step v action = some v') : Inv (refs v'.records) v' := by
  cases action with simp only [step] at hstep
  | start =>
    split at hstep <;> cases hstep
    exact inv_start h
  | stop =>
    split at hstep <;> cases hstep
    exact inv_stop h
  | reorder records =>
    split at hstep <;> cases hstep
    next hperm =>
    have hlk {id : String} {record : ContainerRecord} (hrec : records.lookup id = some record) :
        v.records.lookup id = some record := AList.perm_lookup hperm ▸ hrec
    rw [refs_perm hperm]
    exact inv_setRecords h (fun id record hrec => h.keyed id record (hlk hrec))
      fun hfits id record hrec => (h.generations hfits).records id record (hlk hrec)
  | commit snapshot syncErr =>
    cases hstep
    exact inv_commit h snapshot syncErr
  | subscribe i =>
    split at hstep <;> cases hstep
    exact inv_update h i fun _ => ⟨nofun, fun _ _ => .inl rfl⟩
  | receive i =>
    split at hstep
    · next s hs =>
      split at hstep <;> cases hstep
      exact inv_update h i fun hopen => ⟨(h.follows i s hs hopen).replica, fun _ _ => .inr rfl⟩
    · cases hstep
  | drainEvents i =>
    split at hstep <;> cases hstep
    next s hs =>
    refine inv_update h i fun hopen => ?_
    have hopen₀ : s.isClosed = false := (drainEvents_frame v s).1.symm.trans hopen
    exact (h.follows i s hs hopen₀).drain hopen₀
  | close i =>
    split at hstep <;> cases hstep
    next s hs =>
    refine inv_update h i fun hopen => ?_
    split at hopen
    · next hclo => exact absurd (hclo.symm.trans hopen) nofun
    · cases hopen

theorem inv_init : Inv (refs ({} : ContainerStore).records) {} where
  keyed := nofun
  follows := nofun
  generations := fun _ => ⟨rfl, nofun, nofun, .nil⟩

theorem inv_of_reachable (hrun : Runs.Reachable step {} v) : Inv (refs v.records) v :=
  @Runs.Reachable.invariant _ _ step {} (fun v => Inv (refs v.records) v) inv_init
    (fun _ _ _ _ h hstep => inv_step h hstep) v hrun

/-- The set of a consumer after a drain that leaves nothing to drain. -/
theorem replica_eq_refs {update : ContainerUpdate} (h : Inv (refs v.records) v)
    (hs : v.subscriptions i = some s) (hok : (v.drainEvents s).2 = .ok update)
    (hemp : (v.drainEvents s).1.queue.count = 0) (hfull : (v.drainEvents s).1.needsFull = false) :
    update.apply s.replica = refs v.records := by
  have hopen : s.isClosed = false := by
    by_contra hclo
    simp [ContainerStore.drainEvents, if_pos (Bool.not_eq_false _ ▸ hclo)] at hok
  have hcau := ((h.follows i s hs hopen).drain hopen).replica hfull
  rw [hok] at hcau
  rw [← hcau, ContainerSubscription.caughtUp]
  simp only [ContainerSubscription.afterDrain, RingQueue.toList_eq_nil hemp, map_nil,
    foldl_nil, (drainEvents_frame v s).2]

/-- Replicas, generations and wakeups over all runs of a store. -/
theorem subscriptions_follow (hrun : Runs.Reachable step {} v) :
    (∀ i s update, v.subscriptions i = some s → (v.drainEvents s).2 = .ok update →
      (v.drainEvents s).1.queue.count = 0 → (v.drainEvents s).1.needsFull = false →
        update.apply s.replica = refs v.records) ∧
    (v.published.length < 2 ^ 64 → v.published.Pairwise fun e e' =>
      e'.kind = .created → e.container.key.generation < e'.container.key.generation) ∧
    ∀ i s, v.subscriptions i = some s → s.isClosed = false → v.err = none →
      s.queue.count ≠ 0 ∨ s.needsFull = true → s.wake = true ∨ s.received = true := by
  have h := inv_of_reachable hrun
  refine ⟨?_, fun hfits => (h.generations hfits).increasing, ?_⟩
  · exact fun i s update hs hok hempty hfull => replica_eq_refs h hs hok hempty hfull
  · exact fun i s hs hopen herr => (h.follows i s hs hopen).notified herr

end Store

/-- The snapshots of a container that is replaced again and again. -/
def instanceRecord (n : Nat) : ContainerRecord where
  ref := { initPID := n }

def instanceSnapshot (n : Nat) : ContainerSnapshot where
  records := AList.singleton "a" (some (instanceRecord n))
  isComplete := true

/-- A subscription gets the first instance in a full update, and the next one by events. -/
theorem subscriptions_follow_replacement :
    ∃ v s update,
      Runs.run step {}
          [.start, .subscribe 0, .commit (instanceSnapshot 0) none, .receive 0, .drainEvents 0,
            .commit (instanceSnapshot 1) none] = some v ∧
        v.subscriptions 0 = some s ∧ (v.drainEvents s).2 = .ok update ∧
        update.mode = .incremental ∧ update.apply s.replica = refs v.records := by
  obtain ⟨v, s, update, hrun, hs, hok, hmode, hempty, hfull⟩ : ∃ v s update,
      Runs.run step {}
          [.start, .subscribe 0, .commit (instanceSnapshot 0) none, .receive 0, .drainEvents 0,
            .commit (instanceSnapshot 1) none] = some v ∧
        v.subscriptions 0 = some s ∧ (v.drainEvents s).2 = .ok update ∧
        update.mode = .incremental ∧ (v.drainEvents s).1.queue.count = 0 ∧
        (v.drainEvents s).1.needsFull = false := ⟨_, _, _, rfl, rfl, rfl, rfl, rfl, rfl⟩
  exact ⟨v, s, update, hrun, hs, hok, hmode,
    (subscriptions_follow ⟨_, hrun⟩).1 0 s update hs hok hempty hfull⟩

/-! ## Generations wrap around -/

/-- Every replacement publishes two events. -/
def instanceRef (n : Nat) : ContainerRef where
  key := { id := "a", generation := UInt64.ofNat (2 * n + 1) }
  initPID := n

structure Replaced (n : Nat) (v : ContainerStore) : Prop where
  active : v.isActive = true
  records : v.records = AList.singleton "a" { ref := instanceRef n }
  revision : v.revision = UInt64.ofNat (2 * n + 1)
  published : ∃ rest, v.published = ⟨.created, instanceRef 0⟩ :: rest ∧
    (n ≠ 0 → ⟨.created, instanceRef n⟩ ∈ rest)

section Replaced

variable {n : Nat} {v : ContainerStore}

theorem commitRecord_replaced (h : Replaced n v) :
    v.commitRecord ⟨"a", some (instanceRecord (n + 1))⟩ =
      (v.publish .deleted (instanceRef n)).create "a" (instanceRecord (n + 1)) := by
  have hlk : v.records.lookup "a" = some { ref := instanceRef n } := by
    rw [h.records]
    rfl
  have hpid : (n : Int) ≠ (n + 1 : Nat) := by omega
  simp only [ContainerStore.commitRecord, hlk]
  rw [if_neg, if_neg]
  · intro hsame
    simp only [ContainerRecord.sameInstance, instanceRecord, instanceRef, Bool.and_eq_true,
      beq_iff_eq] at hsame
    exact hpid hsame.1.1.1
  · intro heq
    exact hpid (congrArg (fun r => r.ref.initPID) heq)

theorem replaced_create (h : Replaced n v) :
    Replaced (n + 1)
      ((v.publish .deleted (instanceRef n)).create "a" (instanceRecord (n + 1))) := by
  have hgen : v.revision + 1 + 1 = UInt64.ofNat (2 * (n + 1) + 1) := by
    rw [h.revision, ← UInt64.ofNat_one, ← UInt64.ofNat_add, ← UInt64.ofNat_add]
    rfl
  have href : { (instanceRecord (n + 1)).ref with
      key := { id := "a", generation := v.revision + 1 + 1 } } = instanceRef (n + 1) := by
    rw [hgen]
    rfl
  obtain ⟨rest, hpub, _⟩ := h.published
  refine ⟨h.active, ?_, hgen, rest ++ [⟨.deleted, instanceRef n⟩] ++
    [⟨.created, instanceRef (n + 1)⟩], ?_, fun _ => mem_append_right _ mem_cons_self⟩
  · rw [← href, ← AList.insert_singleton_eq, ← h.records]
    rfl
  · rw [← href, ← cons_append, ← cons_append, ← hpub]
    rfl

theorem replaced_succ (h : Replaced n v) :
    Replaced (n + 1) (v.commit (instanceSnapshot (n + 1)) none) := by
  have hdel : v.records.entries.foldl
      (ContainerStore.deleteMissing (instanceSnapshot (n + 1))) v = v := by
    have hmem : "a" ∈ (instanceSnapshot (n + 1)).records := mem_singleton_self _
    rw [h.records, AList.singleton_entries, foldl_cons, foldl_nil]
    exact if_pos hmem
  have hcomm : (instanceSnapshot (n + 1)).records.entries.foldl ContainerStore.commitRecord v =
      (v.publish .deleted (instanceRef n)).create "a" (instanceRecord (n + 1)) :=
    commitRecord_replaced h
  have hcre := replaced_create h
  simp only [ContainerStore.commit]
  have hcom : (instanceSnapshot (n + 1)).isComplete = true := rfl
  rw [if_neg (by simp [h.active]), if_pos hcom, hdel, hcomm]
  split <;> exact ⟨hcre.active, hcre.records, hcre.revision, hcre.published⟩

end Replaced

def replacements (n : Nat) : List Action :=
  .start :: (List.range (n + 1)).map fun k => .commit (instanceSnapshot k) none

theorem exists_replaced (n : Nat) :
    ∃ v, Runs.run step {} (replacements n) = some v ∧ Replaced n v := by
  induction n with
  | zero => exact ⟨_, rfl, rfl, rfl, rfl, [], rfl, fun hne => absurd rfl hne⟩
  | succ n ih =>
    obtain ⟨v, hrun, hv⟩ := ih
    have hsplit : replacements (n + 1) =
        replacements n ++ [.commit (instanceSnapshot (n + 1)) none] := by
      rw [replacements, range_succ, map_append, ← cons_append]
      rfl
    refine ⟨v.commit (instanceSnapshot (n + 1)) none, ?_, replaced_succ hv⟩
    rw [hsplit]
    exact Runs.run_append_eq_some.2 ⟨v, hrun, rfl⟩

theorem generations_wrap :
    ∃ v, Runs.run step {} (replacements (2 ^ 63)) = some v ∧
      ¬ v.published.Pairwise fun e e' =>
        e'.kind = .created → e.container.key.generation < e'.container.key.generation := by
  obtain ⟨v, hrun, hv⟩ := exists_replaced (2 ^ 63)
  obtain ⟨rest, hpublished, hlast⟩ := hv.published
  refine ⟨v, hrun, fun hincreasing => ?_⟩
  rw [hpublished] at hincreasing
  have hlt := rel_of_pairwise_cons hincreasing (hlast (by decide)) rfl
  have hsame : (instanceRef (2 ^ 63)).key.generation = (instanceRef 0).key.generation := by
    decide
  exact absurd (hsame ▸ hlt) (UInt64.lt_irrefl _)

end Huatuo.Pod
