import Huatuo.Toolstream.Acknowledgement

/-!
# Ownership, and the protocol as a whole

A connection that may call the handler for a task owns the task until it is done, so the calls for a
task come in blocks, one for each connection. `Owns` ties the map of tasks to the states of the
goroutines, and says that the owner of a task was the last to call its handler, if it has called it
at all.
-/

namespace Huatuo.Toolstream

open List
open Function (update update_of_ne update_self)

/-! ## Blocks -/

/-- Between two occurrences of an element there is no other one. -/
def Blocks {α : Type} (l : List α) : Prop :=
  ∀ x before between after, l = before ++ x :: (between ++ x :: after) → ∀ y ∈ between, y = x

theorem blocks_concat {α : Type} {l : List α} (h : Blocks l) {x : α}
    (hlast : x ∈ l → l.getLast? = some x) : Blocks (l ++ [x]) := by
  intro y before between after heq
  obtain rfl | ⟨after', z, rfl⟩ := eq_nil_or_concat' after
  · -- the second occurrence is the new element
    rw [← cons_append, ← append_assoc] at heq
    obtain ⟨hl, hx⟩ := append_inj' heq rfl
    cases hx
    obtain rfl | ⟨between', z, rfl⟩ := eq_nil_or_concat' between
    · nofun
    · have hz := hlast (by rw [hl]; simp)
      rw [hl, ← cons_append, ← append_assoc, List.getLast?_concat] at hz
      cases hz
      intro w hw
      obtain hw | hw := mem_append.1 hw
      · exact h x before between' [] (by rw [hl]) w hw
      · exact mem_singleton.1 hw
  · have hcut : l ++ [x] = before ++ y :: (between ++ y :: after') ++ [z] := by
      rw [heq]
      simp
    exact h y before between after' (append_inj' hcut rfl).1

/-- The connections that called the handler for a task. -/
def callers (task : String × String) (log : List Event) : List Nat :=
  log.filterMap fun
    | .invoked i task' _ => if task' = task then some i else none
    | .returned .. => none

@[simp] theorem callers_append (task : String × String) (xs ys : List Event) :
    callers task (xs ++ ys) = callers task xs ++ callers task ys :=
  filterMap_append

/-- The task that a goroutine has in the map. -/
def Goroutine.owned : Goroutine → Option (String × String)
  | .looping session true | .handling session _ | .handled session true _
  | .returning session true =>
    if session.taskID = "" then none else some session.task
  | _ => none

structure Owns (s : State) : Prop where
  owner : ∀ task i, s.tasks task = some i ↔
    ∃ c, s.connections i = some c ∧ c.goroutine.owned = some task
  blocks : ∀ task : String × String, task.2 ≠ "" → Blocks (callers task s.log)
  latest : ∀ task i, s.tasks task = some i → i ∈ callers task s.log →
    (callers task s.log).getLast? = some i
  fresh : ∀ i, (∀ c, s.connections i = some c → c.goroutine = .accepted) →
    ∀ task, i ∉ callers task s.log

section Ownership

variable {s s' : State} {i : Nat} {c c' : Connection} {task : String × String}

/-- Steps that leave the tasks and the calls alone. -/
theorem Owns.quiet (h : Owns s) (hcon : s'.connections = update s.connections i (some c'))
    (htasks : s'.tasks = s.tasks) (hcs : ∀ task, callers task s'.log = callers task s.log)
    (howned : c'.goroutine.owned = ((s.connections i).bind (·.goroutine.owned)))
    (hfresh : c'.goroutine = .accepted → ∀ c, s.connections i = some c → c.goroutine = .accepted) :
    Owns s' where
  owner := by
    intro task j
    rw [htasks, h.owner, hcon]
    by_cases hj : j = i
    · subst hj
      rw [update_self]
      simp [howned, Option.bind_eq_some_iff]
    · rw [update_of_ne hj]
  blocks := fun task htask => hcs task ▸ h.blocks task htask
  latest := by
    intro task j
    rw [htasks, hcs]
    exact h.latest task j
  fresh := by
    intro j hj task
    rw [hcs]
    refine h.fresh j (fun c hc => ?_) task
    by_cases hij : j = i
    · subst hij
      exact hfresh (hj c' (by rw [hcon, update_self])) c hc
    · exact hj c (by rwa [hcon, update_of_ne hij])

theorem Goroutine.owned_ne {goroutine : Goroutine} (h : goroutine.owned = some task) :
    task.2 ≠ "" := by
  unfold Goroutine.owned at h
  split at h
  all_goals first | cases h | (split at h <;> cases h; assumption)

/-- The owner of a task is unique. -/
theorem Owns.unique (h : Owns s) {j : Nat} {d : Connection} (hc : s.connections i = some c)
    (howned : c.goroutine.owned = some task) (hd : s.connections j = some d)
    (howned' : d.goroutine.owned = some task) : i = j := by
  have hi := (h.owner task i).2 ⟨c, hc, howned⟩
  exact Option.some.inj (hi.symm.trans ((h.owner task j).2 ⟨d, hd, howned'⟩))

theorem owns_acquire (h : Owns s) (hc : s.connections i = some c) (hgo : c.goroutine = .accepted)
    (hfree : s.tasks task = none) (howned : c'.goroutine.owned = some task) :
    Owns ({ s with tasks := update s.tasks task (some i) }.set i c') := by
  have hnone : c.goroutine.owned = none := by
    rw [hgo]
    rfl
  refine ⟨fun t j => ?_, h.blocks, fun t j ht hj => ?_, fun j hj t => ?_⟩
  · dsimp only [State.set]
    by_cases ht : t = task
    · subst ht
      rw [update_self, Option.some.injEq]
      constructor
      · rintro rfl
        exact ⟨c', update_self .., howned⟩
      · rintro ⟨d, hd, hdow⟩
        by_contra hij
        rw [update_of_ne (Ne.symm hij)] at hd
        cases hfree.symm.trans ((h.owner t j).2 ⟨d, hd, hdow⟩)
    · rw [update_of_ne ht, h.owner]
      by_cases hij : j = i
      · subst hij
        rw [update_self]
        constructor
        · rintro ⟨d, hd, hdow⟩
          cases hc.symm.trans hd
          cases hnone.symm.trans hdow
        · rintro ⟨d, hd, hdow⟩
          cases hd
          exact absurd (Option.some.inj (hdow.symm.trans howned)) ht
      · rw [update_of_ne hij]
  · have hji : j ≠ i := by
      rintro rfl
      refine h.fresh j (fun d hd => ?_) t hj
      cases hc.symm.trans hd
      exact hgo
    refine h.latest t j ?_ hj
    dsimp only [State.set] at ht
    by_cases hteq : t = task
    · subst hteq
      rw [update_self] at ht
      exact absurd (Option.some.inj ht).symm hji
    · rwa [update_of_ne hteq] at ht
  · refine h.fresh j (fun d hd => ?_) t
    by_cases hij : j = i
    · subst hij
      cases hc.symm.trans hd
      exact hgo
    · exact hj d ((update_of_ne hij _ _).trans hd)

theorem owns_release (h : Owns s) (hc : s.connections i = some c)
    (howned : c.goroutine.owned = some task) :
    Owns ({ s with tasks := update s.tasks task none }.set i
      { c with goroutine := .finished }) := by
  refine ⟨fun t j => ?_, h.blocks, fun t j ht hj => ?_, fun j hj t => ?_⟩
  · dsimp only [State.set]
    by_cases hij : j = i
    · subst hij
      rw [update_self]
      refine ⟨fun ht => ?_, fun ⟨d, hd, hdow⟩ => ?_⟩
      · by_cases hteq : t = task
        · simp [hteq] at ht
        rw [update_of_ne hteq, h.owner] at ht
        obtain ⟨d, hd, hdow⟩ := ht
        cases hc.symm.trans hd
        exact absurd (Option.some.inj (hdow.symm.trans howned)) hteq
      · cases hd
        cases hdow
    · rw [update_of_ne hij, ← h.owner]
      by_cases hteq : t = task
      · subst hteq
        rw [update_self]
        refine ⟨nofun, fun ht => ?_⟩
        obtain ⟨d, hd, hdow⟩ := (h.owner t j).1 ht
        exact absurd (h.unique hd hdow hc howned) hij
      · rw [update_of_ne hteq]
  · refine h.latest t j ?_ hj
    dsimp only [State.set] at ht
    by_cases hteq : t = task
    · simp [hteq] at ht
    · rwa [update_of_ne hteq] at ht
  · refine h.fresh j (fun d hd => ?_) t
    by_cases hij : j = i
    · subst hij
      cases hj _ (update_self ..)
    · exact hj d ((update_of_ne hij _ _).trans hd)

theorem owns_invoke (h : Owns s) (hc : s.connections i = some c) {session : Session}
    (hgo : c.goroutine = .looping session true) (chunk : ChunkMsg)
    (hgo' : c'.goroutine = .handling session chunk) :
    Owns ({ s with log := s.log ++ [Event.invoked i session.task chunk] }.set i c') := by
  have howned : c'.goroutine.owned = c.goroutine.owned := by
    rw [hgo, hgo']
    rfl
  -- the step without the call
  have hquiet : Owns (s.set i c') := by
    refine h.quiet rfl rfl (fun _ => rfl) (by rw [hc]; exact howned) ?_
    rw [hgo']
    nofun
  have hmine (htask : session.taskID ≠ "") : s.tasks session.task = some i := by
    refine (h.owner session.task i).2 ⟨c, hc, ?_⟩
    rw [hgo]
    exact if_neg htask
  have hcal (t : String × String) :
      callers t [Event.invoked i session.task chunk] = if session.task = t then [i] else [] := by
    simp only [callers, filterMap_cons, filterMap_nil]
    split <;> simp_all
  refine ⟨hquiet.owner, fun t ht => ?_, fun t j htask hj => ?_, fun j hj t => ?_⟩
  · dsimp only [State.set]
    rw [callers_append, hcal]
    split
    · next heq =>
      subst heq
      exact blocks_concat (h.blocks _ ht) (h.latest _ i (hmine ht))
    · rw [append_nil]
      exact h.blocks t ht
  · dsimp only [State.set] at htask hj ⊢
    rw [callers_append, hcal] at hj ⊢
    by_cases heq : session.task = t
    · subst heq
      rw [if_pos rfl, List.getLast?_concat]
      obtain ⟨d, _, hdow⟩ := (h.owner _ j).1 htask
      exact (hmine (Goroutine.owned_ne hdow)).symm.trans htask
    · rw [if_neg heq, append_nil] at hj ⊢
      exact h.latest t j htask hj
  · dsimp only [State.set] at hj ⊢
    have hji : j ≠ i := by
      rintro rfl
      cases hgo'.symm.trans (hj c' (update_self ..))
    rw [callers_append, hcal, mem_append, not_or]
    refine ⟨hquiet.fresh j hj t, ?_⟩
    split
    · exact fun hmem => hji (mem_singleton.1 hmem)
    · exact not_mem_nil

theorem owns_serverStep (h : Owns s) (hc : s.connections i = some c) (hstep : ServerStep s i c s') :
    Owns s' := by
  have hset {c' : Connection} (howned : c'.goroutine.owned = c.goroutine.owned)
      (hfresh : c'.goroutine ≠ .accepted) : Owns (s.set i c') :=
    h.quiet rfl rfl (fun _ => rfl) (by rw [hc]; exact howned) fun hacc =>
      absurd hacc hfresh
  cases hstep with
  | refuse frames hgo | reject request rest err hgo =>
    exact hset (by rw [hgo]; rfl) nofun
  | connect request rest hgo hfrs htask =>
    exact hset (by rw [hgo]; exact if_pos htask) nofun
  | acquire request rest hgo hfrs htask hfree =>
    exact owns_acquire h hc hgo hfree (if_neg htask)
  | endLoop frames session owner hgo =>
    exact hset (by rw [hgo]; cases owner <;> rfl) nofun
  | invoke session chunk rest hgo => exact owns_invoke h hc hgo _ rfl
  | skip session session' owner chunk rest hgo hfrs htask =>
    refine hset ?_ nofun
    rw [hgo]
    cases owner with
    | true => simp only [Goroutine.owned, Session.task, htask.1, htask.2]
    | false => rfl
  | handlerReturns session chunk err hgo =>
    refine h.quiet rfl rfl (fun task => ?_) ?_ nofun
    · simp [State.set, callers]
    · rw [hc, Option.bind_some, hgo]
      rfl
  | proceed session owner chunk answered hgo =>
    refine hset ?_ ?_
    · rw [hgo, proceed]
      cases owner <;> cases chunk.isEnd <;> rfl
    · rw [proceed]
      cases chunk.isEnd <;> nofun
  | release session owner hgo =>
    unfold release
    split
    · next howne =>
      refine owns_release h hc ?_
      rw [hgo, howne.1]
      exact if_neg howne.2
    · next howne =>
      refine hset ?_ nofun
      rw [hgo]
      cases owner with
      | true => exact (if_pos (by simpa using howne)).symm
      | false => rfl

theorem ClientStep.goroutine (hstep : ClientStep c c') : c'.goroutine = c.goroutine := by
  cases hstep with
  | rawWrite | receiveFails => rfl
  | send client data opts failure =>
    unfold Toolstream.send
    cases failure <;> rfl
  | receiveResult client result =>
    unfold Toolstream.receiveResult
    split <;> rfl

theorem owns_step {T : Type} {unmarshal : List UInt8 → Except String (Option T)} (h : Owns s)
    {action : Action} (hstep : step unmarshal s action = some s') : Owns s' := by
  cases action with simp only [step] at hstep
  | register serviceName =>
    cases hstep
    exact ⟨h.owner, h.blocks, h.latest, h.fresh⟩
  | dial i request =>
    split at hstep <;> cases hstep
    next hnone =>
    have hdia : (Connection.dialed request).goroutine = .accepted := by
      cases request <;> rfl
    refine h.quiet rfl rfl (fun _ => rfl) ?_ fun _ d hd => ?_
    · rw [hdia, hnone]
      rfl
    · cases hnone.symm.trans hd
  | on i action =>
    split at hstep
    · cases hstep
    rename_i c hc
    obtain hser | ⟨c', hcl, rfl⟩ := stepConnection_cases hstep
    · exact owns_serverStep h hc hser
    · have hgo := hcl.goroutine
      refine h.quiet rfl rfl (fun _ => rfl) (by rw [hc, hgo]; rfl) fun hacc d hd => ?_
      cases hc.symm.trans hd
      exact hgo.symm.trans hacc

end Ownership

/-! ## Runs -/

structure Inv (s : State) : Prop where
  owns : Owns s
  clients : ∀ i c, s.connections i = some c → ∀ client, c.client = some client →
    ClientInv client ∧ Progress i (eventsOf i s.log) c client
  fresh : ∀ i, s.connections i = none → eventsOf i s.log = []

section Runs

variable {T : Type} {unmarshal : List UInt8 → Except String (Option T)} {s s' : State}

theorem eventsOf_append (i : Nat) (log added : List Event) :
    eventsOf i (log ++ added) = eventsOf i log ++ eventsOf i added :=
  filter_append ..

/-- One connection changes, and the log by its calls. -/
theorem clients_changes (h : Inv s) {i : Nat} {c' : Connection} {added : List Event}
    (hcha : Changes s i c' added s') (hc' : ∀ client, c'.client = some client →
      ClientInv client ∧ Progress i (eventsOf i s.log ++ added) c' client) :
    (∀ j c, s'.connections j = some c → ∀ client, c.client = some client →
      ClientInv client ∧ Progress j (eventsOf j s'.log) c client) ∧
    ∀ j, s'.connections j = none → eventsOf j s'.log = [] := by
  have hevs (j : Nat) (hj : j ≠ i) : eventsOf j s'.log = eventsOf j s.log := by
    rw [hcha.log, eventsOf_append]
    have hnone : eventsOf j added = [] := by
      refine filter_eq_nil_iff.2 fun e he => ?_
      simpa [hcha.own e he] using Ne.symm hj
    rw [hnone, append_nil]
  have hown : eventsOf i s'.log = eventsOf i s.log ++ added := by
    rw [hcha.log, eventsOf_append]
    congr 1
    exact filter_eq_self.2 fun e he => by simpa using hcha.own e he
  refine ⟨fun j c hj => ?_, fun j hj => ?_⟩
  · by_cases hji : j = i
    · subst hji
      rw [hcha.connections, update_self] at hj
      cases hj
      rw [hown]
      exact hc'
    · rw [hcha.connections, update_of_ne hji] at hj
      rw [hevs j hji]
      exact h.clients j c hj
  · by_cases hji : j = i
    · simp [hji, hcha.connections] at hj
    rw [hcha.connections, update_of_ne hji] at hj
    rw [hevs j hji]
    exact h.fresh j hj

theorem inv_step (h : Inv s) {action : Action} (hstep : step unmarshal s action = some s') :
    Inv s' := by
  have howns := owns_step h.owns hstep
  suffices hcli : (∀ j c, s'.connections j = some c → ∀ client, c.client = some client →
      ClientInv client ∧ Progress j (eventsOf j s'.log) c client) ∧
      ∀ j, s'.connections j = none → eventsOf j s'.log = [] from
    ⟨howns, hcli.1, hcli.2⟩
  cases action with simp only [step] at hstep
  | register serviceName =>
    cases hstep
    exact ⟨h.clients, h.fresh⟩
  | dial i request =>
    split at hstep <;> cases hstep
    next hnone =>
    refine clients_changes h (changes_set s i _ s.tasks) ?_
    intro client hcl
    rw [h.fresh i hnone]
    cases request with
    | none => cases hcl
    | some request =>
      cases hcl
      exact ⟨⟨nofun, nofun, fun _ _ => ⟨[], [], rfl, nofun, rfl⟩⟩, rfl, rfl, rfl, rfl⟩
  | on i action =>
    split at hstep
    · cases hstep
    rename_i c hc
    obtain hser | ⟨c', hcl, rfl⟩ := stepConnection_cases hstep
    · obtain ⟨c', added, hcha, hsame, hpro⟩ := serverStep_progress hser
      refine clients_changes h hcha fun client hcl => ?_
      obtain ⟨hinv, hbef⟩ := h.clients i c hc client (hsame ▸ hcl)
      exact ⟨hinv, hpro _ client hinv hbef⟩
    · refine clients_changes h (changes_set s i c' s.tasks) ?_
      rw [append_nil]
      exact clientStep_progress hcl (h.clients i c hc)

theorem inv_init : Inv {} where
  owns :=
    { owner := fun _ _ => ⟨fun htask => (by cases htask), fun ⟨_, hc, _⟩ => (by cases hc)⟩
      blocks := fun _ _ _ _ _ _ heq => absurd heq (by simp [callers])
      latest := fun _ _ htask => by cases htask
      fresh := fun _ _ _ => not_mem_nil }
  clients := fun _ _ hc => by cases hc
  fresh := fun _ _ => rfl

end Runs

def sampleTask : ConnectRequest where
  serviceName := "profile"
  taskID := "job"

/-- The handler runs for one frame and returns nil, and the loop goes on. -/
def handled : List Action :=
  [.on 0 .decode, .on 0 (.handlerReturns none), .on 0 (.proceed true)]

/-- While the first connection owns the task, a second one is rejected. -/
def sampleRun : List Action :=
  [Action.register "profile", .dial 0 (some sampleTask), .dial 1 (some sampleTask), .on 0 .decode,
    .on 0 (.send [49] {} none true), .on 1 (.send [50] {} none true), .on 1 .decode, .on 1 .decode,
    .on 0 (.send [] { isEnd := true, commit := true } none true)] ++ handled ++ handled ++
    [Action.on 0 .receiveResult, .on 1 (.proceed true)]

end Huatuo.Toolstream
