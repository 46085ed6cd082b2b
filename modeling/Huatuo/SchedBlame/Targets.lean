import Huatuo.SchedBlame.State
import Huatuo.Strings
import Mathlib.Data.List.AList

/-!
# Choosing the targets

`schedBlameSelectTargets` of `core/autotracing/sched_blame.go`: the containers that pass the filters
are candidates; those that had a slot keep it, and the others are shuffled into the free slots. If a
container is to be highlighted, the slot 0 is its own.

Every target is in the map `candidates` under its own container ID, so that the map is the list of
its targets here. A shuffle is the list of swaps that it makes, which depends on the length only; a
swap out of range, a panic in the source, is an error. The iteration order of the maps is the order
of the entries. `%q` is a parameter. The counters of the debug log are left out.

The slots fill up in two loops, and both do the same step: a candidate that is left goes to a slot
that is free (`Placement.place`).
-/

namespace Huatuo.SchedBlame

open Function List Option
open Strings (trimSpace)

inductive ContainerType where
  | sidecar
  | daemonSet
  | node
  | static
  | normal
  | unknown
  deriving DecidableEq, Repr

inductive ContainerQos where
  | unknown
  | guaranteed
  | burstable
  | bestEffort
  deriving DecidableEq, Repr

def ContainerQos.string : ContainerQos → String
  | unknown => "unknown"
  | guaranteed => "guaranteed"
  | burstable => "burstable"
  | bestEffort => "besteffort"

structure Container where
  hostname : String := ""
  type : ContainerType := .normal
  qos : ContainerQos := .unknown
  cgroupPath : String := ""
  cgroupCss : String → Option UInt64 := fun _ => none

/-- `map[string]*pod.Container` -/
abbrev Containers : Type := AList fun _ : String => Option Container

structure TargetConfig where
  targetContainerScope : String := "normal"
  targetQos : List String := []
  highlightContainer : String := ""
  deriving DecidableEq, Repr

def TargetConfig.highlightConfigured (config : TargetConfig) : Bool :=
  config.highlightContainer != ""

def subsystemCPU : String := "cpu"
def highlightIndex : Nat := 0

/-! ## Candidates -/

section

variable (quote : String → String)

def targetFromContainer (containerID : String) : Option Container → Option Target
  | none => none
  | some container =>
    match container.cgroupCss subsystemCPU with
    | none => none
    | some cgid =>
      if cgid = 0 then none
      else
        some
          { cgid
            containerID
            name := container.hostname
            cgroupPath := container.cgroupPath }

def targetScopeAllowed (container : Container) (config : TargetConfig) : Except String Bool :=
  if config.targetContainerScope = "all" then .ok true
  else if config.targetContainerScope = "normal" then .ok (container.type = .normal)
  else .error ("sched-blame: invalid TargetContainerScope " ++ quote config.targetContainerScope)

def targetQosAllowed (container : Container) (allowed : List String) : Bool :=
  allowed.isEmpty || allowed.contains container.qos.string.toLower

/-- An entry of the map; the highlighted container is no candidate. -/
def candidateFrom (config : TargetConfig) (highlight : Option Target)
    (entry : Sigma fun _ : String => Option Container) : Except String (Option Target) :=
  match entry.2, targetFromContainer entry.1 entry.2 with
  | some container, some target => do
      let allowed ← targetScopeAllowed quote container config
      if highlight.any (·.containerID == entry.1) || !allowed ||
          !targetQosAllowed container config.targetQos then
        return none
      else return some target
  | _, _ => return none

def buildCandidates (config : TargetConfig) (highlight : Option Target) :
    List (Sigma fun _ : String => Option Container) → Except String (List Target)
  | [] => .ok []
  | entry :: rest => do
      let candidate ← candidateFrom quote config highlight entry
      let candidates ← buildCandidates config highlight rest
      return candidate.toList ++ candidates

/-! ## The highlighted container -/

def highlightContainerMatches (selector containerID name : String) : Bool :=
  trimSpace selector != "" && (trimSpace selector == name || trimSpace selector == containerID ||
    (trimSpace selector).toList.isPrefixOf containerID.toList)

/-- The containers that the selector matches. -/
def highlightMatches (containers : Containers) (selector : String) :
    List (Sigma fun _ : String => Option Container) :=
  containers.entries.filter fun entry =>
    entry.2.any fun container => highlightContainerMatches selector entry.1 container.hostname

def findHighlightTarget (containers : Containers) (selector : String) (requireConfigured : Bool) :
    Except String (Option Target) :=
  if trimSpace selector = "" then .ok none
  else
    let selector := trimSpace selector
    match highlightMatches containers selector with
    | [] =>
      if requireConfigured then
        .error ("sched-blame: highlighted container " ++ quote selector ++ " not found")
      else .ok none
    | [⟨containerID, container⟩] =>
      match targetFromContainer containerID container with
      | some target => .ok (some target)
      | none =>
        if requireConfigured then
          .error ("sched-blame: highlighted container " ++ quote selector ++
            " has no CPU cgroup CSS")
        else .ok none
    | matched =>
      .error ("sched-blame: highlighted container " ++ quote selector ++ " matched " ++
        toString matched.length ++ " containers")

/-! ## Slots -/

/-- A slot whose container is still a candidate keeps it. -/
def retainTarget (oldTargets : Nat → Target) (slots : (Nat → Target) × List Target)
    (targetIndex : Nat) : (Nat → Target) × List Target :=
  let oldTarget := oldTargets targetIndex
  match slots.2.find? fun candidate => candidate.containerID = oldTarget.containerID with
  | none => slots
  | some candidate =>
    if sameTargetOwner oldTarget candidate then
      (update slots.1 targetIndex candidate,
        slots.2.filter fun candidate => candidate.containerID ≠ oldTarget.containerID)
    else slots

/-- The closure `swap` that a shuffle calls. -/
def swapTargets : List (Nat × Nat) → List Target → Except String (List Target)
  | [], targets => .ok targets
  | (left, right) :: rest, targets =>
    match targets[left]?, targets[right]? with
    | some a, some b => swapTargets rest ((targets.set left b).set right a)
    | _, _ => .error "index out of range"

/-- The random targets go to the slots that are free. -/
def fillTargets : List Nat → List Target → (Nat → Target) → Nat → Target
  | [], _, selected => selected
  | _ :: _, [], selected => selected
  | targetIndex :: indexes, target :: rest, selected =>
    if (selected targetIndex).active then fillTargets indexes (target :: rest) selected
    else fillTargets indexes rest (update selected targetIndex target)

def firstCandidateIndex (config : TargetConfig) : Nat :=
  if config.highlightConfigured then highlightIndex + 1 else 0

def candidateIndexes (config : TargetConfig) : List Nat :=
  List.range' (firstCandidateIndex config) (maxTargets - firstCandidateIndex config)

def selectTargets (containers : Containers) (oldTargets : Nat → Target) (config : TargetConfig)
    (requireConfiguredHighlight : Bool) (shuffle : Nat → Except String (List (Nat × Nat))) :
    Except String (Nat → Target) := do
  let highlight ←
    findHighlightTarget quote containers config.highlightContainer requireConfiguredHighlight
  let selected : Nat → Target :=
    update (fun _ => {}) highlightIndex (highlight.getD {})
  let candidates ← buildCandidates quote config highlight containers.entries
  let (retained, randomTargets) :=
    (candidateIndexes config).foldl (retainTarget oldTargets) (selected, candidates)
  match shuffle randomTargets.length with
  | .error err => .error ("sched-blame: shuffle target candidates: " ++ err)
  | .ok swaps => do
      let randomTargets ← swapTargets swaps randomTargets
      return fillTargets (candidateIndexes config) randomTargets retained

/-! ## What a candidate is -/

/-- A container with a CPU cgroup that passes the filters. -/
def Allowed (containers : Containers) (config : TargetConfig) (target : Target) : Prop :=
  ∃ container, containers.lookup target.containerID = some (some container) ∧
    targetFromContainer target.containerID (some container) = some target ∧
    targetScopeAllowed quote container config = .ok true ∧
    targetQosAllowed container config.targetQos

/-- A container with a CPU cgroup that is to be highlighted. -/
def IsHighlight (containers : Containers) (config : TargetConfig) (target : Target) : Prop :=
  trimSpace config.highlightContainer ≠ "" ∧
  ∃ container, containers.lookup target.containerID = some (some container) ∧
    targetFromContainer target.containerID (some container) = some target ∧
    highlightContainerMatches (trimSpace config.highlightContainer) target.containerID
      container.hostname

/-- The containers that compete for the slots that are not reserved. -/
def IsCandidate (containers : Containers) (config : TargetConfig) (target : Target) : Prop :=
  Allowed quote containers config target ∧ ¬ IsHighlight containers config target

variable {quote} {target : Target} {config : TargetConfig} {highlight : Option Target}
  {candidates all rest : List Target} {containers : Containers} {first : Nat}
  {selected start oldTargets : Nat → Target}

theorem targetFromContainer_eq_some {containerID : String} {container : Option Container}
    (h : targetFromContainer containerID container = some target) :
    target.containerID = containerID ∧ target.cgid ≠ 0 := by
  cases container with
  | none => cases h
  | some container =>
    rw [targetFromContainer] at h
    (repeat' split at h) <;> cases h
    rename_i hcgid
    exact ⟨rfl, hcgid⟩

theorem candidateFrom_eq_some {entry : Sigma fun _ : String => Option Container} :
    candidateFrom quote config highlight entry = .ok (some target) ↔
      ∃ container, entry = ⟨target.containerID, some container⟩ ∧
        targetFromContainer target.containerID (some container) = some target ∧
        targetScopeAllowed quote container config = .ok true ∧
        targetQosAllowed container config.targetQos ∧
        highlight.all (·.containerID != target.containerID) := by
  obtain ⟨containerID, container⟩ := entry
  constructor
  · intro h
    rw [candidateFrom] at h
    split at h
    · next container found hcont hfound =>
      subst hcont
      obtain ⟨hid, -⟩ := targetFromContainer_eq_some hfound
      cases hscope : targetScopeAllowed quote container config with rw [hscope] at h
      | error err => cases h
      | ok allowed =>
        change (if _ then Except.ok none else Except.ok (some found)) = _ at h
        split at h <;> cases h
        rename_i hpass
        simp only [Bool.or_eq_true, Bool.not_eq_true', not_or, Bool.not_eq_false, Bool.not_eq_true]
          at hpass
        obtain ⟨⟨hhig, rfl⟩, hqos⟩ := hpass
        subst hid
        refine ⟨container, rfl, hfound, hscope, hqos, ?_⟩
        cases highlight with
        | none => rfl
        | some highlighted => simpa using hhig
    · cases h
  · rintro ⟨container, heq, hfound, hscope, hqos, hhig⟩
    cases heq
    have hany : highlight.any (·.containerID == target.containerID) = false := by
      cases highlight with
      | none => rfl
      | some highlighted => simpa using hhig
    simp only [candidateFrom, hfound, hscope, hqos, hany]
    rfl

theorem buildCandidates_cons {entry : Sigma fun _ : String => Option Container}
    {rest : List (Sigma fun _ : String => Option Container)}
    (h : buildCandidates quote config highlight (entry :: rest) = .ok candidates) :
    ∃ candidate others, candidateFrom quote config highlight entry = .ok candidate ∧
      buildCandidates quote config highlight rest = .ok others ∧
      candidates = candidate.toList ++ others := by
  rw [buildCandidates] at h
  cases hent : candidateFrom quote config highlight entry with
  | error err =>
    rw [hent] at h
    cases h
  | ok candidate =>
    cases hrest : buildCandidates quote config highlight rest with rw [hent, hrest] at h
    | error err => cases h
    | ok others =>
      cases h
      exact ⟨candidate, others, rfl, rfl, rfl⟩

theorem mem_buildCandidates {entries : List (Sigma fun _ : String => Option Container)}
    (h : buildCandidates quote config highlight entries = .ok candidates) (target : Target) :
    target ∈ candidates ↔
      ∃ entry ∈ entries, candidateFrom quote config highlight entry = .ok (some target) := by
  induction entries generalizing candidates with
  | nil =>
    cases h
    simp
  | cons entry rest ih =>
    obtain ⟨candidate, others, hent, hrest, rfl⟩ := buildCandidates_cons h
    simp only [mem_append, mem_toList, exists_mem_cons_iff, hent, ih hrest,
      Except.ok.injEq]

theorem nodup_buildCandidates {entries : List (Sigma fun _ : String => Option Container)}
    (h : buildCandidates quote config highlight entries = .ok candidates)
    (hnd : entries.NodupKeys) :
    (candidates.map Target.containerID).Nodup := by
  induction entries generalizing candidates with
  | nil =>
    cases h
    exact nodup_nil
  | cons entry rest ih =>
    obtain ⟨candidate, others, hent, hrest, rfl⟩ := buildCandidates_cons h
    obtain ⟨hfresh, hkeys⟩ := nodupKeys_cons.1 hnd
    cases candidate with
    | none => exact ih hrest hkeys
    | some target =>
      obtain ⟨container, rfl, -⟩ := candidateFrom_eq_some.1 hent
      refine nodup_cons.2 ⟨fun hmem => ?_, ih hrest hkeys⟩
      obtain ⟨other, hother, heq⟩ := mem_map.1 hmem
      obtain ⟨entry, hin, hfrom⟩ := (mem_buildCandidates hrest other).1 hother
      obtain ⟨container', rfl, -⟩ := candidateFrom_eq_some.1 hfrom
      have hkey : other.containerID ∈ rest.keys := mem_keys_of_mem hin
      exact hfresh (heq ▸ hkey)

theorem mem_highlightMatches {selector containerID : String} {container : Option Container} :
    ⟨containerID, container⟩ ∈ highlightMatches containers selector ↔
      containers.lookup containerID = some container ∧
        container.any fun container =>
          highlightContainerMatches selector containerID container.hostname := by
  rw [highlightMatches, mem_filter, ← AList.mem_lookup_iff]
  rfl

/-- What is found is the one container that the selector matches. -/
theorem findHighlightTarget_spec {requireConfigured : Bool}
    (h : findHighlightTarget quote containers config.highlightContainer requireConfigured =
      .ok highlight)
    (target : Target) : highlight = some target ↔ IsHighlight containers config target := by
  rw [findHighlightTarget] at h
  split at h
  · next hemp =>
    cases h
    exact ⟨nofun, fun hhig => absurd hemp hhig.1⟩
  · next hsele =>
    have hmem {target : Target} : IsHighlight containers config target ↔ ∃ container,
        ⟨target.containerID, some container⟩ ∈
          highlightMatches containers (trimSpace config.highlightContainer) ∧
        targetFromContainer target.containerID (some container) = some target := by
      simp only [IsHighlight, mem_highlightMatches, ne_eq, hsele, not_false_eq_true, true_and,
        any_some]
      exact exists_congr fun container => ⟨fun hall => ⟨⟨hall.1, hall.2.2⟩, hall.2.1⟩,
        fun hall => ⟨hall.1.1, hall.2, hall.1.2⟩⟩
    rw [hmem]
    dsimp only at h
    split at h
    · next hnone =>
      rw [hnone]
      split at h <;> cases h
      simp
    · next containerID container hone =>
      rw [hone]
      cases hfrom : targetFromContainer containerID container with rw [hfrom] at h
      | none =>
        dsimp only at h
        split at h <;> cases h
        refine ⟨nofun, ?_⟩
        rintro ⟨container', hin, hfrom'⟩
        cases mem_singleton.1 hin
        simp [hfrom] at hfrom'
      | some found =>
        cases h
        constructor
        · rintro ⟨⟩
          obtain ⟨rfl, -⟩ := targetFromContainer_eq_some hfrom
          cases container with
          | none => cases hfrom
          | some container => exact ⟨container, mem_singleton_self _, hfrom⟩
        · rintro ⟨container', hin, hfrom'⟩
          cases mem_singleton.1 hin
          exact hfrom.symm.trans hfrom'
    · cases h

theorem Allowed.eq_highlight {other : Target} (h : Allowed quote containers config target)
    (hother : IsHighlight containers config other) (hid : other.containerID = target.containerID) :
    other = target := by
  obtain ⟨container, hlk, hfrom, -⟩ := h
  obtain ⟨-, container', hlk', hfrom', -⟩ := hother
  rw [hid, hlk] at hlk'
  cases hlk'
  rw [hid, hfrom] at hfrom'
  exact (Option.some.inj hfrom').symm

theorem mem_candidates
    (hhig : ∀ target, highlight = some target ↔ IsHighlight containers config target)
    (h : buildCandidates quote config highlight containers.entries = .ok candidates)
    (target : Target) : target ∈ candidates ↔ IsCandidate quote containers config target := by
  have hother (hallo : Allowed quote containers config target) :
      highlight.all (·.containerID != target.containerID) ↔
        ¬ IsHighlight containers config target := by
    rw [← hhig target]
    cases highlight with
    | none => simp
    | some found =>
      have hfound := (hhig found).1 rfl
      simp only [all_some, bne_iff_ne, Option.some.injEq]
      exact not_congr ⟨hallo.eq_highlight hfound, fun heq => heq ▸ rfl⟩
  rw [mem_buildCandidates h, IsCandidate]
  constructor
  · rintro ⟨entry, hin, hfrom⟩
    obtain ⟨container, rfl, hfrom, hscope, hqos, hall⟩ := candidateFrom_eq_some.1 hfrom
    have hallo : Allowed quote containers config target :=
      ⟨container, AList.mem_lookup_iff.2 hin, hfrom, hscope, hqos⟩
    exact ⟨hallo, (hother hallo).1 hall⟩
  · rintro ⟨hallo, hnot⟩
    have hall := (hother hallo).2 hnot
    obtain ⟨container, hlk, hfrom, hscope, hqos⟩ := hallo
    exact ⟨⟨target.containerID, some container⟩, AList.mem_lookup_iff.1 hlk,
      candidateFrom_eq_some.2 ⟨container, rfl, hfrom, hscope, hqos, hall⟩⟩

/-! ## Placing candidates -/

/-- The candidates `all` on their way into the slots from `first` on; `rest` are still to be placed,
and `start` is what the slots were. -/
structure Placement (first : Nat) (start : Nat → Target) (all rest : List Target)
    (selected : Nat → Target) : Prop where
  nodup : (rest.map Target.containerID).Nodup
  sub : ∀ target ∈ rest, target ∈ all
  low : ∀ i < first, selected i = start i
  slot : ∀ i, first ≤ i → selected i = {} ∨ i < maxTargets ∧ selected i ∈ all ∧ selected i ∉ rest
  inj : ∀ i j, first ≤ i → first ≤ j → selected i ∈ all → selected i = selected j → i = j
  placed : ∀ target ∈ all, target ∈ rest ∨ ∃ i, first ≤ i ∧ i < maxTargets ∧ selected i = target

/-- A candidate that is left goes to a free slot. -/
theorem Placement.place {rest' : List Target} (h : Placement first start all rest selected)
    (hact : ∀ target ∈ all, target.active) {i : Nat} (hfirst : first ≤ i) (hi : i < maxTargets)
    (hfree : (selected i).active = false) (hmem : target ∈ rest)
    (hnd : (rest'.map Target.containerID).Nodup)
    (hrest : ∀ other, other ∈ rest' ↔ other ∈ rest ∧ other ≠ target) :
    Placement first start all rest' (update selected i target) := by
  have hall := h.sub target hmem
  have hother {j : Nat} (hj : first ≤ j) (hsel : selected j ∈ all) : selected j ≠ target := by
    rintro rfl
    obtain hemp | ⟨-, -, hnot⟩ := h.slot j hj
    · exact absurd (hact _ hsel) (by rw [hemp]; exact Bool.false_ne_true)
    · exact hnot hmem
  refine ⟨hnd, fun other ho => h.sub other ((hrest other).1 ho).1, fun j hj => ?_, fun j hj => ?_,
    fun j k hj hk hsel heq => ?_, fun other ho => ?_⟩
  · rw [update_of_ne (by omega), h.low j hj]
  · by_cases hji : j = i
    · subst hji
      rw [update_self]
      exact .inr ⟨hi, hall, fun hin => ((hrest target).1 hin).2 rfl⟩
    · rw [update_of_ne hji]
      exact (h.slot j hj).imp_right fun hslot =>
        ⟨hslot.1, hslot.2.1, fun hin => hslot.2.2 ((hrest _).1 hin).1⟩
  · by_cases hji : j = i <;> by_cases hki : k = i
    · rw [hji, hki]
    · subst hji
      rw [update_self, update_of_ne hki] at heq
      exact absurd heq.symm (hother hk (heq ▸ hall))
    · subst hki
      rw [update_self, update_of_ne hji] at heq
      exact absurd heq (hother hj (heq ▸ hall))
    · rw [update_of_ne hji] at heq hsel
      rw [update_of_ne hki] at heq
      exact h.inj j k hj hk hsel heq
  · by_cases htgt : other = target
    · exact .inr ⟨i, hfirst, hi, by rw [update_self, htgt]⟩
    refine (h.placed other ho).imp (fun hin => (hrest other).2 ⟨hin, htgt⟩) ?_
    rintro ⟨j, hj, hjlt, rfl⟩
    refine ⟨j, hj, hjlt, update_of_ne ?_ _ _⟩
    rintro rfl
    exact absurd (hact _ ho) (by simp [hfree])

theorem Placement.perm {rest' : List Target} (h : Placement first start all rest selected)
    (hperm : rest'.Perm rest) : Placement first start all rest' selected where
  nodup := (hperm.map _).nodup_iff.2 h.nodup
  sub target hin := h.sub target (hperm.mem_iff.1 hin)
  low := h.low
  slot i hi := (h.slot i hi).imp_right fun hslot =>
    ⟨hslot.1, hslot.2.1, fun hin => hslot.2.2 (hperm.mem_iff.1 hin)⟩
  inj := h.inj
  placed target hin := (h.placed target hin).imp_left hperm.mem_iff.2

/-- The second loop stops when every candidate has a slot, or every slot a candidate. -/
theorem Placement.fillTargets (h : Placement first start all rest selected)
    (hact : ∀ target ∈ all, target.active) {indexes : List Nat}
    (hidxs : ∀ i ∈ indexes, first ≤ i ∧ i < maxTargets) :
    ∃ left, Placement first start all left (fillTargets indexes rest selected) ∧
      (∀ i, (selected i).active → SchedBlame.fillTargets indexes rest selected i = selected i) ∧
      (left = [] ∨ ∀ i ∈ indexes, (SchedBlame.fillTargets indexes rest selected i).active) := by
  induction indexes generalizing rest selected with
  | nil => exact ⟨rest, h, fun i _ => rfl, .inr fun i hi => absurd hi not_mem_nil⟩
  | cons i indexes ih =>
    cases rest with
    | nil => exact ⟨[], h, fun i _ => rfl, .inl rfl⟩
    | cons target rest =>
      obtain ⟨hfirst, hi⟩ := hidxs i mem_cons_self
      have hidxs' := fun j hj => hidxs j (mem_cons_of_mem i hj)
      rw [SchedBlame.fillTargets]
      split
      · next hbusy =>
        obtain ⟨left, hpla, hkept, hdone⟩ := ih h hidxs'
        refine ⟨left, hpla, hkept, hdone.imp_right fun hall j hj => ?_⟩
        obtain rfl | hj := mem_cons.1 hj
        · rwa [hkept j hbusy]
        · exact hall j hj
      · next hfree =>
        have hfree : (selected i).active = false := Bool.eq_false_iff.2 hfree
        obtain ⟨hfresh, hnd⟩ := nodup_cons.1 h.nodup
        have hplace := h.place hact hfirst hi hfree mem_cons_self hnd fun other => by
          rw [mem_cons]
          constructor
          · rintro hin
            refine ⟨.inr hin, ?_⟩
            rintro rfl
            exact hfresh (mem_map_of_mem hin)
          · rintro ⟨rfl | hin, hne⟩
            · exact absurd rfl hne
            · exact hin
        obtain ⟨left, hpla, hkept, hdone⟩ := ih hplace hidxs'
        have hset : (update selected i target i).active := by
          rw [update_self]
          exact hact target (h.sub target mem_cons_self)
        refine ⟨left, hpla, fun j hj => ?_, hdone.imp_right fun hall j hj => ?_⟩
        · have hji : j ≠ i := by
            rintro rfl
            simp [hfree] at hj
          have hsame : update selected i target j = selected j := update_of_ne hji _ _
          rw [hkept j (by rwa [hsame]), hsame]
        · obtain rfl | hj := mem_cons.1 hj
          · rwa [hkept j hset]
          · exact hall j hj

/-! ## Keeping slots -/

theorem sameTargetOwner_iff {left right : Target} (hright : right.active) :
    sameTargetOwner left right ↔
      left.active ∧ left.containerID = right.containerID ∧ left.cgid = right.cgid := by
  cases hleft : left.active <;> simp [sameTargetOwner, hleft, hright]

theorem eq_of_containerID {targets : List Target} (h : (targets.map Target.containerID).Nodup)
    {a b : Target} (ha : a ∈ targets) (hb : b ∈ targets) (hid : a.containerID = b.containerID) :
    a = b :=
  inj_on_of_nodup_map h ha hb hid

/-- No container has two slots. -/
def DistinctContainers (targets : Nat → Target) : Prop :=
  ∀ i < maxTargets, ∀ j < maxTargets, (targets i).active → (targets j).active →
    (targets i).containerID = (targets j).containerID → i = j

/-- The state of the first loop before the slot `next`. -/
structure Retained (oldTargets : Nat → Target) (first next : Nat) (start : Nat → Target)
    (all : List Target) (slots : (Nat → Target) × List Target) : Prop where
  placement : Placement first start all slots.2 slots.1
  free : ∀ j, next ≤ j → slots.1 j = {}
  gone : ∀ target ∈ all, target ∉ slots.2 → ∃ j, first ≤ j ∧ j < next ∧
    sameTargetOwner (oldTargets j) target
  kept : ∀ j, first ≤ j → j < next → ∀ target ∈ all, sameTargetOwner (oldTargets j) target →
    slots.1 j = target

theorem Retained.retainTarget (hold : DistinctContainers oldTargets) {next : Nat}
    (hfirst : first ≤ next) (hnext : next < maxTargets) (hact : ∀ target ∈ all, target.active)
    (hnd : (all.map Target.containerID).Nodup) {slots : (Nat → Target) × List Target}
    (h : Retained oldTargets first next start all slots) :
    Retained oldTargets first (next + 1) start all (retainTarget oldTargets slots next) := by
  obtain ⟨selected, rest⟩ := slots
  -- the owner of the slot, if it is a candidate, is still to be placed
  have hleft {target : Target} (hall : target ∈ all)
      (hown : sameTargetOwner (oldTargets next) target) : target ∈ rest := by
    by_contra hnot
    obtain ⟨j, -, hj, hown'⟩ := h.gone target hall hnot
    obtain ⟨hact₁, hid₁, -⟩ := (sameTargetOwner_iff (hact target hall)).1 hown
    obtain ⟨hact₂, hid₂, -⟩ := (sameTargetOwner_iff (hact target hall)).1 hown'
    have heq := hold next hnext j (by omega) hact₁ hact₂ (hid₁.trans hid₂.symm)
    omega
  have hskip (hnone : ∀ target ∈ rest, ¬ sameTargetOwner (oldTargets next) target) :
      Retained oldTargets first (next + 1) start all (selected, rest) := by
    refine ⟨h.placement, fun j hj => h.free j (by omega), fun target hall hnot => ?_,
      fun j hj hlt target hall hown => ?_⟩
    · obtain ⟨j, hj, hlt, hown⟩ := h.gone target hall hnot
      exact ⟨j, hj, by omega, hown⟩
    · obtain hlt | rfl : j < next ∨ j = next := by omega
      · exact h.kept j hj hlt target hall hown
      · exact absurd hown (hnone target (hleft hall hown))
  simp only [SchedBlame.retainTarget]
  split
  · next hfind =>
    refine hskip fun target hrest hown => ?_
    have hid := ((sameTargetOwner_iff (hact target (h.placement.sub target hrest))).1 hown).2.1
    exact absurd hid.symm (by simpa using List.find?_eq_none.1 hfind target hrest)
  · next candidate hfind =>
    have hrest : candidate ∈ rest := mem_of_find?_eq_some hfind
    have hid : candidate.containerID = (oldTargets next).containerID := by
      simpa using List.find?_some hfind
    have hall := h.placement.sub candidate hrest
    split
    · next hown =>
      have hrest' (other : Target) : other ∈ rest.filter (fun candidate =>
          candidate.containerID ≠ (oldTargets next).containerID) ↔
            other ∈ rest ∧ other ≠ candidate := by
        rw [mem_filter, decide_eq_true_eq, ← hid]
        refine and_congr_right fun hother => not_congr ⟨fun heq => ?_, fun heq => heq ▸ rfl⟩
        exact eq_of_containerID h.placement.nodup hother hrest heq
      have hfree : (selected next).active = false := congrArg Target.active (h.free next le_rfl)
      have hother (j : Nat) (hj : j ≠ next) : update selected next candidate j = selected j :=
        update_of_ne hj _ _
      refine ⟨h.placement.place hact hfirst hnext hfree hrest
          (h.placement.nodup.sublist (filter_sublist.map _)) hrest', fun j hj => ?_,
        fun target htgt hnot => ?_, fun j hj hlt target htgt hown' => ?_⟩
      · exact (hother j (by omega)).trans (h.free j (by omega))
      · by_cases hin : target ∈ rest
        · have heq : target = candidate := by
            by_contra hne
            exact hnot ((hrest' target).2 ⟨hin, hne⟩)
          exact ⟨next, hfirst, Nat.lt_succ_self next, heq ▸ hown⟩
        · obtain ⟨j, hj, hlt, hown'⟩ := h.gone target htgt hin
          exact ⟨j, hj, by omega, hown'⟩
      · obtain hlt | rfl : j < next ∨ j = next := by omega
        · exact (hother j (by omega)).trans (h.kept j hj hlt target htgt hown')
        · have hid' := ((sameTargetOwner_iff (hact target htgt)).1 hown').2.1
          have heq := eq_of_containerID hnd hall htgt (hid.trans hid')
          exact (update_self _ _ _).trans heq
    · next hother =>
      refine hskip fun target htgt hown => hother ?_
      have hid' := ((sameTargetOwner_iff (hact target (h.placement.sub target htgt))).1 hown).2.1
      rwa [eq_of_containerID h.placement.nodup hrest htgt (hid.trans hid')]

theorem retainTargets_spec (hold : DistinctContainers oldTargets)
    (hsta : ∀ j, first ≤ j → start j = {}) (hact : ∀ target ∈ all, target.active)
    (hnd : (all.map Target.containerID).Nodup) (n : Nat) (hn : first + n ≤ maxTargets) :
    Retained oldTargets first (first + n) start all
      ((List.range' first n).foldl (retainTarget oldTargets) (start, all)) := by
  induction n with
  | zero =>
    refine ⟨⟨hnd, fun _ => id, fun _ _ => rfl, fun i hi => .inl (hsta i hi),
      fun i j hi _ hmem => ?_, fun _ => .inl⟩, hsta, fun _ hall hnot => absurd hall hnot,
      fun j hj hlt => ?_⟩
    · have hmem : start i ∈ all := hmem
      have hsome := hact _ hmem
      rw [hsta i hi] at hsome
      exact absurd hsome Bool.false_ne_true
    · omega
  | succ n ih =>
    rw [List.range'_concat, foldl_concat, Nat.one_mul]
    exact (ih (by omega)).retainTarget hold (by omega) (by omega) hact hnd

theorem swapTargets_perm {swaps : List (Nat × Nat)} {targets swapped : List Target}
    (h : swapTargets swaps targets = .ok swapped) : swapped.Perm targets := by
  induction swaps generalizing targets with
  | nil =>
    cases h
    exact .refl _
  | cons swap rest ih =>
    rw [swapTargets] at h
    split at h
    · next a b ha hb =>
      obtain ⟨hleft, rfl⟩ := List.getElem?_eq_some_iff.1 ha
      obtain ⟨hright, rfl⟩ := List.getElem?_eq_some_iff.1 hb
      exact (ih h).trans (set_set_perm hleft hright)
    · cases h

/-! ## The selection -/

theorem selectTargets_eq_ok {requireConfiguredHighlight : Bool}
    {shuffle : Nat → Except String (List (Nat × Nat))}
    (h : selectTargets quote containers oldTargets config requireConfiguredHighlight shuffle =
      .ok selected) :
    ∃ highlight candidates randomTargets,
      findHighlightTarget quote containers config.highlightContainer
        requireConfiguredHighlight = .ok highlight ∧
      buildCandidates quote config highlight containers.entries = .ok candidates ∧
      randomTargets.Perm ((candidateIndexes config).foldl (retainTarget oldTargets)
        (update (fun _ => {}) highlightIndex (highlight.getD {}), candidates)).2 ∧
      selected = fillTargets (candidateIndexes config) randomTargets
        ((candidateIndexes config).foldl (retainTarget oldTargets)
          (update (fun _ => {}) highlightIndex (highlight.getD {}), candidates)).1 := by
  rw [selectTargets] at h
  cases hhig : findHighlightTarget quote containers config.highlightContainer
      requireConfiguredHighlight with
  | error err =>
    rw [hhig] at h
    cases h
  | ok highlight =>
    cases hcan : buildCandidates quote config highlight containers.entries with
    | error err =>
      simp [hhig, hcan, bind, Except.bind] at h
    | ok candidates =>
      simp only [hhig, hcan, bind, Except.bind] at h
      split at h
      · cases h
      rename_i swaps hshu
      split at h <;> cases h
      rename_i randomTargets hswap
      exact ⟨highlight, candidates, randomTargets, rfl, hcan, swapTargets_perm hswap, rfl⟩

/-- The slots from the first one on start empty. -/
theorem firstCandidateIndex_spec
    (hhig : ∀ target, highlight = some target ↔ IsHighlight containers config target) :
    firstCandidateIndex config ≤ maxTargets ∧ ∀ j, firstCandidateIndex config ≤ j →
      update (fun _ => ({} : Target)) highlightIndex (highlight.getD {}) j = {} := by
  cases hcon : config.highlightConfigured with
  | true =>
    simp only [firstCandidateIndex, hcon, if_true]
    exact ⟨by decide, fun j hj => update_of_ne (by omega) _ _⟩
  | false =>
    have hnone : highlight = none := by
      refine eq_none_iff_forall_ne_some.2 fun target hsome => ?_
      obtain ⟨hsele, -⟩ := (hhig target).1 hsome
      have hemp : config.highlightContainer = "" := by
        simpa [TargetConfig.highlightConfigured] using hcon
      exact hsele (by rw [hemp]; rfl)
    refine ⟨by simp [firstCandidateIndex, hcon], fun j _ => ?_⟩
    rw [hnone]
    exact congrFun (update_eq_self highlightIndex fun _ => ({} : Target)) j

/-- A selection, for containers with an ID and old targets without repetition: no container has two
slots; what is selected passes the filters or is highlighted; a candidate keeps the slot that it
had; the slot 0 is the one of the highlighted container, if there is to be one; and no candidate is
left out while a slot is free. -/
theorem selectTargets_spec {containers : Containers} {oldTargets : Nat → Target}
    {config : TargetConfig}
    {requireConfiguredHighlight : Bool} {shuffle : Nat → Except String (List (Nat × Nat))}
    {selected : Nat → Target} (hids : "" ∉ containers) (hold : DistinctContainers oldTargets)
    (h : selectTargets quote containers oldTargets config requireConfiguredHighlight shuffle =
      .ok selected) :
    DistinctContainers selected ∧
      (∀ i < maxTargets, (selected i).active → Allowed quote containers config (selected i) ∨
        i = highlightIndex ∧ IsHighlight containers config (selected i)) ∧
      (∀ i, firstCandidateIndex config ≤ i → i < maxTargets → ∀ target,
        IsCandidate quote containers config target →
          (oldTargets i).containerID = target.containerID →
          (oldTargets i).cgid = target.cgid → selected i = target) ∧
      (config.highlightConfigured →
        (∀ target, IsHighlight containers config target → selected highlightIndex = target) ∧
        ((∀ target, ¬ IsHighlight containers config target) →
          (selected highlightIndex).active = false)) ∧
      ((∀ target, IsCandidate quote containers config target →
        ∃ i < maxTargets, selected i = target) ∨
        ∀ i, firstCandidateIndex config ≤ i → i < maxTargets → (selected i).active) := by
  obtain ⟨highlight, candidates, randomTargets, hfind, hbuild, hperm, rfl⟩ := selectTargets_eq_ok h
  have hhighlight := findHighlightTarget_spec hfind
  have hcandidate := mem_candidates hhighlight hbuild
  have hnodup := nodup_buildCandidates hbuild containers.nodupKeys
  -- a container with an ID makes an active target
  have hactive {target : Target} {container : Container}
      (hlookup : containers.lookup target.containerID = some (some container))
      (hfrom : targetFromContainer target.containerID (some container) = some target) :
      target.active := by
    have hid : target.containerID ≠ "" := fun heq =>
      hids (heq ▸ AList.lookup_isSome.1 (by simp [hlookup]))
    simp [Target.active, (targetFromContainer_eq_some hfrom).2, hid]
  have hcandidates : ∀ target ∈ candidates, target.active := fun target hin => by
    obtain ⟨container, hlookup, hfrom, -⟩ := ((hcandidate target).1 hin).1
    exact hactive hlookup hfrom
  obtain ⟨hfirst, hstart⟩ := firstCandidateIndex_spec hhighlight
  have hindexes : ∀ i ∈ candidateIndexes config,
      firstCandidateIndex config ≤ i ∧ i < maxTargets := by
    intro i hi
    rw [candidateIndexes, mem_range'_1] at hi
    omega
  have hretained := retainTargets_spec hold hstart hcandidates hnodup
    (maxTargets - firstCandidateIndex config) (by omega)
  rw [← candidateIndexes, Nat.add_sub_cancel' hfirst] at hretained
  obtain ⟨left, hplaced, hkept, hdone⟩ :=
    (hretained.placement.perm hperm).fillTargets hcandidates hindexes
  generalize (candidateIndexes config).foldl (retainTarget oldTargets) _ = slots at *
  generalize fillTargets (candidateIndexes config) randomTargets slots.1 = selected at *
  have hreserved (hconfigured : config.highlightConfigured) :
      selected highlightIndex = highlight.getD {} :=
    (hplaced.low highlightIndex (by simp [firstCandidateIndex, hconfigured])).trans
      (update_self _ _ _)
  -- a slot holds a candidate, or is the reserved one
  have hslot {i : Nat} (hi : (selected i).active) :
      firstCandidateIndex config ≤ i ∧ selected i ∈ candidates ∨
        i = highlightIndex ∧ IsHighlight containers config (selected i) := by
    by_cases hlow : firstCandidateIndex config ≤ i
    · refine .inl ⟨hlow, ?_⟩
      obtain hempty | ⟨-, hin, -⟩ := hplaced.slot i hlow
      · rw [hempty] at hi
        exact absurd hi Bool.false_ne_true
      · exact hin
    · have hconfigured : config.highlightConfigured := by
        by_contra hnot
        exact hlow (by simp [firstCandidateIndex, hnot])
      have hzero : i = highlightIndex := by
        simp only [firstCandidateIndex, hconfigured, if_true, highlightIndex] at hlow ⊢
        omega
      subst hzero
      refine .inr ⟨rfl, ?_⟩
      rw [hreserved hconfigured] at hi ⊢
      cases highlight with
      | none => exact absurd hi Bool.false_ne_true
      | some found => exact (hhighlight found).1 rfl
  have hclash {i j : Nat} (hin : selected i ∈ candidates)
      (hj : IsHighlight containers config (selected j))
      (hid : (selected j).containerID = (selected i).containerID) : False := by
    obtain ⟨hallowed, hnot⟩ := (hcandidate _).1 hin
    exact hnot (hallowed.eq_highlight hj hid ▸ hj)
  refine ⟨fun i hi j hj hactivei hactivej hid => ?_, fun i hi hactivei => ?_,
    fun i hlow hi target htarget hid hcgid => ?_, fun hconfigured => ⟨fun target htarget => ?_,
      fun hnone => ?_⟩, ?_⟩
  · obtain ⟨hlowi, hini⟩ | ⟨rfl, hhi⟩ := hslot hactivei <;>
      obtain ⟨hlowj, hinj⟩ | ⟨rfl, hhj⟩ := hslot hactivej
    · exact hplaced.inj i j hlowi hlowj hini (eq_of_containerID hnodup hini hinj hid)
    · exact (hclash hini hhj hid.symm).elim
    · exact (hclash hinj hhi hid).elim
    · rfl
  · exact (hslot hactivei).imp (fun hin => ((hcandidate _).1 hin.2).1) id
  · have hin := (hcandidate target).2 htarget
    have htargetactive := hcandidates target hin
    have holdactive : (oldTargets i).active := by
      rw [Target.active, hid, hcgid]
      exact htargetactive
    have hretain := hretained.kept i hlow hi target hin
      ((sameTargetOwner_iff htargetactive).2 ⟨holdactive, hid, hcgid⟩)
    rw [hkept i (by rwa [hretain]), hretain]
  · rw [hreserved hconfigured, (hhighlight target).2 htarget]
    rfl
  · have hnot : highlight = none :=
      eq_none_iff_forall_ne_some.2 fun target hsome => hnone target ((hhighlight target).1 hsome)
    rw [hreserved hconfigured, hnot]
    rfl
  · refine hdone.imp (fun hleft target htarget => ?_) fun hall i hlow hi => hall i ?_
    · obtain hrest | ⟨i, -, hi, heq⟩ := hplaced.placed target ((hcandidate target).2 htarget)
      · exact absurd (hleft ▸ hrest) not_mem_nil
      · exact ⟨i, hi, heq⟩
    · rw [candidateIndexes, mem_range'_1]
      omega

end

def containerWith (cgid : UInt64) : Container :=
  { cgroupCss := fun subsystem => if subsystem = subsystemCPU then some cgid else none }

def twoContainers (first second : String) : Containers :=
  (AList.singleton second (some (containerWith 6))).insert first (some (containerWith 5))

/-- The targets of the two containers, with no highlight and no swaps, and a check of what they
are. -/
def selectsTwo (first second : String) (oldTargets : Nat → Target) (check : (Nat → Target) → Bool) :
    Bool :=
  match selectTargets id (twoContainers first second) oldTargets {} false fun _ => .ok [] with
  | .ok selected => check selected
  | .error _ => false

theorem selectsTwo_eq_true {first second : String} {oldTargets : Nat → Target}
    {check : (Nat → Target) → Bool} (h : selectsTwo first second oldTargets check) :
    ∃ selected, selectTargets id (twoContainers first second) oldTargets {} false
      (fun _ => .ok []) =
      .ok selected ∧ check selected := by
  rw [selectsTwo] at h
  split at h
  · next selected hok => exact ⟨selected, hok, h⟩
  · cases h

/-- The second container had the slot 2, and keeps it. -/
theorem selectTargets_spec_two : ∃ selected,
    selectTargets id (twoContainers "a" "b")
      (update (fun _ => {}) 2 { cgid := 6, containerID := "b" }) {} false (fun _ => .ok []) =
        .ok selected ∧
      selected 2 = { cgid := 6, containerID := "b" } := by
  have hrun : selectsTwo "a" "b" (update (fun _ => {}) 2 { cgid := 6, containerID := "b" })
      (fun _ => true) := by decide +kernel
  obtain ⟨selected, hselected, -⟩ := selectsTwo_eq_true hrun
  refine ⟨selected, hselected, ?_⟩
  have hold : DistinctContainers (update (fun _ => {}) 2 { cgid := 6, containerID := "b" }) := by
    have hslot {k : Nat} (hk : (update (fun _ => ({} : Target)) 2
        { cgid := 6, containerID := "b" } k).active) : k = 2 := by
      by_contra hne
      rw [update_of_ne hne] at hk
      exact absurd hk Bool.false_ne_true
    intro i _ j _ hi hj _
    rw [hslot hi, hslot hj]
  have hcandidate : IsCandidate id (twoContainers "a" "b") {} { cgid := 6, containerID := "b" } :=
    ⟨⟨containerWith 6, rfl, rfl, rfl, rfl⟩, fun hhighlight => hhighlight.1 rfl⟩
  exact (selectTargets_spec (by decide) hold hselected).2.2.1 2 (by decide) (by decide) _
    hcandidate rfl
    rfl

/-- A container without an ID makes a target that counts as a free slot: it gets the slot 0 from the
first loop and loses it in the second, although the other slots are free. -/
theorem nameless_container_dropped : ∃ selected,
    selectTargets id (twoContainers "" "a") (fun _ => {}) {} false (fun _ => .ok []) =
      .ok selected ∧
      IsCandidate id (twoContainers "" "a") {} { cgid := 5 } ∧
      (∀ i < maxTargets, selected i ≠ { cgid := 5 }) ∧ (selected 1).active = false := by
  have hrun : selectsTwo "" "a" (fun _ => {}) fun selected =>
      (∀ i < maxTargets, selected i ≠ { cgid := 5 }) ∧
        (selected 1).active = false := by decide +kernel
  obtain ⟨selected, hselected, hcheck⟩ := selectsTwo_eq_true hrun
  have hcandidate : IsCandidate id (twoContainers "" "a") {} { cgid := 5 } :=
    ⟨⟨containerWith 5, rfl, rfl, rfl, rfl⟩, fun hhighlight => hhighlight.1 rfl⟩
  exact ⟨selected, hselected, hcandidate, of_decide_eq_true hcheck⟩

end Huatuo.SchedBlame
