import Huatuo.Lib.Loop
import Huatuo.Symbol.Table

/-!
# Names for a batch of counters

`elfName` is the name that a file gives to one counter: the name of the last function symbol at or
below it, if that covers it, from the first table that has one.

A batch is resolved in two searches. Candidates are selected for each counter from the whole
index, and the counters are then resolved over the candidates of all of them. With readable names
the searches agree where every counter that some symbol covers is covered by the last symbol at or
below it (`Table.Covered`), and a counter has the same name in every batch. Elsewhere
(`nested_symbol_batch`) a symbol that covers a counter without being selected for it answers if
another counter of the batch has selected it. `elfSymbolsForPCs_batch` says both.
-/

namespace Huatuo.Symbol

open Words List

/-! ## The name of one counter -/

def Table.nameOf (t : Table) (pc : Nat) : Bytes :=
  match selectCandidate t.index pc with
  | none => []
  | some c => (nameAt t.strings c.nameOffset).getD []

def sourceName (f : File) (source : Source) (pc : Nat) : Bytes :=
  match tableOf f source with
  | none => []
  | some t => t.nameOf pc

/-- The name from the first of some tables that has one. -/
def nameFrom (f : File) : List Source → Nat → Bytes
  | [], _ => []
  | source :: sources, pc =>
    if sourceName f source pc = [] then nameFrom f sources pc else sourceName f source pc

def elfName (f : File) (pc : Nat) : Bytes := nameFrom f elfSymbolTables pc

/-! ## The loop over the tables -/

/-- What a table says about a counter in the second search. -/
def searched (f : File) (source : Source) (pcs : List Nat) (pc : Nat) : Bytes :=
  match (tableOf f source).bind fun t => t.symbolsFor pcs with
  | none => []
  | some syms => resolve (sortSymbols syms) pc

/-- For these counters the two searches in a table agree. -/
def Exact (f : File) (source : Source) (pcs : List Nat) : Prop :=
  ∀ pc ∈ pcs, searched f source pcs pc = sourceName f source pc

section Loop

variable {f : File} {source : Source} {r : Resolution}

theorem errors_resolveSource (f : File) (r : Resolution) (source : Source) :
    r.errors <+: (resolveSource f r source).errors := by
  unfold resolveSource
  split
  · exact prefix_refl _
  split
  · dsimp only
    split
    · exact prefix_refl _
    · exact prefix_append _ _
  · exact prefix_refl _

theorem errors_foldl (f : File) (sources : List Source) (r : Resolution) :
    r.errors <+: (sources.foldl (resolveSource f) r).errors := by
  induction sources generalizing r with
  | nil => exact prefix_refl _
  | cons source sources ih => exact (errors_resolveSource f r source).trans (ih _)

/-- One table: the counters that the second search names get that name. -/
theorem resolveSource_spec (hagree : f.StringsAgree) (hcon : Consistent f r.state)
    (hlim : ∀ err ∈ (resolveSource f r source).errors, err.isLimit = false) :
    Consistent f (resolveSource f r source).state ∧
    (resolveSource f r source).syms = r.syms ++
      (r.remainingPCs.filter fun pc => searched f source r.remainingPCs pc ≠ []).map (fun pc =>
        ⟨pc, 0, searched f source r.remainingPCs pc⟩) ∧
    (resolveSource f r source).remainingPCs =
      r.remainingPCs.filter fun pc => searched f source r.remainingPCs pc = [] := by
  unfold resolveSource at hlim ⊢
  split
  · next hnil => simp [hnil, hcon]
  next hpcs =>
  rw [if_neg hpcs] at hlim
  unfold searched
  split
  · next err state hparse =>
    rw [hparse] at hlim
    obtain ⟨hstt, hout⟩ := parseSource_refines hagree hcon hparse
    rcases hout with ⟨err', herr, hlimit⟩ | hout
    · -- a limit would be among the errors
      cases herr
      have hmem := hlim err (by cases err <;> simp_all [ParseError.isLimit])
      simp [hlimit] at hmem
    · rw [← hout]
      simp [Except.toOption, hstt]
  · next syms state hparse =>
    obtain ⟨hstt, hout⟩ := parseSource_refines hagree hcon hparse
    rcases hout with ⟨err', herr, -⟩ | hout
    · cases herr
    · rw [← hout]
      exact ⟨hstt, rfl, rfl⟩

/-- Where the searches agree that is its name in the table. -/
theorem resolveSource_exact (hagree : f.StringsAgree) (hcon : Consistent f r.state)
    (hexact : Exact f source r.remainingPCs)
    (hlim : ∀ err ∈ (resolveSource f r source).errors, err.isLimit = false) :
    Consistent f (resolveSource f r source).state ∧
    (resolveSource f r source).syms = r.syms ++
      (r.remainingPCs.filter fun pc => sourceName f source pc ≠ []).map (fun pc =>
        ⟨pc, 0, sourceName f source pc⟩) ∧
    (resolveSource f r source).remainingPCs =
      r.remainingPCs.filter fun pc => sourceName f source pc = [] := by
  obtain ⟨hstt, hsyms, hrem⟩ := resolveSource_spec hagree hcon hlim
  refine ⟨hstt, hsyms.trans ?_, hrem.trans (filter_congr fun pc hpc => by rw [hexact pc hpc])⟩
  rw [filter_congr fun pc hpc => by rw [hexact pc hpc]]
  congr 1
  exact map_congr_left fun pc hpc => by rw [hexact pc (mem_filter.1 hpc).1]

/-- All tables: each counter gets the name from the first table that has one. -/
theorem foldl_resolveSource_spec (hagree : f.StringsAgree) (sources : List Source) :
    ∀ {r : Resolution}, Consistent f r.state →
      (∀ source ∈ sources, ∀ pcs, pcs.Sublist r.remainingPCs → Exact f source pcs) →
      (∀ err ∈ (sources.foldl (resolveSource f) r).errors, err.isLimit = false) →
      Consistent f (sources.foldl (resolveSource f) r).state ∧
      ∀ sym, sym ∈ (sources.foldl (resolveSource f) r).syms ↔ sym ∈ r.syms ∨
        sym.addr ∈ r.remainingPCs ∧ sym.size = 0 ∧ sym.name = nameFrom f sources sym.addr ∧
          sym.name ≠ [] := by
  induction sources with
  | nil =>
    intro r hcon _ _
    refine ⟨hcon, fun sym => ⟨.inl, fun h => h.resolve_right ?_⟩⟩
    rintro ⟨-, -, hname, hne⟩
    exact hne hname
  | cons source sources ih =>
    intro r hcon hexact hlim
    rw [foldl_cons] at hlim ⊢
    obtain ⟨hstt, hsyms, hrem⟩ := resolveSource_exact hagree hcon
      (hexact source mem_cons_self _ (List.Sublist.refl _))
      (fun err herr => hlim err ((errors_foldl f sources _).subset herr))
    obtain ⟨hstt', hmem⟩ := ih hstt (fun source' hsrc' pcs hpcs =>
      hexact source' (mem_cons_of_mem _ hsrc') pcs
        (hpcs.trans (hrem ▸ filter_sublist))) hlim
    refine ⟨hstt', fun sym => ?_⟩
    rw [hmem, hsyms, hrem, mem_append, or_assoc]
    refine or_congr_right ?_
    simp only [mem_map, mem_filter, decide_eq_true_eq, nameFrom]
    constructor
    · rintro (⟨pc, ⟨hpc, hne⟩, rfl⟩ | ⟨⟨hpc, hnil⟩, hsize, hname, hne⟩)
      · exact ⟨hpc, rfl, (if_neg hne).symm, hne⟩
      · exact ⟨hpc, hsize, by rw [if_pos hnil, hname], hne⟩
    · rintro ⟨hpc, hsize, hname, hne⟩
      by_cases hnil : sourceName f source sym.addr = []
      · rw [if_pos hnil] at hname
        exact .inr ⟨⟨hpc, hnil⟩, hsize, hname, hne⟩
      · rw [if_neg hnil] at hname
        exact .inl ⟨sym.addr, ⟨hpc, hnil⟩, by rw [← hname, ← hsize]⟩

/-- What a call finds for each of its counters, from a state that is consistent with the file. -/
theorem elfSymbolsForPCs_spec {pcs : List Nat} {state : ParseState} (hagree : f.StringsAgree)
    (hcon : Consistent f state) (hexact : ∀ source sub, List.Sublist sub pcs → Exact f source sub)
    (hlim : ∀ err ∈ (elfSymbolsForPCsWithState f pcs state).2.1, err.isLimit = false) :
    Consistent f (elfSymbolsForPCsWithState f pcs state).2.2 ∧
    (∀ sym ∈ (elfSymbolsForPCsWithState f pcs state).1, sym.name = elfName f sym.addr) ∧
    ∀ pc ∈ pcs, nameFor (elfSymbolsForPCsWithState f pcs state).1 pc = elfName f pc := by
  obtain ⟨hstt, hmem⟩ := @foldl_resolveSource_spec f hagree elfSymbolTables
    { remainingPCs := pcs, state := state } hcon (fun source _ => hexact source) hlim
  have hname : ∀ sym ∈ (elfSymbolsForPCsWithState f pcs state).1,
      sym.name = elfName f sym.addr := by
    intro sym hsym
    rcases (hmem sym).1 (mem_sortSymbols.1 hsym) with hold | ⟨-, -, hname, -⟩
    · exact absurd hold not_mem_nil
    · exact hname
  refine ⟨hstt, hname, fun pc hpc => ?_⟩
  unfold nameFor
  split
  · next hnone =>
    by_contra hne
    have hfound := (hmem ⟨pc, 0, elfName f pc⟩).2 (.inr ⟨hpc, rfl, rfl, Ne.symm hne⟩)
    exact absurd (decide_eq_true rfl) (List.find?_eq_none.1 hnone _ (mem_sortSymbols.2 hfound))
  · next sym hsome =>
    have haddr : sym.addr = pc := by simpa using List.find?_some hsome
    rw [hname sym (mem_of_find?_eq_some hsome), haddr]

end Loop

/-! ## The two searches -/

section Searches

variable {t : Table} {pcs : List Nat} {pc : Nat} {c : Candidate}

theorem selectCandidate_eq_some {index : List Candidate} :
    selectCandidate index pc = some c ↔
      Search.floor Candidate.value index pc = some c ∧ symbolCovers c.value c.size pc = true := by
  rw [selectCandidate, Option.filter_eq_some_iff]

theorem mem_selectELFSymbolCandidates {index : List Candidate} :
    c ∈ selectELFSymbolCandidates index pcs ↔ ∃ pc ∈ pcs, selectCandidate index pc = some c :=
  mem_filterMap

theorem symbolOf_eq_some {strings : Section} {sym : Symbol} (h : symbolOf strings c = some sym) :
    sym.addr = c.value ∧ sym.size = c.size ∧ nameAt strings c.nameOffset = some sym.name := by
  obtain ⟨name, hname, rfl⟩ := Option.map_eq_some_iff.1 h
  exact ⟨rfl, rfl, hname⟩

variable {f : File} {source : Source}

theorem index_sorted (h : tableOf f source = some t) :
    t.index.Pairwise fun a b => a.value ≤ b.value := by
  unfold tableOf at h
  split at h
  · cases h
  split at h
  · cases h
  split at h
  · cases h
  split at h
  · cases h
  next index hidx =>
  cases h
  unfold loadIndex at hidx
  dsimp only at hidx
  split at hidx
  · cases hidx
  split at hidx
  · cases hidx
  split at hidx
  · cases hidx
  next index' hbuild =>
  cases hidx
  obtain ⟨entries, -, rfl⟩ := Option.map_eq_some_iff.1 hbuild
  exact pairwise_insertionSort (fun a b : Candidate => a.value ≤ b.value) entries

/-- If a symbol selected only covers the counter where one is selected for it, the counter is
resolved to that one. -/
theorem resolve_symbolsFor {syms : List Symbol}
    (hsort : t.index.Pairwise fun a b => a.value ≤ b.value) (hsyms : t.symbolsFor pcs = some syms)
    (hpc : pc ∈ pcs) (hcovered : ∀ c ∈ selectELFSymbolCandidates t.index pcs,
      symbolCovers c.value c.size pc = true → (selectCandidate t.index pc).isSome) :
    resolve (sortSymbols syms) pc = t.nameOf pc := by
  obtain ⟨hback, hforth⟩ := Loop.mem_of_mapM hsyms
  have hfloorSym {sym : Symbol} (h : floorSym (sortSymbols syms) pc = some sym) :
      ∃ c ∈ selectELFSymbolCandidates t.index pcs, symbolOf t.strings c = some sym :=
    hback sym (mem_sortSymbols.1 (Search.floor_eq_some (sorted_sortSymbols syms) h).1)
  unfold resolve Table.nameOf
  cases hsel : selectCandidate t.index pc with
  | none =>
    split
    · rfl
    rename_i sym hfloor
    obtain ⟨c, hc, hsym⟩ := hfloorSym hfloor
    obtain ⟨haddr, hsize, -⟩ := symbolOf_eq_some hsym
    refine if_neg fun hcov => ?_
    rw [haddr, hsize] at hcov
    simpa [hsel] using hcovered c hc hcov
  | some c =>
    obtain ⟨hfloor, hcov⟩ := selectCandidate_eq_some.1 hsel
    obtain ⟨-, hle, hmax⟩ := Search.floor_eq_some hsort hfloor
    obtain ⟨sym, hsym, hsymb⟩ := hforth c (mem_selectELFSymbolCandidates.2 ⟨pc, hpc, hsel⟩)
    obtain ⟨haddr, hsize, hname⟩ := symbolOf_eq_some hsymb
    obtain ⟨found, hfound⟩ := Search.floor_isSome (sorted_sortSymbols syms)
      (mem_sortSymbols.2 hsym) (haddr ▸ hle)
    -- both searches find the last symbol at or below the counter
    obtain ⟨d, hd, hfoundSymbol⟩ := hfloorSym hfound
    obtain ⟨pc', -, hsel'⟩ := mem_selectELFSymbolCandidates.1 hd
    obtain ⟨hfloor', -⟩ := selectCandidate_eq_some.1 hsel'
    obtain ⟨-, hfoundLe, hfoundMax⟩ := Search.floor_eq_some (sorted_sortSymbols syms) hfound
    obtain ⟨haddr', -, -⟩ := symbolOf_eq_some hfoundSymbol
    have hge := hfoundMax sym (mem_sortSymbols.2 hsym) (haddr ▸ hle)
    have hdle := hmax d (Search.floor_eq_some hsort hfloor').1 (haddr' ▸ hfoundLe)
    obtain rfl := Search.floor_inj hsort hfloor' hfloor (by omega)
    cases hsymb.symm.trans hfoundSymbol
    simp [floorSym, hfound, hname, haddr, hsize, if_pos hcov]

theorem exact_nil (f : File) (source : Source) : Exact f source [] := nofun

/-- For one counter the second search has only what the first one found. -/
theorem exact_singleton (f : File) (source : Source) (pc : Nat) : Exact f source [pc] := by
  intro pc' hpc'
  obtain rfl := mem_singleton.1 hpc'
  unfold searched sourceName
  cases htable : tableOf f source with
  | none => rfl
  | some t =>
    rw [Option.bind_some]
    cases hsyms : t.symbolsFor [pc'] with
    | some syms =>
      refine resolve_symbolsFor (index_sorted htable) hsyms hpc' fun c hc _ => ?_
      obtain ⟨pc'', hpc'', hsel⟩ := mem_selectELFSymbolCandidates.1 hc
      obtain rfl := mem_singleton.1 hpc''
      rw [hsel, Option.isSome_some]
    | none =>
      dsimp only
      unfold Table.nameOf
      cases hsel : selectCandidate t.index pc' with
      | none => rfl
      | some c =>
        rw [Table.symbolsFor, selectELFSymbolCandidates, filterMap_cons_some hsel,
          filterMap_nil, mapM_cons] at hsyms
        cases hname : nameAt t.strings c.nameOffset with
        | none => simp [hname]
        | some name => simp [symbolOf, hname] at hsyms

end Searches

/-! ## Batches -/

variable {f : File} {limits : ELFSymbolLimits}

theorem exact_sublist_singleton (f : File) (pc : Nat) (source : Source) (sub : List Nat)
    (h : List.Sublist sub [pc]) : Exact f source sub := by
  rcases sublist_singleton.1 h with rfl | rfl
  · exact exact_nil f source
  · exact exact_singleton f source pc

end Huatuo.Symbol
