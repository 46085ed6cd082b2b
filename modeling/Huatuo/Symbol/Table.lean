import Huatuo.Symbol.Elf

/-!
# Symbol tables without a state

What a file says about its symbols, apart from what has been read of it: `tableOf` is a symbol
table with its index, `nameAt` the name at an offset of the string table, and `Table.symbolsFor`
the symbols selected for some counters, or nothing if one of their names cannot be read.

A state is `Consistent` with a file if what it has cached is what the file says.
`parseSource_refines` — from a consistent state a call returns what the tables say or reaches a
limit, and the state stays consistent. Names are cached by the type, offset and size of their
string table, which has to determine the strings (`File.StringsAgree`): a compressed section may
share all three with one that is not.
-/

namespace Huatuo.Symbol

open Words List Option

structure Table where
  index : List Candidate
  strings : Section
  deriving DecidableEq, Repr

def tableOf (f : File) (source : Source) : Option Table :=
  match elfSymbolTableSections f source with
  | .error _ => none
  | .ok (symbols, strings) =>
    match symbolSizeOf f.elfClass with
    | none => none
    | some symbolSize =>
      if symbols.size = 0 ∨ symbols.size % symbolSize ≠ 0 then none
      else
        match loadIndex f symbols symbolSize with
        | .error _ => none
        | .ok index => some ⟨index, strings.opened⟩

/-- The string at an offset, without its NUL. -/
def nameAt (strings : Section) (offset : Nat) : Option Bytes :=
  if strings.size ≤ offset ∨ strings.seekFails offset = true then none
  else
    let name := (strings.bytes.drop offset).take (strings.size - offset)
    if 0 ∈ name then some (name.takeWhile (· ≠ 0)) else none

def symbolOf (strings : Section) (c : Candidate) : Option Symbol :=
  (nameAt strings c.nameOffset).map fun name => ⟨c.value, c.size, name⟩

def Table.symbolsFor (t : Table) (pcs : List Nat) : Option (List Symbol) :=
  (selectELFSymbolCandidates t.index pcs).mapM (symbolOf t.strings)

/-! ## Reading names -/

variable {strings : Section}

/-- A name is read as it stands in the table, unless a limit is in the way. -/
theorem readELFSymbolName_refines {offset : Nat} (limit : Nat) (hoff : offset < strings.size) :
    (∃ err, readELFSymbolName strings offset limit = .error err ∧ err.isLimit = true) ∨
      (readELFSymbolName strings offset limit).toOption = nameAt strings offset := by
  unfold readELFSymbolName nameAt
  split
  · exact .inl ⟨_, rfl, rfl⟩
  next hlimit =>
  split
  · next hseek =>
    rw [if_pos (.inr hseek)]
    exact .inr rfl
  next hseek =>
  rw [if_neg (not_or.2 ⟨Nat.not_le.2 hoff, hseek⟩)]
  dsimp only
  have hle : min (strings.size - offset) (limit + 1) ≤ strings.size - offset := Nat.min_le_left _ _
  split
  · next hnul =>
    have hmem : 0 ∈ (strings.bytes.drop offset).take (strings.size - offset) :=
      (take_prefix_take_left hle).subset hnul
    rw [if_pos hmem, takeWhile_take_of_mem hle hnul]
    exact .inr rfl
  next hnul =>
  split
  · exact .inl ⟨_, rfl, rfl⟩
  next hlen =>
  -- fewer bytes than asked for: the section ends here, and holds no NUL behind the offset
  have hall : (strings.bytes.drop offset).take (strings.size - offset) =
      (strings.bytes.drop offset).take (min (strings.size - offset) (limit + 1)) := by
    rw [length_take] at hlen
    rw [take_eq_take_iff]
    omega
  rw [hall, if_neg hnul]
  exact .inr rfl

theorem resolveCandidateName_refines {state state' : ParseState} {offset nameBytes : Nat}
    {out : Except ParseError Bytes}
    (h : resolveCandidateName state strings offset nameBytes = (out, state')) :
    state'.names = state.names ∧ state'.indexes = state.indexes ∧
    ((∃ err, out = .error err ∧ err.isLimit = true) ∨ out.toOption = nameAt strings offset) := by
  unfold resolveCandidateName at h
  split at h
  · next hoff =>
    cases h
    refine ⟨rfl, rfl, .inr ?_⟩
    rw [nameAt, if_pos (.inl hoff)]
    rfl
  next hoff =>
  dsimp only at h
  split at h
  · cases h
    exact ⟨rfl, rfl, .inl ⟨_, rfl, rfl⟩⟩
  obtain ⟨rfl, rfl⟩ := Prod.mk.inj h
  refine ⟨by split <;> rfl, by split <;> rfl, ?_⟩
  exact readELFSymbolName_refines _ (Nat.not_le.1 hoff)

/-- The names cached for a string table are those in it. -/
def NamesAgree (state : ParseState) (strings : Section) : Prop :=
  ∀ offset name, ((sectionKey strings, offset), name) ∈ state.names →
    nameAt strings offset = some name

/-- How the loop ends that has the symbols `result` so far: at a limit, at a name that cannot be
read, or with a symbol for every candidate. -/
def Materializes (strings : Section) (candidates : List Candidate) (result : List Symbol)
    (out : Except ParseError Materialized) : Prop :=
  (∃ err, out = .error err ∧ (err.isLimit = true ∨ candidates.mapM (symbolOf strings) = none)) ∨
  ∃ acc syms, out = .ok acc ∧ candidates.mapM (symbolOf strings) = some syms ∧
    acc.result = result ++ syms ∧ ∀ entry ∈ acc.pending, nameAt strings entry.1 = some entry.2

theorem Materializes.cons {matched : Candidate} {candidates : List Candidate} {result : List Symbol}
    {out : Except ParseError Materialized} {name : Bytes}
    (hname : nameAt strings matched.nameOffset = some name)
    (h : Materializes strings candidates (result ++ [⟨matched.value, matched.size, name⟩]) out) :
    Materializes strings (matched :: candidates) result out := by
  have hsym : symbolOf strings matched = some ⟨matched.value, matched.size, name⟩ := by
    rw [symbolOf, hname, map_some]
  have hmap : (matched :: candidates).mapM (symbolOf strings) =
      (candidates.mapM (symbolOf strings)).map (⟨matched.value, matched.size, name⟩ :: ·) := by
    rw [mapM_cons, hsym]
    cases candidates.mapM (symbolOf strings) <;> rfl
  rcases h with ⟨err, hout, herr⟩ | ⟨acc, syms, hout, hsyms, hresu, hpend⟩
  · exact .inl ⟨err, hout, herr.imp_right fun hnone => by rw [hmap, hnone, map_none]⟩
  · refine .inr ⟨acc, _ :: syms, hout, by rw [hmap, hsyms, map_some], ?_, hpend⟩
    rw [hresu, append_assoc, singleton_append]

theorem materialize_refines (candidates : List Candidate) :
    ∀ {acc : Materialized} {state state' : ParseState} {out : Except ParseError Materialized},
      NamesAgree state strings → (∀ entry ∈ acc.pending, nameAt strings entry.1 = some entry.2) →
      materializeELFSymbolCandidates strings candidates acc state = (out, state') →
      state'.names = state.names ∧ state'.indexes = state.indexes ∧
      Materializes strings candidates acc.result out := by
  induction candidates with
  | nil =>
    intro acc state state' out _ hpend h
    cases h
    exact ⟨rfl, rfl, .inr ⟨acc, [], rfl, rfl, (append_nil _).symm, hpend⟩⟩
  | cons matched candidates ih =>
    intro acc state state' out hagree hpend h
    rw [materializeELFSymbolCandidates] at h
    split at h
    · next name hname =>
      have hat : nameAt strings matched.nameOffset = some name := by
        rcases or_eq_some_iff.1 hname with hcac | ⟨-, hwai⟩
        · exact hagree _ _ (mem_of_lookup hcac)
        · exact hpend _ (mem_of_lookup hwai)
      obtain ⟨hnames, hidxs, hout⟩ := ih hagree (by exact hpend) h
      exact ⟨hnames, hidxs, hout.cons hat⟩
    · split at h
      · next err state₁ hres =>
        cases h
        obtain ⟨hnames, hidxs, hout⟩ := resolveCandidateName_refines hres
        refine ⟨hnames, hidxs, .inl ⟨err, rfl, ?_⟩⟩
        rcases hout with ⟨err', herr, hlimit⟩ | hnone
        · cases herr
          exact .inl hlimit
        · have hsym : symbolOf strings matched = none := by
            rw [symbolOf, ← hnone]
            rfl
          rw [mapM_cons, hsym]
          exact .inr rfl
      · next name state₁ hres =>
        obtain ⟨hnames, hidxs, hout⟩ := resolveCandidateName_refines hres
        have hat : nameAt strings matched.nameOffset = some name := by
          rcases hout with ⟨err, herr, -⟩ | hsome
          · cases herr
          · rw [← hsome]
            rfl
        have hagree' : NamesAgree state₁ strings := fun offset other hmem =>
          hagree offset other (hnames ▸ hmem)
        obtain ⟨hnames', hidxs', hout'⟩ := ih hagree'
          (by exact forall_mem_cons.2 ⟨hat, hpend⟩) h
        exact ⟨hnames'.trans hnames, hidxs'.trans hidxs, hout'.cons hat⟩

/-! ## A call -/

/-- The string tables of a file that have one key hold the same strings. -/
def File.StringsAgree (f : File) : Prop :=
  ∀ source source' symbols strings symbols' strings',
    elfSymbolTableSections f source = .ok (symbols, strings) →
    elfSymbolTableSections f source' = .ok (symbols', strings') →
    sectionKey strings.opened = sectionKey strings'.opened →
    nameAt strings.opened = nameAt strings'.opened

/-- What a state has cached is what the file says. -/
structure Consistent (f : File) (state : ParseState) : Prop where
  indexes : ∀ source symbols strings index,
    elfSymbolTableSections f source = .ok (symbols, strings) →
    (sectionKey symbols, index) ∈ state.indexes →
    tableOf f source = some ⟨index, strings.opened⟩
  names : ∀ source symbols strings, elfSymbolTableSections f source = .ok (symbols, strings) →
    NamesAgree state strings.opened

theorem consistent_new (f : File) (limits : ELFSymbolLimits) :
    Consistent f (newELFSymbolParseState limits) where
  indexes := fun _ _ _ _ _ h => absurd h not_mem_nil
  names := fun _ _ _ _ _ _ h => absurd h not_mem_nil

section Calls

variable {f : File} {state state' : ParseState} {source : Source} {pcs : List Nat}

theorem Consistent.congr (h : Consistent f state) (hnames : state'.names = state.names)
    (hidxs : state'.indexes = state.indexes) : Consistent f state' where
  indexes := fun source symbols strings index hsec hmem =>
    h.indexes source symbols strings index hsec (hidxs ▸ hmem)
  names := fun source symbols strings hsec offset name hmem =>
    h.names source symbols strings hsec offset name (hnames ▸ hmem)

variable {symbols strings : Section}

theorem checkSymbolLimits_refines :
    (∃ err, checkSymbolLimits state f symbols = .error err ∧ (err.isLimit = true ∨
      ∀ symbolSize, symbolSizeOf f.elfClass = some symbolSize →
        symbols.size = 0 ∨ symbols.size % symbolSize ≠ 0)) ∨
    ∃ symbolSize metadataBytes symbolCount,
      checkSymbolLimits state f symbols = .ok (symbolSize, metadataBytes, symbolCount) ∧
      symbolSizeOf f.elfClass = some symbolSize ∧
      ¬ (symbols.size = 0 ∨ symbols.size % symbolSize ≠ 0) := by
  unfold checkSymbolLimits
  split
  · next hclass => exact .inl ⟨_, rfl, .inr fun symbolSize hsize => by simp [hsize] at hclass⟩
  next symbolSize hclass =>
  split
  · next hshape =>
    refine .inl ⟨_, rfl, .inr fun symbolSize' hsize => ?_⟩
    rw [hsize] at hclass
    cases hclass
    exact hshape
  next hshape =>
  dsimp only
  split
  · exact .inr ⟨_, _, _, rfl, hclass, hshape⟩
  split
  · exact .inl ⟨_, rfl, .inl rfl⟩
  split
  · exact .inl ⟨_, rfl, .inl rfl⟩
  · exact .inr ⟨_, _, _, rfl, hclass, hshape⟩

theorem tableOf_eq {symbolSize : Nat}
    (hsec : elfSymbolTableSections f source = .ok (symbols, strings))
    (hclass : symbolSizeOf f.elfClass = some symbolSize)
    (hshape : ¬ (symbols.size = 0 ∨ symbols.size % symbolSize ≠ 0)) :
    tableOf f source = (loadIndex f symbols symbolSize).toOption.map (⟨·, strings.opened⟩) := by
  simp only [tableOf, hsec, hclass, if_neg hshape]
  cases loadIndex f symbols symbolSize <;> rfl

theorem elfSymbolTableSections_typ (h : elfSymbolTableSections f source = .ok (symbols, strings)) :
    symbols.typ = source.typ := by
  unfold elfSymbolTableSections at h
  split at h
  · cases h
  next found hfind =>
  split at h
  · cases h
  split at h
  · cases h
  split at h <;> cases h
  simpa using List.find?_some hfind

/-- Symbol sections of different tables have different keys. -/
theorem source_eq_of_sectionKey {source' : Source} {symbols' strings' : Section}
    (h : elfSymbolTableSections f source = .ok (symbols, strings))
    (h' : elfSymbolTableSections f source' = .ok (symbols', strings'))
    (hkey : sectionKey symbols = sectionKey symbols') : source = source' := by
  have htyp : source.typ = source'.typ := by
    rw [← elfSymbolTableSections_typ h, ← elfSymbolTableSections_typ h']
    exact congrArg SectionKey.typ hkey
  cases source <;> cases source' <;> first | rfl | cases htyp

theorem Consistent.publish {index : List Candidate} {symbolCount : Nat} {names : Materialized}
    (hagree : f.StringsAgree) (hcon : Consistent f state)
    (hsec : elfSymbolTableSections f source = .ok (symbols, strings))
    (htable : tableOf f source = some ⟨index, strings.opened⟩)
    (hnames : ∀ entry ∈ names.pending, nameAt strings.opened entry.1 = some entry.2) :
    Consistent f (state.publish symbols strings.opened index symbolCount names) where
  indexes := by
    intro source' symbols' strings' index' hsec' hmem
    simp only [ParseState.publish] at hmem
    split at hmem
    · exact hcon.indexes _ _ _ _ hsec' hmem
    · rcases mem_cons.1 hmem with heq | hmem
      · obtain ⟨hkey, rfl⟩ := Prod.mk.inj heq
        obtain rfl := source_eq_of_sectionKey hsec' hsec hkey
        cases hsec.symm.trans hsec'
        exact htable
      · exact hcon.indexes _ _ _ _ hsec' hmem
  names := by
    intro source' symbols' strings' hsec' offset name hmem
    rcases mem_append.1 hmem with hmem | hmem
    · obtain ⟨entry, hent, heq⟩ := mem_map.1 hmem
      obtain ⟨hplace, rfl⟩ := Prod.mk.inj heq
      obtain ⟨hkey, hoff⟩ := Prod.mk.inj hplace
      rw [← hoff, ← hagree _ _ _ _ _ _ hsec hsec' hkey]
      exact hnames entry hent
    · exact hcon.names _ _ _ hsec' offset name hmem

/-- A call returns what the tables say, or reaches a limit. -/
theorem parseSource_refines {out : Except ParseError (List Symbol)} (hagree : f.StringsAgree)
    (hcon : Consistent f state) (h : parseSource state f source pcs = (out, state')) :
    Consistent f state' ∧ ((∃ err, out = .error err ∧ err.isLimit = true) ∨
      out.toOption = (tableOf f source).bind fun t => t.symbolsFor pcs) := by
  unfold parseSource at h
  split at h
  · next err hsec =>
    cases h
    exact ⟨hcon, .inr (by rw [tableOf, hsec]; rfl)⟩
  next symbols strings hsec =>
  split at h
  · next err hcheck =>
    cases h
    refine ⟨hcon, ?_⟩
    rcases checkSymbolLimits_refines with ⟨err', herr, hlimit | hshape⟩ | ⟨_, _, _, hok, -⟩
    · rw [hcheck] at herr
      cases herr
      exact .inl ⟨err, rfl, hlimit⟩
    · refine .inr ?_
      simp only [tableOf, hsec]
      split
      · rfl
      rename_i symbolSize hclass
      rw [if_pos (hshape symbolSize hclass)]
      rfl
    · simp [hcheck] at hok
  next symbolSize metadataBytes symbolCount hcheck =>
  have htable : tableOf f source =
      (loadIndex f symbols symbolSize).toOption.map (⟨·, strings.opened⟩) := by
    rcases checkSymbolLimits_refines with ⟨err', herr, -⟩ | ⟨_, _, _, hok, hclass, hshape⟩
    · rw [hcheck] at herr
      cases herr
    · rw [hcheck] at hok
      cases hok
      exact tableOf_eq hsec hclass hshape
  split at h
  · next err hidx =>
    cases h
    refine ⟨hcon, .inr ?_⟩
    cases hlk : state.indexes.lookup (sectionKey symbols) with
    | some cached =>
      simp [hlk] at hidx
    | none =>
      rw [hlk, elim_none] at hidx
      rw [htable, hidx]
      rfl
  next index hidx =>
  have htable' : tableOf f source = some ⟨index, strings.opened⟩ := by
    cases hlk : state.indexes.lookup (sectionKey symbols) with
    | some cached =>
      rw [hlk] at hidx
      cases hidx
      exact hcon.indexes _ _ _ _ hsec (mem_of_lookup hlk)
    | none =>
      rw [hlk, elim_none] at hidx
      rw [htable, hidx]
      rfl
  have hnamesAgree := hcon.names _ _ _ hsec
  rw [htable', bind_some]
  split at h
  · next err read hread =>
    obtain ⟨hnames, hidxs, hout⟩ := materialize_refines _ (by exact hnamesAgree)
      (by exact fun _ hmem => absurd hmem not_mem_nil) hread
    cases h
    refine ⟨hcon.congr hnames hidxs, ?_⟩
    rcases hout with ⟨err', herr, hlimit | hnone⟩ | ⟨acc, syms, hok, -⟩
    · cases herr
      exact .inl ⟨err, rfl, hlimit⟩
    · exact .inr hnone.symm
    · cases hok
  · next names read hread =>
    obtain ⟨hnames, hidxs, hout⟩ := materialize_refines _ (by exact hnamesAgree)
      (by exact fun _ hmem => absurd hmem not_mem_nil) hread
    cases h
    rcases hout with ⟨err', herr, -⟩ | ⟨acc, syms, hok, hsyms, hresu, hpend⟩
    · cases herr
    · cases hok
      refine ⟨(hcon.congr hnames hidxs).publish hagree hsec htable' hpend, .inr ?_⟩
      rw [Table.symbolsFor, hsyms, hresu]
      rfl

end Calls

end Huatuo.Symbol
