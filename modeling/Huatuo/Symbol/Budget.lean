import Huatuo.Symbol.Elf

/-!
# The budgets of a parse state

A state is used by one call of `parseSource` after another, on files and sections that may be
malformed. Metadata is reserved before names are read and given back when that fails; compressed
string tables charge the same budget in between, and what they charge is not given back.

`Budget` is the invariant: every counter is within its limit, and the counters agree with what is
cached. Names that have been read and not yet published count towards the limit (`Pending`), so
that no remaining budget is below zero. `Budget.parseSource` — every call keeps it.

The number of index entries is bounded by the symbols counted as long as opening the symbol
section leaves its size alone. The size is checked before the section is opened, so that a
`.zdebug` section is counted by its size in the file and indexed by the size in its header
(`zdebug_uncounted`).
-/

namespace Huatuo.Symbol

open Words List

/-! ## Reading a name -/

theorem readELFSymbolName_length {strings : Section} {offset limit : Nat} {name : Bytes}
    (h : readELFSymbolName strings offset limit = .ok name) : name.length ≤ limit := by
  unfold readELFSymbolName at h
  split at h
  · cases h
  split at h
  · cases h
  dsimp only at h
  split at h
  · next hnul =>
    cases h
    have hlt := length_takeWhile_lt hnul
    rw [length_take] at hlt
    omega
  · split at h <;> cases h

/-- What one name read from a string table charges. -/
def decompressionCharge (strings : Section) : Nat :=
  if isCompressedELFSection strings then strings.size else 0

/-- The limits are `uint64` values. -/
structure ELFSymbolLimits.InRange (limits : ELFSymbolLimits) : Prop where
  metadata : limits.maxMetadataBytes < 2 ^ 64
  symbols : limits.maxSymbolAndCacheCount < 2 ^ 64
  names : limits.maxNameBytes < 2 ^ 64

/-- The names that wait for publication: counted, within the limit, and all of them new. -/
structure Pending (state : ParseState) (key : SectionKey) (acc : Materialized) : Prop where
  total : acc.nameBytes = (acc.pending.map fun entry => entry.2.length).sum
  limit : state.nameBytes + acc.nameBytes ≤ state.limits.maxNameBytes
  nodup : (acc.pending.map Prod.fst).Nodup
  fresh : ∀ offset ∈ acc.pending.map Prod.fst, (key, offset) ∉ state.names.map Prod.fst

section Names

variable {state state' : ParseState} {strings : Section}

/-- At most one charge, within the budget, and a name that fits the remaining bytes. -/
theorem resolveCandidateName_spec {nameOffset nameBytes : Nat} {out : Except ParseError Bytes}
    (hrg : state.limits.InRange) (hmet : state.metadataBytes ≤ state.limits.maxMetadataBytes)
    (hnames : state.nameBytes + nameBytes ≤ state.limits.maxNameBytes)
    (h : resolveCandidateName state strings nameOffset nameBytes = (out, state')) :
    (∃ k, k ≤ 1 ∧ state' = state.charge (k * decompressionCharge strings)) ∧
    state'.metadataBytes ≤ state.limits.maxMetadataBytes ∧
    ∀ name, out = .ok name → state.nameBytes + (nameBytes + name.length) ≤
      state.limits.maxNameBytes := by
  have hsame : ∃ k, k ≤ 1 ∧ state = state.charge (k * decompressionCharge strings) :=
    ⟨0, by omega, by simp⟩
  unfold resolveCandidateName at h
  split at h
  · cases h
    exact ⟨hsame, hmet, nofun⟩
  dsimp only at h
  split at h
  · cases h
    exact ⟨hsame, hmet, nofun⟩
  next hcha =>
  have hrest : sub64 (sub64 state.limits.maxNameBytes state.nameBytes) nameBytes =
      state.limits.maxNameBytes - state.nameBytes - nameBytes := by
    have hnamesRange := hrg.names
    rw [sub64_of_le (by omega) hnamesRange, sub64_of_le (by omega) (by omega)]
  have hlim : (if isCompressedELFSection strings = true then state.charge strings.size
      else state).limits = state.limits := by split <;> rfl
  rw [sub64_of_le hmet hrg.metadata] at hcha
  rw [hrest, hlim] at h
  obtain ⟨hout, hstt⟩ := Prod.mk.inj h
  refine ⟨⟨1, Nat.le_refl 1, ?_⟩, ?_, fun name hname => ?_⟩
  · rw [← hstt, decompressionCharge]
    split <;> simp
  · rw [← hstt]
    split
    · next hcom =>
      have hfits := Nat.le_of_not_lt fun hgt => hcha ⟨hcom, hgt⟩
      rw [metadataBytes_charge]
      omega
    · exact hmet
  · have hlen := readELFSymbolName_length (hout.trans hname)
    split at hlen <;> omega

/-- The loop: charges within the budget, and names that are counted as they are read. -/
theorem materialize_spec (candidates : List Candidate) :
    ∀ {acc : Materialized} {state state' : ParseState} {out : Except ParseError Materialized},
      Pending state (sectionKey strings) acc → state.limits.InRange →
      state.metadataBytes ≤ state.limits.maxMetadataBytes →
      materializeELFSymbolCandidates strings candidates acc state = (out, state') →
      (∃ k, k ≤ candidates.length ∧ state' = state.charge (k * decompressionCharge strings)) ∧
      state'.metadataBytes ≤ state.limits.maxMetadataBytes ∧
      ∀ acc', out = .ok acc' → Pending state (sectionKey strings) acc' := by
  induction candidates with
  | nil =>
    intro acc state state' out hpend _ hmet h
    cases h
    exact ⟨⟨0, Nat.le_refl 0, by simp⟩, hmet, fun acc' h => by cases h; exact hpend⟩
  | cons matched candidates ih =>
    intro acc state state' out hpend hrg hmet h
    rw [materializeELFSymbolCandidates] at h
    split at h
    · next name _ =>
      have hpend' : Pending state (sectionKey strings)
          { acc with result := acc.result ++ [⟨matched.value, matched.size, name⟩] } :=
        ⟨hpend.total, hpend.limit, hpend.nodup, hpend.fresh⟩
      obtain ⟨⟨k, hk, hstt⟩, hle, hout⟩ := ih hpend' hrg hmet h
      exact ⟨⟨k, Nat.le_succ_of_le hk, hstt⟩, hle, hout⟩
    · next hmis =>
      obtain ⟨hcac, hwai⟩ := Option.or_eq_none_iff.1 hmis
      split at h
      · next err state₁ hres =>
        cases h
        obtain ⟨⟨k, hk, hstt⟩, hle, -⟩ :=
          resolveCandidateName_spec hrg hmet hpend.limit hres
        exact ⟨⟨k, by rw [length_cons]; omega, hstt⟩, hle, nofun⟩
      · next name state₁ hres =>
        obtain ⟨⟨k, hk, rfl⟩, hle, hname⟩ :=
          resolveCandidateName_spec hrg hmet hpend.limit hres
        have hpend' : Pending (state.charge (k * decompressionCharge strings))
            (sectionKey strings)
            { result := acc.result ++ [⟨matched.value, matched.size, name⟩]
              nameBytes := acc.nameBytes + name.length
              pending := (matched.nameOffset, name) :: acc.pending } :=
          { total := by simp [hpend.total, Nat.add_comm]
            limit := hname name rfl
            nodup := nodup_cons.2 ⟨lookup_eq_none.1 hwai, hpend.nodup⟩
            fresh := forall_mem_cons.2 ⟨lookup_eq_none.1 hcac, hpend.fresh⟩ }
        obtain ⟨⟨k', hk', hstt⟩, hle', hout⟩ := ih hpend' hrg hle h
        refine ⟨⟨k + k', by rw [length_cons]; omega, ?_⟩, hle', fun acc' hacc' => ?_⟩
        · rw [hstt, charge_charge, Nat.add_mul]
        · obtain ⟨htotal, hlimit, hnd, hfresh⟩ := hout acc' hacc'
          exact ⟨htotal, hlimit, hnd, hfresh⟩

end Names

/-! ## One call -/

structure Budget (state : ParseState) : Prop where
  metadata : state.metadataBytes ≤ state.limits.maxMetadataBytes
  symbols : state.symbolCount ≤ state.limits.maxSymbolAndCacheCount
  names : state.nameBytes ≤ state.limits.maxNameBytes
  nameTotal : state.nameBytes = (state.names.map fun entry => entry.2.length).sum
  nodupNames : (state.names.map Prod.fst).Nodup
  nodupIndexes : (state.indexes.map Prod.fst).Nodup
  /-- the sections counted are those with an index -/
  counted : ∀ key, key ∈ state.metadataSections ↔ key ∈ state.indexes.map Prod.fst

/-- The entries of all indexes. -/
def ParseState.indexEntries (state : ParseState) : Nat :=
  (state.indexes.map fun entry => entry.2.length).sum

section Calls

variable {state state' : ParseState} {f : File} {source : Source} {pcs : List Nat}

theorem budget_new (limits : ELFSymbolLimits) : Budget (newELFSymbolParseState limits) where
  metadata := Nat.zero_le _
  symbols := Nat.zero_le _
  names := Nat.zero_le _
  nameTotal := rfl
  nodupNames := nodup_nil
  nodupIndexes := nodup_nil
  counted := fun _ => Iff.rfl

variable {symbols : Section}

/-- A section is counted once, and within the limits. -/
theorem checkSymbolLimits_spec {symbolSize metadataBytes symbolCount : Nat}
    (hrg : state.limits.InRange)
    (hbud : Budget state)
    (h : checkSymbolLimits state f symbols = .ok (symbolSize, metadataBytes, symbolCount)) :
    symbols.size ≠ 0 ∧ symbols.size % symbolSize = 0 ∧ 0 < symbolSize ∧
    state.metadataBytes + metadataBytes ≤ state.limits.maxMetadataBytes ∧
    state.symbolCount + symbolCount ≤ state.limits.maxSymbolAndCacheCount ∧
    (sectionKey symbols ∉ state.metadataSections →
      symbolCount = symbols.size / symbolSize - 1) := by
  unfold checkSymbolLimits at h
  split at h
  · cases h
  next size hsize =>
  have hpos : 0 < size := by
    cases hclass : f.elfClass <;> rw [hclass] at hsize <;> cases hsize <;> decide
  split at h
  · cases h
  next hshape =>
  rw [not_or, not_not] at hshape
  dsimp only at h
  split at h
  · next hmem =>
    cases h
    exact ⟨hshape.1, hshape.2, hpos, hbud.metadata, hbud.symbols, fun hnot => absurd hmem hnot⟩
  split at h
  · cases h
  next hcnt =>
  split at h
  · cases h
  next hmet =>
  cases h
  rw [not_or, sub64_of_le hbud.symbols hrg.symbols] at hcnt
  rw [sub64_of_le hbud.metadata hrg.metadata] at hmet
  have hmetadataLe := hbud.metadata
  have hsymbolsLe := hbud.symbols
  exact ⟨hshape.1, hshape.2, hpos, by omega, by omega, fun _ => rfl⟩

theorem length_entryOffsets (length symbolSize : Nat) :
    (entryOffsets length symbolSize).length = (length - 1) / symbolSize := by
  simp [entryOffsets]

/-- An index has no more entries than the data of the section has symbols. -/
theorem loadIndex_length {symbolSize : Nat} {index : List Candidate}
    (h : loadIndex f symbols symbolSize = .ok index) :
    index.length ≤ (symbols.opened.size - 1) / symbolSize := by
  unfold loadIndex at h
  dsimp only at h
  split at h
  · cases h
  next data hdata =>
  split at h
  · cases h
  next hlen =>
  split at h
  · cases h
  next index' hidx =>
  cases h
  rw [not_not] at hlen
  unfold buildELFSymbolIndex scanELFSymbolEntries at hidx
  dsimp only at hidx
  split at hidx <;> cases hidx
  rw [length_insertionSort, ← hlen, ← length_entryOffsets]
  exact length_filterMap_le _ _

theorem length_selectELFSymbolCandidates_le (index : List Candidate) (pcs : List Nat) :
    (selectELFSymbolCandidates index pcs).length ≤ pcs.length :=
  length_filterMap_le _ _

/-- What reading names from the table's strings charges. -/
def stringCharge (f : File) (source : Source) : Nat :=
  match elfSymbolTableSections f source with
  | .ok (_, strings) => decompressionCharge strings.opened
  | .error _ => 0

theorem pending_nil (hbud : Budget state) (metadataBytes : Nat) (key : SectionKey) :
    Pending (state.charge metadataBytes) key {} where
  total := rfl
  limit := hbud.names
  nodup := nodup_nil
  fresh := fun _ h => absurd h not_mem_nil

/-- The names published are new, and their bytes are the bytes counted. -/
theorem Budget.publish {strings : Section} {index : List Candidate} {symbolCount : Nat}
    {names : Materialized} (hbud : Budget state) (hpend : Pending state (sectionKey strings) names)
    (hsyms : state.symbolCount + symbolCount ≤ state.limits.maxSymbolAndCacheCount) :
    Budget (state.publish symbols strings index symbolCount names) where
  metadata := hbud.metadata
  symbols := hsyms
  names := hpend.limit
  nameTotal := by
    simp only [ParseState.publish, map_append, map_map, sum_append,
      Function.comp_def, ← hpend.total, ← hbud.nameTotal, Nat.add_comm]
  nodupNames := by
    simp only [ParseState.publish, map_append, map_map, Function.comp_def]
    refine nodup_append'.2 ⟨?_, hbud.nodupNames, ?_⟩
    · have hinj := hpend.nodup.map (f := fun offset => (sectionKey strings, offset))
        fun _ _ heq => (Prod.mk.inj heq).2
      simpa only [map_map, Function.comp_def] using hinj
    · intro key hkey
      obtain ⟨entry, hent, rfl⟩ := mem_map.1 hkey
      exact hpend.fresh _ (mem_map_of_mem hent)
  nodupIndexes := by
    simp only [ParseState.publish]
    split
    · exact hbud.nodupIndexes
    · next hnone =>
      rw [Option.not_isSome_iff_eq_none] at hnone
      exact nodup_cons.2 ⟨lookup_eq_none.1 hnone, hbud.nodupIndexes⟩
  counted := by
    intro key
    simp only [ParseState.publish, mem_insert_iff, hbud.counted]
    split
    · next hsome =>
      have hmem : sectionKey symbols ∈ state.indexes.map Prod.fst := by
        by_contra hnot
        simp [lookup_eq_none.2 hnot] at hsome
      exact ⟨fun h => h.elim (fun heq => heq ▸ hmem) fun h => h, .inr⟩
    · rw [map_cons, mem_cons]

/-- Every call keeps the budgets; one that fails changes no more than what was charged for
decompression. -/
theorem Budget.parseSource {out : Except ParseError (List Symbol)} (hrg : state.limits.InRange)
    (hbud : Budget state) (h : parseSource state f source pcs = (out, state')) :
    Budget state' ∧ state'.limits = state.limits ∧
    ∀ err, out = .error err → ∃ k, k ≤ pcs.length ∧
      state' = state.charge (k * stringCharge f source) := by
  obtain ⟨err, rfl, rfl⟩ | ⟨symbols, strings, symbolSize, metadataBytes, symbolCount, index, read,
    hsec, hcheck, -, hread, hout⟩ := parseSource_cases h
  · exact ⟨hbud, rfl, fun _ _ => ⟨0, Nat.zero_le _, by simp⟩⟩
  obtain ⟨-, -, -, hmet, hsyms, -⟩ := checkSymbolLimits_spec hrg hbud hcheck
  obtain ⟨⟨k, hk, hstt⟩, hle, hnames⟩ := materialize_spec _
    (pending_nil hbud metadataBytes (sectionKey strings.opened)) hrg hmet hread
  have hcha : stringCharge f source = decompressionCharge strings.opened := by
    rw [stringCharge, hsec]
  have hk' := Nat.le_trans hk (length_selectELFSymbolCandidates_le index pcs)
  rw [charge_charge] at hstt
  have hle' : state.metadataBytes + (metadataBytes + k * decompressionCharge strings.opened) ≤
      state.limits.maxMetadataBytes := by
    rw [hstt] at hle
    exact hle
  obtain ⟨err, -, rfl, rfl⟩ | ⟨names, hok, rfl, rfl⟩ := hout
  · -- the reservation is given back, the charges are not
    have hback : ({ read.2 with metadataBytes := sub64 read.2.metadataBytes metadataBytes } :
        ParseState) = state.charge (k * stringCharge f source) := by
      have hrangeMetadata := hrg.metadata
      rw [hstt, metadataBytes_charge, sub64_of_le (by omega) (by omega), hcha]
      simp only [ParseState.charge, ParseState.mk.injEq, and_true, true_and]
      omega
    have hmet' : (state.charge (k * stringCharge f source)).metadataBytes ≤
        state.limits.maxMetadataBytes := by
      rw [metadataBytes_charge, hcha]
      omega
    rw [hback]
    exact ⟨{ hbud with metadata := hmet' }, rfl, fun _ _ => ⟨k, hk', rfl⟩⟩
  · have hread' : Budget read.2 := by
      rw [hstt]
      exact { hbud with metadata := hle' }
    have hpend := hnames names hok
    refine ⟨hread'.publish ?_ ?_, ?_, by simp⟩
    · rw [hstt]
      exact ⟨hpend.total, hpend.limit, hpend.nodup, hpend.fresh⟩
    · rw [hstt]
      exact hsyms
    · rw [ParseState.publish, hstt]
      rfl

theorem indexEntries_publish (symbols strings : Section) (index : List Candidate)
    (symbolCount : Nat)
    (names : Materialized) :
    (state.publish symbols strings index symbolCount names).indexEntries =
      if (state.indexes.lookup (sectionKey symbols)).isSome then
        (state.indexes.map fun entry => entry.2.length).sum
      else index.length + (state.indexes.map fun entry => entry.2.length).sum := by
  unfold ParseState.indexEntries ParseState.publish
  dsimp only
  split <;> rfl

theorem sub_one_div_of_dvd {n size : Nat} (hpos : 0 < size) (hn : n ≠ 0) (h : n % size = 0) :
    (n - 1) / size = n / size - 1 := by
  obtain ⟨m, rfl⟩ := Nat.dvd_of_mod_eq_zero h
  obtain ⟨m, rfl⟩ := Nat.exists_eq_succ_of_ne_zero (Nat.ne_zero_of_mul_ne_zero_right hn)
  rw [Nat.mul_div_cancel_left _ hpos, Nat.succ_sub_one, Nat.mul_succ, Nat.add_sub_assoc hpos,
    Nat.mul_add_div hpos, Nat.div_eq_of_lt (by omega), Nat.add_zero]

/-- Entries are counted if the section has the size that was checked. -/
theorem indexEntries_parseSource {out : Except ParseError (List Symbol)}
    (hrg : state.limits.InRange) (hbud : Budget state)
    (hsta : ∀ symbols strings, elfSymbolTableSections f source = .ok (symbols, strings) →
      symbols.opened.size = symbols.size) (hents : state.indexEntries ≤ state.symbolCount)
    (h : parseSource state f source pcs = (out, state')) :
    state'.indexEntries ≤ state'.symbolCount := by
  unfold ParseState.indexEntries at hents
  obtain ⟨-, -, hfai⟩ := hbud.parseSource hrg h
  obtain ⟨err, rfl, rfl⟩ | ⟨symbols, strings, symbolSize, metadataBytes, symbolCount, index, read,
    hsec, hcheck, hidx, hread, ⟨err, -, rfl, -⟩ | ⟨names, -, -, rfl⟩⟩ := parseSource_cases h
  · exact hents
  · obtain ⟨k, -, rfl⟩ := hfai err rfl
    exact hents
  obtain ⟨hnon, hmul, hpos, hmet, -, hcnt⟩ :=
    checkSymbolLimits_spec hrg hbud hcheck
  obtain ⟨⟨k, -, hstt⟩, -⟩ := materialize_spec _
    (pending_nil hbud metadataBytes (sectionKey strings.opened)) hrg hmet hread
  rw [charge_charge] at hstt
  have hidxs : read.2.indexes = state.indexes := by rw [hstt]; rfl
  have hsyms : read.2.symbolCount = state.symbolCount := by rw [hstt]; rfl
  have hcountPublish : (read.2.publish symbols strings.opened index symbolCount names).symbolCount =
      state.symbolCount + symbolCount := by rw [← hsyms]; rfl
  rw [indexEntries_publish, hidxs, hcountPublish]
  split
  · omega
  next hnone =>
  rw [Option.not_isSome_iff_eq_none] at hnone
  have hfresh : sectionKey symbols ∉ state.metadataSections := fun hmem =>
    lookup_eq_none.1 hnone ((hbud.counted _).1 hmem)
  rw [hnone, Option.elim_none] at hidx
  have hlen := loadIndex_length hidx
  rw [hsta symbols strings hsec, sub_one_div_of_dvd hpos hnon hmul] at hlen
  rw [hcnt hfresh]
  omega

end Calls

/-! ## Any sequence of calls -/

structure Call where
  file : File
  source : Source
  pcs : List Nat
  deriving DecidableEq, Repr

/-- The state after a sequence of calls, whether they succeed or fail. -/
def parseCalls (state : ParseState) (calls : List Call) : ParseState :=
  calls.foldl (fun state call => (parseSource state call.file call.source call.pcs).2) state

/-- Opening the symbol section leaves its size as it is. -/
def Call.Stable (call : Call) : Prop :=
  ∀ symbols strings, elfSymbolTableSections call.file call.source = .ok (symbols, strings) →
    symbols.opened.size = symbols.size

/-- A state that a call goes through while it reads names, and the bytes of the names that are
not published yet. -/
def Call.Passes (call : Call) (state read : ParseState) (pendingBytes : Nat) : Prop :=
  ∃ symbols strings symbolSize metadataBytes symbolCount index n names,
    elfSymbolTableSections call.file call.source = .ok (symbols, strings) ∧
    checkSymbolLimits state call.file symbols = .ok (symbolSize, metadataBytes, symbolCount) ∧
    (state.indexes.lookup (sectionKey symbols)).elim (loadIndex call.file symbols symbolSize) .ok =
      .ok index ∧
    materializeELFSymbolCandidates strings.opened
      ((selectELFSymbolCandidates index call.pcs).take n) {} (state.charge metadataBytes) =
      (.ok names, read) ∧
    pendingBytes = names.nameBytes

theorem Budget.passes {call : Call} {state read : ParseState} {pendingBytes : Nat}
    (hrg : state.limits.InRange) (hbud : Budget state) (h : call.Passes state read pendingBytes) :
    read.metadataBytes ≤ state.limits.maxMetadataBytes ∧
    state.nameBytes + pendingBytes ≤ state.limits.maxNameBytes := by
  obtain ⟨symbols, strings, symbolSize, metadataBytes, symbolCount, index, n, names, -, hcheck, -,
    hread, rfl⟩ := h
  obtain ⟨-, -, -, hmet, -, -⟩ := checkSymbolLimits_spec hrg hbud hcheck
  obtain ⟨-, hle, hnames⟩ := materialize_spec _
    (pending_nil hbud metadataBytes (sectionKey strings.opened)) hrg hmet hread
  exact ⟨hle, (hnames names rfl).limit⟩

theorem budget_parseCalls {state : ParseState} (calls : List Call) (hbud : Budget state)
    (hrg : state.limits.InRange) :
    Budget (parseCalls state calls) ∧ (parseCalls state calls).limits = state.limits ∧
    ((∀ call ∈ calls, call.Stable) → state.indexEntries ≤ state.symbolCount →
      (parseCalls state calls).indexEntries ≤ (parseCalls state calls).symbolCount) := by
  induction calls generalizing state with
  | nil => exact ⟨hbud, rfl, fun _ h => h⟩
  | cons call calls ih =>
    obtain ⟨hnext, hlim, -⟩ := hbud.parseSource hrg (Prod.mk.eta (p :=
      parseSource state call.file call.source call.pcs)).symm
    obtain ⟨hrest, hrestLimits, hents⟩ := ih hnext (hlim ▸ hrg)
    refine ⟨hrest, hrestLimits.trans hlim, fun hsta h => ?_⟩
    rw [forall_mem_cons] at hsta
    exact hents hsta.2 (indexEntries_parseSource hrg hbud hsta.1 h rfl)

/-- After any calls on an empty state all counters are within their limits, and in the middle of a
call they are too. The names cached have the length that was counted. If every symbol section
keeps its size, no index entry is uncounted. A call that fails leaves what is cached alone. -/
theorem parseCalls_within_limits {limits : ELFSymbolLimits} (hrange : limits.InRange)
    (calls : List Call) :
    let state := parseCalls (newELFSymbolParseState limits) calls
    (state.metadataBytes ≤ limits.maxMetadataBytes ∧
      state.symbolCount ≤ limits.maxSymbolAndCacheCount ∧ state.nameBytes ≤ limits.maxNameBytes) ∧
    (state.nameBytes = (state.names.map fun entry => entry.2.length).sum ∧
      (state.names.map Prod.fst).Nodup ∧ (state.indexes.map Prod.fst).Nodup) ∧
    ((∀ call ∈ calls, call.Stable) → state.indexEntries ≤ state.symbolCount) ∧
    ∀ call : Call,
      (∀ err state', parseSource state call.file call.source call.pcs = (.error err, state') →
        ∃ k, k ≤ call.pcs.length ∧
          state' = state.charge (k * stringCharge call.file call.source)) ∧
      ∀ read pendingBytes, call.Passes state read pendingBytes →
        read.metadataBytes ≤ limits.maxMetadataBytes ∧
        state.nameBytes + pendingBytes ≤ limits.maxNameBytes := by
  intro state
  obtain ⟨hbudget, hlimits, hentries⟩ := budget_parseCalls calls (budget_new limits) hrange
  have hlimits' : state.limits = limits := hlimits
  have hrange' : state.limits.InRange := hlimits' ▸ hrange
  refine ⟨?_, ⟨hbudget.nameTotal, hbudget.nodupNames, hbudget.nodupIndexes⟩,
    fun hstable => hentries hstable (Nat.le_refl 0), fun call => ⟨fun err state' h => ?_, ?_⟩⟩
  · rw [← hlimits']
    exact ⟨hbudget.metadata, hbudget.symbols, hbudget.names⟩
  · exact (hbudget.parseSource hrange' h).2.2 err rfl
  · intro read pendingBytes hpasses
    rw [← hlimits']
    exact hbudget.passes hrange' hpasses

/-- A file with three function symbols, in a section of the given name that declares `size`
bytes. -/
def threeSymbols (name : String) (size : Nat) (zlibSize : Option Nat) : File where
  sections :=
    [{ name := "", typ := .other 0, offset := 0, size := 0, bytes := [] },
      { name := name
        typ := .symtab
        offset := 64
        size := size
        link := 2
        zlibSize := zlibSize
        bytes := entry64 0 0 0 ++ entry64 1 4096 16 ++ entry64 1 8192 16 ++ entry64 1 12288 16 },
      { name := ".strtab", typ := .strtab, offset := 512, size := 3, bytes := [0, 102, 0] }]

/-- The second call fails: there is no table for dynamic symbols. -/
def threeCalls : List Call :=
  [⟨threeSymbols ".symtab" 96 none, .symtab, [4100]⟩,
    ⟨threeSymbols ".symtab" 96 none, .dynsym, [4100]⟩,
    ⟨threeSymbols ".symtab" 96 none, .symtab, [8200, 12290]⟩]

theorem parseCalls_within_limits_three :
    let state := parseCalls (newELFSymbolParseState {}) threeCalls
    let failed := parseSource state (threeSymbols ".symtab" 96 none) .dynsym [4100]
    (state.metadataBytes, state.symbolCount, state.nameBytes, state.indexEntries) = (96, 3, 1, 3) ∧
    state.indexEntries ≤ state.symbolCount ∧ failed.1 = .error .noSymbols ∧
    ∃ k ≤ 1, failed.2 =
      state.charge (k * stringCharge (threeSymbols ".symtab" 96 none) .dynsym) := by
  intro state failed
  obtain ⟨-, -, hentries, hcall⟩ :=
    @parseCalls_within_limits {} ⟨by decide, by decide, by decide⟩ threeCalls
  have hfailed : failed.1 = .error .noSymbols := by decide +kernel
  refine ⟨by decide +kernel, hentries ?_, hfailed, ?_⟩
  · have htables : ∀ source symbols strings,
        elfSymbolTableSections (threeSymbols ".symtab" 96 none) source = .ok (symbols, strings) →
        symbols.opened.size = symbols.size := by
      intro source symbols strings h
      cases source <;> cases h
      rfl
    intro call hcall
    simp only [threeCalls, mem_cons, not_mem_nil, or_false] at hcall
    rcases hcall with rfl | rfl | rfl <;> exact htables _
  · exact (hcall ⟨threeSymbols ".symtab" 96 none, .dynsym, [4100]⟩).1 _ _ (Prod.ext hfailed rfl)

/-- A section of 48 bytes that expands to 96: one symbol is counted, three are indexed. -/
theorem zdebug_uncounted :
    (parseCalls (newELFSymbolParseState {})
        [⟨threeSymbols ".zdebug_symtab" 48 (some 96), .symtab, [4100]⟩]).indexEntries = 3 ∧
      (parseCalls (newELFSymbolParseState {})
        [⟨threeSymbols ".zdebug_symtab" 48 (some 96), .symtab, [4100]⟩]).symbolCount = 1 := by
  decide +kernel

end Huatuo.Symbol
