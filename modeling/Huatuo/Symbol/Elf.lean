import Huatuo.Symbol.Symbols

/-!
# Symbols of one ELF file

`internal/symbol/symbols.go`: the names for a set of program counters, from the symbol tables
`symtab` and `dynsym`. The function symbols of a table are sorted into an index. Each counter
selects at most one of them, the names of those selected are read from the string table, and the
counters are then resolved over the symbols selected. What is read stays in a state with budgets
(`ELFSymbolLimits`), shared by all calls for one file.

Of `debug/elf` this is used: `Open` replaces the size of a `.zdebug` section with a `ZLIB` header
by the size in that header, and `Data` opens the section and then returns as many bytes as its
size says. A section's size is changed in place; whoever parses a file again opens its string
table again and finds the same size, so that files are passed on as they are.
-/

namespace Huatuo.Symbol

open Words

/-! ## `debug/elf` -/

inductive SectionType where
  | symtab
  | strtab
  | dynsym
  | other (code : Nat)
  deriving DecidableEq, Repr

structure Section where
  name : String
  typ : SectionType
  /-- the flag `SHF_COMPRESSED` -/
  compressed : Bool := false
  addr : Nat := 0
  offset : Nat
  size : Nat
  link : Nat := 0
  /-- the size in the `ZLIB` header that the section starts with, if it does -/
  zlibSize : Option Nat := none
  /-- what a reader of the section returns, up to its first error -/
  bytes : Bytes
  deriving DecidableEq, Repr

inductive Class where
  | elf32
  | elf64
  | other (code : Nat)
  deriving DecidableEq, Repr

inductive FileType where
  | exec
  | dyn
  | other (code : Nat)
  deriving DecidableEq, Repr

structure File where
  elfClass : Class := .elf64
  bigEndian : Bool := false
  typ : FileType := .dyn
  sections : List Section
  deriving DecidableEq, Repr

variable (s : Section)

def Section.isZdebug : Bool := ".zdebug".toList.isPrefixOf s.name.toList

/-- `Section.Open`, as far as it changes the section. -/
def Section.opened : Section :=
  if s.compressed = false ∧ s.isZdebug = true then { s with size := s.zlibSize.getD s.size } else s

/-- `Section.Data` of an open section. -/
def Section.data : Option Bytes :=
  if s.bytes.length < s.size then none else some (s.bytes.take s.size)

/-! ## The state -/

structure ELFSymbolLimits where
  maxMetadataBytes : Nat := 16 * 2 ^ 20
  maxSymbolAndCacheCount : Nat := 500000
  maxNameBytes : Nat := 16 * 2 ^ 20
  maxNameLength : Nat := 2 ^ 20
  deriving DecidableEq, Repr

structure SectionKey where
  typ : SectionType
  offset : Nat
  size : Nat
  deriving DecidableEq, Repr

def sectionKey : SectionKey := ⟨s.typ, s.offset, s.size⟩

structure Candidate where
  nameOffset : Nat
  value : Nat
  size : Nat
  deriving DecidableEq, Repr

/-- `elfSymbolParseState`. The maps are lists of their entries, `names` one list for all string
tables. -/
structure ParseState where
  limits : ELFSymbolLimits
  metadataBytes : Nat := 0
  symbolCount : Nat := 0
  nameBytes : Nat := 0
  metadataSections : List SectionKey := []
  indexes : List (SectionKey × List Candidate) := []
  names : List ((SectionKey × Nat) × Bytes) := []
  deriving DecidableEq, Repr

variable (state : ParseState)

def ParseState.charge (bytes : Nat) : ParseState :=
  { state with metadataBytes := state.metadataBytes + bytes }

@[simp] theorem charge_zero : state.charge 0 = state := rfl

@[simp] theorem charge_charge (m n : Nat) : (state.charge m).charge n = state.charge (m + n) := by
  simp [ParseState.charge, Nat.add_assoc]

@[simp] theorem metadataBytes_charge (n : Nat) :
    (state.charge n).metadataBytes = state.metadataBytes + n := rfl

section Entries

variable {κ β : Type*} [BEq κ] [LawfulBEq κ] {entries : List (κ × β)} {key : κ} {value : β}

theorem lookup_eq_none : entries.lookup key = none ↔ key ∉ entries.map Prod.fst := by
  simp only [List.lookup_eq_none_iff, bne_iff_ne, List.mem_map, not_exists, not_and]
  exact ⟨fun h p hp heq => h p hp heq.symm, fun h p hp heq => h p hp heq.symm⟩

theorem mem_of_lookup (h : entries.lookup key = some value) : (key, value) ∈ entries := by
  obtain ⟨front, back, rfl, -⟩ := List.lookup_eq_some_iff.1 h
  simp

end Entries

inductive ParseError where
  | noSymbols
  /-- `errELFSymbolLimit` -/
  | limit (message : String)
  | invalid (message : String)
  /-- a slice expression out of range -/
  | panicked
  deriving DecidableEq, Repr

def ParseError.isLimit : ParseError → Bool
  | .limit _ => true
  | _ => false

/-! ## The sections of a table -/

inductive Source where
  | symtab
  | dynsym
  deriving DecidableEq, Repr

def Source.typ : Source → SectionType
  | .symtab => .symtab
  | .dynsym => .dynsym

def elfSymbolTables : List Source := [.symtab, .dynsym]

variable (f : File)

def elfSymbolTableSections (source : Source) : Except ParseError (Section × Section) :=
  match f.sections.find? fun s => s.typ = source.typ with
  | none => .error .noSymbols
  | some symbols =>
    if symbols.link = 0 then
      .error (.invalid "symbol section has invalid string table link 0")
    else
      match f.sections[symbols.link]? with
      | none => .error (.invalid
          ("symbol section has invalid string table link " ++ toString symbols.link))
      | some strings =>
        if strings.typ = .strtab then .ok (symbols, strings)
        else .error (.invalid "symbol section links to another section than SHT_STRTAB")

def symbolSizeOf : Class → Option Nat
  | .elf32 => some 16
  | .elf64 => some 24
  | .other _ => none

/-- The size of a symbol, and the metadata bytes and symbols that the section adds to what the
state has counted. -/
def checkSymbolLimits (f : File) (symbols : Section) : Except ParseError (Nat × Nat × Nat) :=
  match symbolSizeOf f.elfClass with
  | none => .error (.invalid "unsupported ELF class")
  | some symbolSize =>
    if symbols.size = 0 ∨ symbols.size % symbolSize ≠ 0 then
      .error (.invalid ("symbol section size " ++ toString symbols.size ++
        " is not a non-zero multiple of " ++ toString symbolSize))
    else
      -- the first symbol is the required all-zero entry
      let symbolCount := symbols.size / symbolSize - 1
      if sectionKey symbols ∈ state.metadataSections then .ok (symbolSize, 0, 0)
      else if state.symbolCount > state.limits.maxSymbolAndCacheCount ∨
          symbolCount > sub64 state.limits.maxSymbolAndCacheCount state.symbolCount then
        .error (.limit (toString symbolCount ++ " symbols exceed the remaining limit of " ++
          toString (sub64 state.limits.maxSymbolAndCacheCount
            (min state.symbolCount state.limits.maxSymbolAndCacheCount))))
      else
        let remainingMetadata := sub64 state.limits.maxMetadataBytes state.metadataBytes
        if symbols.size > remainingMetadata then
          .error (.limit ("metadata exceeds the remaining " ++ toString remainingMetadata ++
            "-byte limit"))
        else .ok (symbolSize, symbols.size, symbolCount)

/-! ## The index -/

/-- The number of `width` bytes at an offset, in the byte order of the file. -/
def File.uintAt (width : Nat) (entry : Bytes) (offset : Nat) : Nat :=
  let word := (entry.drop offset).take width
  ofLE (if f.bigEndian then word.reverse else word)

/-- A function symbol, or nothing for an entry of another type. -/
def decodeEntry (entry : Bytes) : Option Candidate :=
  let infoOffset := if f.elfClass = .elf32 then 12 else 4
  -- STT_FUNC
  if f.uintAt 1 entry infoOffset % 16 ≠ 2 then none
  else if f.elfClass = .elf32 then
    some ⟨f.uintAt 4 entry 0, f.uintAt 4 entry 4, f.uintAt 4 entry 8⟩
  else some ⟨f.uintAt 4 entry 0, f.uintAt 8 entry 8, f.uintAt 8 entry 16⟩

/-- Where the entries behind the first one start. -/
def entryOffsets (length symbolSize : Nat) : List Nat :=
  (List.range ((length - 1) / symbolSize)).map fun i => (i + 1) * symbolSize

/-- `scanELFSymbolEntries`; nothing if an entry goes past the end of the data. -/
def scanELFSymbolEntries (data : Bytes) (symbolSize : Nat) : Option (List Candidate) :=
  let offsets := entryOffsets data.length symbolSize
  if offsets.any fun offset => data.length < offset + symbolSize then none
  else some (offsets.filterMap fun offset => decodeEntry f ((data.drop offset).take symbolSize))

def buildELFSymbolIndex (data : Bytes) (symbolSize : Nat) : Option (List Candidate) :=
  (scanELFSymbolEntries f data symbolSize).map
    (List.insertionSort fun a b => a.value ≤ b.value)

/-- The symbol selected for one counter. -/
def selectCandidate (index : List Candidate) (pc : Nat) : Option Candidate :=
  (Search.floor Candidate.value index pc).filter fun c => symbolCovers c.value c.size pc

def selectELFSymbolCandidates (index : List Candidate) (pcs : List Nat) : List Candidate :=
  pcs.filterMap (selectCandidate index)

/-! ## Names -/

def isCompressedELFSection : Bool := s.compressed || s.isZdebug

/-- A reader that decompresses reads all bytes up to the offset. -/
def Section.seekFails (offset : Nat) : Bool :=
  (s.compressed || s.isZdebug && s.zlibSize.isSome) && decide (s.bytes.length < offset)

def readELFSymbolName (strings : Section) (offset limit : Nat) : Except ParseError Bytes :=
  if limit ≥ 2 ^ 63 - 1 then .error (.limit "symbol name limit is too large")
  else if strings.seekFails offset then
    .error (.invalid ("seek symbol name at offset " ++ toString offset))
  else
    let readLimit := min (strings.size - offset) (limit + 1)
    let name := (strings.bytes.drop offset).take readLimit
    if 0 ∈ name then .ok (name.takeWhile (· ≠ 0))
    else if name.length > limit then
      .error (.limit ("symbol name at offset " ++ toString offset ++ " exceeds the " ++
        toString limit ++ "-byte limit"))
    else .error (.invalid ("symbol name at offset " ++ toString offset ++ " is not NUL-terminated"))

/-- `resolveCandidateName`. Decompression is charged before the name is read, and the charge
stays when that fails. -/
def resolveCandidateName (strings : Section) (nameOffset nameBytes : Nat) :
    Except ParseError Bytes × ParseState :=
  if nameOffset ≥ strings.size then
    (.error (.invalid ("symbol name offset " ++ toString nameOffset ++
      " exceeds string table size " ++ toString strings.size)), state)
  else
    let remainingNameBytes := sub64 (sub64 state.limits.maxNameBytes state.nameBytes) nameBytes
    let remainingWork := sub64 state.limits.maxMetadataBytes state.metadataBytes
    if isCompressedELFSection strings ∧ strings.size > remainingWork then
      (.error (.limit ("expanded string table exceeds the remaining " ++ toString remainingWork ++
        "-byte metadata budget")), state)
    else
      let state := if isCompressedELFSection strings then state.charge strings.size else state
      let maxNameLength := state.limits.maxNameLength
      let limit := if maxNameLength = 0 ∨ maxNameLength > remainingNameBytes then
        remainingNameBytes else maxNameLength
      (readELFSymbolName strings nameOffset limit, state)

/-- The variables of the loop of `materializeELFSymbolCandidates`. -/
structure Materialized where
  result : List Symbol := []
  nameBytes : Nat := 0
  pending : List (Nat × Bytes) := []
  deriving DecidableEq, Repr

def materializeELFSymbolCandidates (strings : Section) :
    List Candidate → Materialized → ParseState → Except ParseError Materialized × ParseState
  | [], acc, state => (.ok acc, state)
  | matched :: candidates, acc, state =>
    match (state.names.lookup (sectionKey strings, matched.nameOffset)).or
        (acc.pending.lookup matched.nameOffset) with
    | some name => materializeELFSymbolCandidates strings candidates
        { acc with result := acc.result ++ [⟨matched.value, matched.size, name⟩] } state
    | none =>
      match resolveCandidateName state strings matched.nameOffset acc.nameBytes with
      | (.error err, state) => (.error err, state)
      | (.ok name, state) => materializeELFSymbolCandidates strings candidates
          { result := acc.result ++ [⟨matched.value, matched.size, name⟩]
            nameBytes := acc.nameBytes + name.length
            pending := (matched.nameOffset, name) :: acc.pending } state

/-! ## One table, and a file -/

/-- The index of a section that has none yet. -/
def loadIndex (symbols : Section) (symbolSize : Nat) : Except ParseError (List Candidate) :=
  let symbols := symbols.opened
  match symbols.data with
  | none => .error (.invalid "load symbol section")
  | some data =>
    if data.length ≠ symbols.size then
      .error (.invalid "ELF section data size differs from its declared size")
    else
      match buildELFSymbolIndex f data symbolSize with
      | none => .error .panicked
      | some index => .ok index

/-- What a call that succeeds leaves behind. -/
def ParseState.publish (symbols strings : Section) (index : List Candidate) (symbolCount : Nat)
    (names : Materialized) : ParseState :=
  { state with
    indexes := if (state.indexes.lookup (sectionKey symbols)).isSome then state.indexes
      else (sectionKey symbols, index) :: state.indexes
    symbolCount := state.symbolCount + symbolCount
    nameBytes := state.nameBytes + names.nameBytes
    metadataSections := state.metadataSections.insert (sectionKey symbols)
    names := names.pending.map (fun entry => ((sectionKey strings, entry.1), entry.2)) ++
      state.names }

/-- `parseSource`. -/
def parseSource (f : File) (source : Source) (pcs : List Nat) :
    Except ParseError (List Symbol) × ParseState :=
  match elfSymbolTableSections f source with
  | .error err => (.error err, state)
  | .ok (symbols, strings) =>
    match checkSymbolLimits state f symbols with
    | .error err => (.error err, state)
    | .ok (symbolSize, metadataBytes, symbolCount) =>
      match (state.indexes.lookup (sectionKey symbols)).elim (loadIndex f symbols symbolSize)
          .ok with
      | .error err => (.error err, state)
      | .ok index =>
        -- pending metadata is reserved, so that decompression shares the budget
        match materializeELFSymbolCandidates strings.opened
            (selectELFSymbolCandidates index pcs) {} (state.charge metadataBytes) with
        | (.error err, state) => (.error err,
            { state with metadataBytes := sub64 state.metadataBytes metadataBytes })
        | (.ok names, state) =>
          (.ok names.result, state.publish symbols strings.opened index symbolCount names)

/-- What a call can do: it fails before it reads names, or while it reads them, or it publishes
what it has read. -/
theorem parseSource_cases {state state' : ParseState} {f : File} {source : Source} {pcs : List Nat}
    {out : Except ParseError (List Symbol)} (h : parseSource state f source pcs = (out, state')) :
    (∃ err, out = .error err ∧ state' = state) ∨
    ∃ symbols strings symbolSize metadataBytes symbolCount index read,
      elfSymbolTableSections f source = .ok (symbols, strings) ∧
      checkSymbolLimits state f symbols = .ok (symbolSize, metadataBytes, symbolCount) ∧
      (state.indexes.lookup (sectionKey symbols)).elim (loadIndex f symbols symbolSize) .ok =
        .ok index ∧
      materializeELFSymbolCandidates strings.opened (selectELFSymbolCandidates index pcs) {}
        (state.charge metadataBytes) = read ∧
      ((∃ err, read.1 = .error err ∧ out = .error err ∧
          state' = { read.2 with metadataBytes := sub64 read.2.metadataBytes metadataBytes }) ∨
        ∃ names, read.1 = .ok names ∧ out = .ok names.result ∧
          state' = read.2.publish symbols strings.opened index symbolCount names) := by
  unfold parseSource at h
  split at h
  · cases h
    exact .inl ⟨_, rfl, rfl⟩
  next symbols strings hsec =>
  split at h
  · cases h
    exact .inl ⟨_, rfl, rfl⟩
  next symbolSize metadataBytes symbolCount hcheck =>
  split at h
  · cases h
    exact .inl ⟨_, rfl, rfl⟩
  next index hidx =>
  refine .inr ⟨symbols, strings, symbolSize, metadataBytes, symbolCount, index, _, hsec, hcheck,
    hidx, rfl, ?_⟩
  split at h
  · next err read hread =>
    cases h
    exact .inl ⟨err, by rw [hread], rfl, by rw [hread]⟩
  · next names read hread =>
    cases h
    exact .inr ⟨names, by rw [hread], rfl, by rw [hread]⟩

/-- The variables of the loop of `elfSymbolsForPCsWithState`. -/
structure Resolution where
  syms : List Symbol := []
  errors : List ParseError := []
  remainingPCs : List Nat
  state : ParseState
  deriving DecidableEq, Repr

def resolveSource (r : Resolution) (source : Source) : Resolution :=
  if r.remainingPCs = [] then r
  else
    match parseSource r.state f source r.remainingPCs with
    | (.error err, state) =>
      { r with state := state, errors := if err = .noSymbols then r.errors else r.errors ++ [err] }
    | (.ok symbols, state) =>
      let symbols := sortSymbols symbols
      { r with
        state := state
        syms := r.syms ++ (r.remainingPCs.filter fun pc => resolve symbols pc ≠ []).map fun pc =>
          ⟨pc, 0, resolve symbols pc⟩
        remainingPCs := r.remainingPCs.filter fun pc => resolve symbols pc = [] }

/-- `elfSymbolsForPCsWithState`: the symbols found, the errors other than a missing table, and the
state. -/
def elfSymbolsForPCsWithState (pcs : List Nat) (state : ParseState) :
    List Symbol × List ParseError × ParseState :=
  let r := elfSymbolTables.foldl (resolveSource f) { remainingPCs := pcs, state := state }
  (sortSymbols r.syms, r.errors, r.state)

/-- The name in a result of `elfSymbolsForPCsWithState`. -/
def nameFor (syms : List Symbol) (pc : Nat) : Bytes :=
  match syms.find? fun sym => sym.addr = pc with
  | none => []
  | some sym => sym.name

/-- A function symbol in a little-endian table of class 64. -/
def entry64 (nameOffset value size : Nat) : Bytes :=
  toLE 4 nameOffset ++ [2, 0, 1, 0] ++ toLE 8 value ++ toLE 8 size

def newELFSymbolParseState (limits : ELFSymbolLimits) : ParseState := { limits := limits }

end Huatuo.Symbol
