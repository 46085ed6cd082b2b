import Huatuo.Symbol.Elf

/-!
# The resolver of user stacks

`internal/symbol/usymbols.go`: a `UsymResolver` turns the addresses of a process into names. An
address is placed first (`placeAddr`): it belongs to the executable, to a library mapped into the
process, or to nothing that has symbols. The counters of one file are then resolved together, and
what was read of a file is kept for later calls, under its inode and the XFS mount it is on.

The processes and files are an environment that does not change. Paths from the kernel are
absolute and clean, so that joining them is appending them. Groups of counters are resolved in the
order they were formed; the source leaves that order to the map.
-/

namespace Huatuo.Symbol

open Words Function

/-! ## The environment -/

structure Env where
  /-- what `/proc/<pid>/exe` points to -/
  executable : Nat → Option String
  maps : Nat → Option (List ProcMap)
  /-- `fileutil.StatInode` -/
  inode : String → Option Nat
  /-- `elf.Open` -/
  openELF : String → Option File
  /-- `xfsMountPoints` -/
  xfsMounts : Option (List String) := some []
  inContainer : Nat → Option Bool := fun _ => some false
  lowerDir : Nat → Option String := fun _ => none
  demangle : Bytes → Bytes := fun name => name

def rootDir (pid : Nat) : String := "/proc/" ++ toString pid ++ "/root"

/-- `strings.TrimPrefix` -/
def trimStart (path start : String) : String :=
  if start.toList.isPrefixOf path.toList then String.ofList (path.toList.drop start.toList.length)
  else path

@[simp] theorem trimStart_append (start path : String) :
    trimStart (start ++ path) start = path := by
  simp [trimStart]

/-- The pseudo-paths of mappings that have no symbols. -/
def backedPaths : List String :=
  ["anon_inode:[perf_event]", "[stack]", "[vvar]", "[vdso]", "[vsyscall]", "[heap]", "//anon",
    "/dev/zero", "/anon_hugepage", "/SYSV"]

def isLibPath (path : String) : Bool := path.toList.head? = some '/' ∧ path ∉ backedPaths

def matchXfsMount (path : String) (xfsMounts : List String) : String :=
  (xfsMounts.find? fun mount => path = mount ∨
    ((mount.toList.reverse.dropWhile (· = '/')).reverse ++ ['/']).isPrefixOf path.toList).getD ""

/-! ## The caches -/

structure CacheKey where
  inode : Nat
  mountKey : String
  deriving DecidableEq, Repr

structure ELFSymbolCache where
  state : ParseState
  namesByELFPC : List (Nat × Bytes) := []
  deriving DecidableEq, Repr

structure ExecutableCache where
  sections : List ProcMap
  typ : FileType
  symbols : ELFSymbolCache
  deriving DecidableEq, Repr

structure ProcessELF where
  cacheKey : CacheKey
  path : String
  deriving DecidableEq, Repr

structure Resolver where
  exeCache : CacheKey → Option ExecutableCache := fun _ => none
  processes : Nat → Option ProcessELF := fun _ => none
  libCaches : CacheKey → Option ELFSymbolCache := fun _ => none
  libKeys : String → Option CacheKey := fun _ => none
  procmaps : Nat → Option (List ProcMap) := fun _ => none
  names : Bytes → Option Bytes := fun _ => none
  elfSymbolLimits : ELFSymbolLimits
  /-- the errors logged -/
  log : List ParseError := []

def newUsymResolver (limits : ELFSymbolLimits) : Resolver := { elfSymbolLimits := limits }

variable (env : Env)

def exePath (pid : Nat) : Option String :=
  (env.executable pid).map fun bin => rootDir pid ++ bin

variable (r : Resolver)

def mountKeyForPID (pid : Nat) (hostPath : String) : Option String :=
  match env.xfsMounts with
  | none => none
  | some mounts =>
    if mounts.length < 2 then some ""
    else
      match env.inContainer pid with
      | none => none
      | some false => some (matchXfsMount hostPath mounts)
      | some true =>
        match r.processes pid with
        | some process => some process.cacheKey.mountKey
        | none => (env.lowerDir pid).map fun lowerDir => matchXfsMount lowerDir mounts

/-- `exeCacheKey` and `libCacheKey`. -/
def cacheKeyFor (pid : Nat) (path : String) : Option CacheKey :=
  match env.inode path with
  | none => none
  | some inode => (mountKeyForPID env r pid path).map fun mountKey => ⟨inode, mountKey⟩

/-- The sections of an executable as address ranges. -/
def sectionsOf (f : File) : List ProcMap :=
  sortSections (f.sections.map fun s =>
    { startAddr := s.addr, endAddr := (s.addr + s.size) % 2 ^ 64, pathname := s.name })

def newCache (limits : ELFSymbolLimits) : ELFSymbolCache := ⟨newELFSymbolParseState limits, []⟩

/-- `loadElfCaches`; the cache is the one under the key returned. -/
def loadElfCaches (pid : Nat) : Option CacheKey × Resolver :=
  match (r.processes pid).filter fun process => (r.exeCache process.cacheKey).isSome with
  | some process => (some process.cacheKey, r)
  | none =>
    match exePath env pid with
    | none => (none, r)
    | some path =>
      match cacheKeyFor env r pid path with
      | none => (none, r)
      | some key =>
        let known := { r with processes := update r.processes pid (some ⟨key, path⟩) }
        if (r.exeCache key).isSome then (some key, known)
        else
          match env.openELF path with
          | none => (none, r)
          | some f =>
            (some key,
              { known with
                exeCache := update r.exeCache key
                  (some ⟨sectionsOf f, f.typ, newCache r.elfSymbolLimits⟩) })

def loadProcMaps (pid : Nat) : Option (List ProcMap) × Resolver :=
  match r.procmaps pid with
  | some maps => (some maps, r)
  | none =>
    match env.maps pid with
    | none => (none, r)
    | some maps => (some maps, { r with procmaps := update r.procmaps pid (some maps) })

/-- `loadLibCache`; the cache is the one under the key returned. -/
def loadLibCache (pid : Nat) (libPath : String) : Option CacheKey × Resolver :=
  match (r.libKeys libPath).filter fun key => (r.libCaches key).isSome with
  | some key => (some key, r)
  | none =>
    match cacheKeyFor env r pid libPath with
    | none => (none, r)
    | some key =>
      let known := { r with libKeys := update r.libKeys libPath (some key) }
      if (r.libCaches key).isSome then (some key, known)
      else
        match env.openELF libPath with
        | none => (none, r)
        | some _ =>
          (some key,
            { known with
              libCaches := update r.libCaches key
                (some (newCache r.elfSymbolLimits)) })

/-! ## Placing addresses -/

/-- Which cache a counter is looked up in. -/
inductive CacheRef where
  | exe (key : CacheKey)
  | lib (key : CacheKey)
  deriving DecidableEq, Repr

inductive Placement where
  | failed (frame : Bytes)
  | pending (path : String) (cache : CacheRef) (pc : Nat) (failure : Bytes)
  deriving DecidableEq, Repr

/-- The counter of an address in a mapping. -/
def ProcMap.pc (m : ProcMap) (addr : Nat) : Nat := sub64 addr (sub64 m.startAddr m.offset)

/-- An address that is not in a mapping of a position-independent executable. -/
def placeElsewhere (pid : Nat) (process : ProcessELF) (cache : ExecutableCache) (addr : Nat) :
    Placement × Resolver :=
  if (find cache.sections addr).isSome then
    (.pending process.path (.exe process.cacheKey) addr (failFrame "elf-no-sym" ""), r)
  else
    match loadProcMaps env r pid with
    | (none, r) => (.failed (failFrame "procmap-fail" ""), r)
    | (some maps, r) =>
      match find maps addr with
      | none => (.failed (failFrame "proc-unmapped" ""), r)
      | some m =>
        if isLibPath m.pathname then
          match loadLibCache env r pid (rootDir pid ++ m.pathname) with
          | (none, r) => (.failed (failFrame "lib-load-fail" m.pathname), r)
          | (some key, r) =>
            (.pending (rootDir pid ++ m.pathname) (.lib key) (m.pc addr)
              (failFrame "lib-no-sym" m.pathname), r)
        else (.failed (failFrame "non-lib" m.pathname), r)

/-- The body of the first loop of `resolveAddrs`. -/
def placeAddr (pid : Nat) (process : ProcessELF) (cache : ExecutableCache) (addr : Nat) :
    Placement × Resolver :=
  let module := trimStart process.path (rootDir pid)
  if cache.typ = .dyn ∧ module ≠ "" then
    match loadProcMaps env r pid with
    | (none, r) => placeElsewhere env r pid process cache addr
    | (some maps, r) =>
      match (find maps addr).filter fun m => m.pathname = module with
      | some m => (.pending process.path (.exe process.cacheKey) (m.pc addr)
          (failFrame "elf-no-sym" ""), r)
      | none => placeElsewhere env r pid process cache addr
  else placeElsewhere env r pid process cache addr

def placeAddrs (env : Env) (r : Resolver) (pid : Nat) (process : ProcessELF)
    (cache : ExecutableCache) : List Nat → List Placement × Resolver
  | [] => ([], r)
  | addr :: addrs =>
    let (placement, r) := placeAddr env r pid process cache addr
    let (placements, r) := placeAddrs env r pid process cache addrs
    (placement :: placements, r)

/-! ## Resolving counters -/

/-- The counters of one file, with the position of their address and the frame for a counter
without a name. -/
structure PendingPCs where
  path : String
  cache : CacheRef
  entries : List (Nat × Nat × Bytes)
  deriving DecidableEq, Repr

def addPendingELFPC (groups : List PendingPCs) (path : String) (cache : CacheRef)
    (entry : Nat × Nat × Bytes) : List PendingPCs :=
  if groups.any fun group => group.path = path then
    groups.map fun group =>
      if group.path = path then { group with entries := group.entries ++ [entry] } else group
  else groups ++ [⟨path, cache, [entry]⟩]

def addPlacement (groups : List PendingPCs) : Placement × Nat → List PendingPCs
  | (.failed _, _) => groups
  | (.pending path cache pc failure, index) =>
    addPendingELFPC groups path cache (pc, index, failure)

def groupsOf (placements : List Placement) : List PendingPCs :=
  placements.zipIdx.foldl addPlacement []

def Resolver.symbols (r : Resolver) : CacheRef → Option ELFSymbolCache
  | .exe key => (r.exeCache key).map ExecutableCache.symbols
  | .lib key => r.libCaches key

def Resolver.setSymbols (ref : CacheRef) (cache : ELFSymbolCache) : Resolver :=
  match ref with
  | .exe key => { r with
      exeCache := update r.exeCache key
        ((r.exeCache key).map fun exe => { exe with symbols := cache }) }
  | .lib key => { r with libCaches := update r.libCaches key (some cache) }

/-- The names kept for later calls; a full cache keeps no more. -/
def keepNames (limit : Nat) (names : List (Nat × Bytes)) (syms : List Symbol) :
    List (Nat × Bytes) :=
  syms.foldl (fun names sym =>
    if sym.name ≠ [] ∧ names.length < limit then (sym.addr, sym.name) :: names else names) names

/-- `resolveELFPCs` on a cache: the name of each counter, the cache, and the errors. -/
def resolveELFPCs (limits : ELFSymbolLimits) (path : String) (cache : ELFSymbolCache)
    (pcs : List Nat) : (Nat → Bytes) × ELFSymbolCache × List ParseError :=
  let cached := fun pc => (cache.namesByELFPC.lookup pc).getD []
  let unresolved := (pcs.filter fun pc => cached pc = []).eraseDups
  if unresolved = [] then (cached, cache, [])
  else
    match env.openELF path with
    | none => (cached, cache, [.invalid ("open ELF " ++ path)])
    | some f =>
      let (syms, errors, state) := elfSymbolsForPCsWithState f unresolved cache.state
      (fun pc => if nameFor syms pc = [] then cached pc else nameFor syms pc,
        { state := state
          namesByELFPC := keepNames limits.maxSymbolAndCacheCount cache.namesByELFPC syms },
        errors)

def displayName (name : Bytes) : Bytes × Resolver :=
  match r.names name with
  | some display => (display, r)
  | none => (env.demangle name,
      { r with names := update r.names name (some (env.demangle name)) })

/-- `fillELFFrames` -/
def fillELFFrames (env : Env) (r : Resolver) (names : Nat → Bytes) :
    List (Nat × Nat × Bytes) → List Bytes → List Bytes × Resolver
  | [], result => (result, r)
  | (pc, index, failure) :: entries, result =>
    if names pc = [] then fillELFFrames env r names entries (result.set index failure)
    else
      let (display, r) := displayName env r (names pc)
      fillELFFrames env r names entries (result.set index display)

/-- One round of the second loop of `resolveAddrs`. -/
def resolveGroup (result : List Bytes) (group : PendingPCs) : List Bytes × Resolver :=
  match r.symbols group.cache with
  | none => (result, r)
  | some cache =>
    let (names, cache, errors) :=
      resolveELFPCs env r.elfSymbolLimits group.path cache (group.entries.map Prod.fst)
    let r := { r.setSymbols group.cache cache with log := r.log ++ errors }
    fillELFFrames env r names group.entries result

def Placement.frame : Placement → Bytes
  | .failed frame => frame
  | .pending .. => failFrame "elf-load-fail" ""

/-- `resolveAddrs` -/
def resolveAddrs (pid : Nat) (addrs : List Nat) : List Bytes × Resolver :=
  match loadElfCaches env r pid with
  | (none, r) => (addrs.map fun _ => failFrame "elf-load-fail" "", r)
  | (some key, r) =>
    match r.processes pid, r.exeCache key with
    | some process, some cache =>
      let (placements, r) := placeAddrs env r pid process cache addrs
      (groupsOf placements).foldl (fun (result, r) group => resolveGroup env r result group)
        (placements.map Placement.frame, r)
    -- both are there after a load
    | _, _ => (addrs.map fun _ => failFrame "elf-load-fail" "", r)

/-- A sequence of calls with one address each. -/
def serve (calls : List (Nat × Nat)) : Resolver :=
  calls.foldl (fun r call => (resolveAddrs env r call.1 [call.2]).2) r

end Huatuo.Symbol
