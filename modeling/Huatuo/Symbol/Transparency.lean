import Mathlib.Data.List.Induction
import Huatuo.Symbol.Batch
import Huatuo.Symbol.Resolver

/-!
# Resolution with and without caches

`Env.resolve` is the frame of an address computed from the processes and files alone. A resolver
is `Sound` if everything that it keeps is what the environment says; its caches are found by the
inode of a file and a mount, and what is kept under a key belongs to every file with that key.

`resolveAddrs_sound` — if files with one key are the same (`Env.KeysSeparate`), a sound resolver
returns the frame without caches, and stays sound. So what a resolver has served before does not
matter (`serve_transparent`). Inodes are numbered by each file system, and the mount is left out
of the key unless several XFS file systems are mounted: two executables with one inode share an
entry, and the names of one are returned for the other (`shared_inode_names`).
-/

namespace Huatuo.Symbol

open Words Function List Option

/-! ## Without caches -/

variable (env : Env)

/-- The key of a file, for a process that has not been seen. -/
def Env.fileKey (pid : Nat) (path : String) : Option CacheKey :=
  cacheKeyFor env (newUsymResolver {}) pid path

/-- Where an address is looked up. -/
inductive Location where
  | failed (frame : Bytes)
  | exe (pc : Nat)
  | lib (path : String) (pc : Nat) (failure : Bytes)
  deriving DecidableEq, Repr

def Env.locateElsewhere (pid : Nat) (exe : File) (addr : Nat) : Location :=
  if (find (sectionsOf exe) addr).isSome then .exe addr
  else
    match env.maps pid with
    | none => .failed (failFrame "procmap-fail" "")
    | some maps =>
      match find maps addr with
      | none => .failed (failFrame "proc-unmapped" "")
      | some m =>
        if isLibPath m.pathname then
          if (env.fileKey pid (rootDir pid ++ m.pathname)).isSome ∧
              (env.openELF (rootDir pid ++ m.pathname)).isSome then
            .lib (rootDir pid ++ m.pathname) (m.pc addr) (failFrame "lib-no-sym" m.pathname)
          else .failed (failFrame "lib-load-fail" m.pathname)
        else .failed (failFrame "non-lib" m.pathname)

def Env.locate (pid : Nat) (path : String) (exe : File) (addr : Nat) : Location :=
  match (env.maps pid).bind fun maps => find maps addr with
  | some m =>
    if exe.typ = .dyn ∧ m.pathname = trimStart path (rootDir pid) then .exe (m.pc addr)
    else env.locateElsewhere pid exe addr
  | none => env.locateElsewhere pid exe addr

/-- The frame of a counter of a file. -/
def Env.nameOr (path : String) (pc : Nat) (failure : Bytes) : Bytes :=
  match env.openELF path with
  | none => failure
  | some f => if elfName f pc = [] then failure else env.demangle (elfName f pc)

/-- The executable of a process, if it can be loaded. -/
def Env.exeFile (pid : Nat) : Option (String × File) :=
  match exePath env pid with
  | none => none
  | some path =>
    if (env.fileKey pid path).isSome then (env.openELF path).map fun f => (path, f) else none

def Env.resolve (pid addr : Nat) : Bytes :=
  match env.exeFile pid with
  | none => failFrame "elf-load-fail" ""
  | some (path, exe) =>
    match env.locate pid path exe addr with
    | .failed frame => frame
    | .exe pc => env.nameOr path pc (failFrame "elf-no-sym" "")
    | .lib path pc failure => env.nameOr path pc failure

/-! ## What a resolver keeps -/

structure CacheSound (f : File) (cache : ELFSymbolCache) : Prop where
  state : Consistent f cache.state
  names : ∀ entry ∈ cache.namesByELFPC, elfName f entry.1 = entry.2

/-- The library that an address is looked up in, if neither a mapping nor a section of the
executable has it. -/
def Env.library (pid addr : Nat) : Option String :=
  match env.exeFile pid, (env.maps pid).bind fun maps => find maps addr with
  | some (path, exe), some m =>
    if exe.typ = .dyn ∧ m.pathname = trimStart path (rootDir pid) then none
    else if (find (sectionsOf exe) addr).isSome then none
    else if isLibPath m.pathname then some (rootDir pid ++ m.pathname)
    else none
  | _, _ => none

/-- The executable of a process that is asked about. -/
def Env.LoadsExe (calls : List (Nat × Nat)) (pid : Nat) (path : String) : Prop :=
  pid ∈ calls.map Prod.fst ∧ exePath env pid = some path

/-- A library that some call needs. -/
def Env.LoadsLib (calls : List (Nat × Nat)) (pid : Nat) (path : String) : Prop :=
  ∃ addr, (pid, addr) ∈ calls ∧ env.library pid addr = some path

/-- The executables that the calls load and that have one key are the same file, and so are the
libraries that they load. An executable and a library may share a key: they are kept apart. -/
structure Env.KeysSeparate (env : Env) (calls : List (Nat × Nat)) : Prop where
  exe : ∀ pid pid' path path' key, env.LoadsExe calls pid path → env.LoadsExe calls pid' path' →
    env.fileKey pid path = some key → env.fileKey pid' path' = some key →
    env.openELF path = env.openELF path'
  lib : ∀ pid pid' path path' key, env.LoadsLib calls pid path → env.LoadsLib calls pid' path' →
    env.fileKey pid path = some key → env.fileKey pid' path' = some key →
    env.openELF path = env.openELF path'

structure Sound (env : Env) (calls : List (Nat × Nat)) (r : Resolver) : Prop where
  procmaps : ∀ pid maps, r.procmaps pid = some maps → env.maps pid = some maps
  names : ∀ name display, r.names name = some display → env.demangle name = display
  processes : ∀ pid process, r.processes pid = some process →
    env.LoadsExe calls pid process.path ∧
    env.fileKey pid process.path = some process.cacheKey ∧ (r.exeCache process.cacheKey).isSome
  exeCache : ∀ key cache, r.exeCache key = some cache →
    ∀ pid path, env.LoadsExe calls pid path → env.fileKey pid path = some key →
    ∃ f, env.openELF path = some f ∧ cache.sections = sectionsOf f ∧ cache.typ = f.typ ∧
      CacheSound f cache.symbols
  libKeys : ∀ path key, r.libKeys path = some key →
    ∃ pid, env.LoadsLib calls pid path ∧ env.fileKey pid path = some key ∧
      (r.libCaches key).isSome
  libCaches : ∀ key cache, r.libCaches key = some cache →
    ∀ pid path, env.LoadsLib calls pid path → env.fileKey pid path = some key →
    ∃ f, env.openELF path = some f ∧ CacheSound f cache

theorem sound_new (env : Env) (calls : List (Nat × Nat)) (limits : ELFSymbolLimits) :
    Sound env calls (newUsymResolver limits) where
  procmaps := nofun
  names := nofun
  processes := nofun
  exeCache := nofun
  libKeys := nofun
  libCaches := nofun

section Loading

variable {env : Env} {calls : List (Nat × Nat)} {r r' : Resolver} {pid : Nat}

/-! ## Keys -/

theorem toList_toString (n : Nat) : (toString n).toList = Nat.toDigits 10 n := by
  rw [Nat.toString_eq_repr, Nat.repr, String.toList_ofList]

theorem ne_slash_of_mem_toString {n : Nat} {c : Char} (h : c ∈ (toString n).toList) : c ≠ '/' := by
  rw [toList_toString] at h
  have hdigit : c.isDigit = true := Nat.isDigit_of_mem_toDigits (by decide) (by decide) h
  rintro rfl
  cases hdigit

variable {path : String} {key : CacheKey} {pc : Nat}

/-- A path names its process. -/
theorem rootDir_inj {pid' : Nat} {path' : String}
    (h : rootDir pid ++ path = rootDir pid' ++ path') :
    pid = pid' := by
  have hlists := congrArg String.toList h
  simp only [rootDir, String.toList_append, append_assoc, append_cancel_left_eq] at hlists
  have hdig (n : Nat) (rest : List Char) :
      ((toString n).toList ++ ("/root".toList ++ rest)).takeWhile (· ≠ '/') =
        (toString n).toList := by
    rw [takeWhile_append_of_pos fun c hc => decide_eq_true (ne_slash_of_mem_toString hc)]
    exact append_nil _
  have heq := congrArg (List.takeWhile (· ≠ '/')) hlists
  rw [hdig, hdig, toList_toString, toList_toString] at heq
  have hnum (n : Nat) : Nat.ofDigitChars 10 (Nat.toDigits 10 n) 0 = n :=
    Nat.ofDigitChars_toDigits (by decide) (by decide)
  rw [← hnum pid, heq, hnum]

/-- In a container the key of a known process has the mount that would be looked up. -/
theorem mountKeyForPID_sound (hsound : Sound env calls r) (path : String) :
    mountKeyForPID env r pid path = mountKeyForPID env (newUsymResolver {}) pid path := by
  unfold mountKeyForPID
  cases hmou : env.xfsMounts with
  | none => rfl
  | some mounts =>
    dsimp only
    split
    · rfl
    next hlen =>
    cases hcon : env.inContainer pid with
    | none => rfl
    | some contained =>
      cases contained with
      | false => rfl
      | true =>
        cases hpro : r.processes pid with
        | none => rfl
        | some process =>
          obtain ⟨-, hkey, -⟩ := hsound.processes pid process hpro
          unfold Env.fileKey cacheKeyFor mountKeyForPID at hkey
          rw [hmou, hcon] at hkey
          dsimp only at hkey
          split at hkey
          · cases hkey
          rw [if_neg hlen] at hkey
          obtain ⟨mountKey, hmount, hprocessKey⟩ := map_eq_some_iff.1 hkey
          refine Eq.trans ?_ hmount.symm
          exact (congrArg (fun key => some (CacheKey.mountKey key)) hprocessKey).symm

theorem cacheKeyFor_sound (hsound : Sound env calls r) (path : String) :
    cacheKeyFor env r pid path = env.fileKey pid path := by
  unfold Env.fileKey cacheKeyFor
  rw [mountKeyForPID_sound hsound]

/-! ## Loading -/

theorem update_eq_some {κ β : Type*} [DecidableEq κ] {table : κ → Option β} {key key' : κ}
    {value value' : β} (h : update table key (some value) key' = some value') :
    key' = key ∧ value' = value ∨ table key' = some value' := by
  by_cases heq : key' = key
  · subst heq
    rw [update_self] at h
    exact .inl ⟨rfl, (Option.some.inj h).symm⟩
  · rw [update_of_ne heq] at h
    exact .inr h

theorem update_isSome {κ β : Type*} [DecidableEq κ] {table : κ → Option β} {key key' : κ}
    {value : β} (h : (table key').isSome) : (update table key (some value) key').isSome := by
  by_cases heq : key' = key
  · simp [heq]
  · rwa [update_of_ne heq]

theorem cacheSound_new (f : File) (limits : ELFSymbolLimits) : CacheSound f (newCache limits) where
  state := consistent_new f limits
  names := fun _ h => absurd h not_mem_nil

theorem loadProcMaps_sound {out : Option (List ProcMap)} (hsound : Sound env calls r)
    (h : loadProcMaps env r pid = (out, r')) :
    out = env.maps pid ∧ Sound env calls r' ∧ r' = { r with procmaps := r'.procmaps } := by
  unfold loadProcMaps at h
  split at h
  · next maps hcac =>
    cases h
    exact ⟨(hsound.procmaps pid maps hcac).symm, hsound, rfl⟩
  split at h
  · next hmaps =>
    cases h
    exact ⟨hmaps.symm, hsound, rfl⟩
  · next maps hmaps =>
    cases h
    refine ⟨hmaps.symm, { hsound with procmaps := fun pid' maps' hpid' => ?_ }, rfl⟩
    rcases update_eq_some hpid' with ⟨rfl, rfl⟩ | hpid'
    · exact hmaps
    · exact hsound.procmaps pid' maps' hpid'

/-- A process is entered under the key of its executable. -/
theorem Sound.enter (hsound : Sound env calls r) (hpath : env.LoadsExe calls pid path)
    (hkey : env.fileKey pid path = some key) (hcac : (r.exeCache key).isSome) :
    Sound env calls { r with processes := update r.processes pid (some ⟨key, path⟩) } :=
  { hsound with
    processes := by
      intro pid' process hpro
      rcases update_eq_some hpro with ⟨rfl, rfl⟩ | hpro
      · exact ⟨hpath, hkey, hcac⟩
      · exact hsound.processes pid' process hpro }

/-- A new entry for an executable: with separate keys it is right for every process with the key. -/
theorem Sound.addExe {f : File} {cache : ExecutableCache} (hkeys : env.KeysSeparate calls)
    (hsound : Sound env calls r) (hpath : env.LoadsExe calls pid path)
    (hkey : env.fileKey pid path = some key) (hopen : env.openELF path = some f)
    (hsec : cache.sections = sectionsOf f) (htyp : cache.typ = f.typ)
    (hsyms : CacheSound f cache.symbols) :
    Sound env calls { r with exeCache := update r.exeCache key (some cache) } :=
  { hsound with
    processes := by
      intro pid' process hpro
      obtain ⟨hpath', hkey', hcac⟩ := hsound.processes pid' process hpro
      exact ⟨hpath', hkey', update_isSome hcac⟩
    exeCache := by
      intro key' cache' hcache' pid' path' hpath' hkey'
      rcases update_eq_some hcache' with ⟨rfl, rfl⟩ | hcache'
      · exact ⟨f, (hkeys.exe pid' pid path' path _ hpath' hpath hkey' hkey).trans hopen, hsec,
          htyp, hsyms⟩
      · exact hsound.exeCache key' cache' hcache' pid' path' hpath' hkey' }

/-- The executable of a process is loaded if it can be, whatever has been loaded before. -/
theorem loadElfCaches_sound {out : Option CacheKey} (hkeys : env.KeysSeparate calls)
    (hsound : Sound env calls r) (hcall : pid ∈ calls.map Prod.fst)
    (h : loadElfCaches env r pid = (out, r')) :
    Sound env calls r' ∧
    ((out = none ∧ env.exeFile pid = none) ∨
      ∃ key path f cache, out = some key ∧ env.exeFile pid = some (path, f) ∧
        r'.processes pid = some ⟨key, path⟩ ∧ r'.exeCache key = some cache ∧
        cache.sections = sectionsOf f ∧ cache.typ = f.typ) := by
  have hloa {r : Resolver} {key : CacheKey} {path : String} (hsound : Sound env calls r)
      (hpro : r.processes pid = some ⟨key, path⟩) :
      ∃ key' path f cache, some key = some key' ∧ env.exeFile pid = some (path, f) ∧
        r.processes pid = some ⟨key', path⟩ ∧ r.exeCache key' = some cache ∧
        cache.sections = sectionsOf f ∧ cache.typ = f.typ := by
    obtain ⟨hloads, hkey, hcac⟩ := hsound.processes pid _ hpro
    obtain ⟨cache, hcache⟩ := isSome_iff_exists.1 hcac
    obtain ⟨f, hopen, hsec, htyp, -⟩ := hsound.exeCache _ _ hcache pid _ hloads hkey
    refine ⟨key, path, f, cache, rfl, ?_, hpro, hcache, hsec, htyp⟩
    simp [Env.exeFile, hloads.2, hkey, hopen]
  unfold loadElfCaches at h
  split at h
  · next process hpro =>
    cases h
    exact ⟨hsound, .inr (hloa hsound (filter_eq_some_iff.1 hpro).1)⟩
  split at h
  · next hpath =>
    cases h
    exact ⟨hsound, .inl ⟨rfl, by rw [Env.exeFile, hpath]⟩⟩
  next path hpath =>
  rw [cacheKeyFor_sound hsound] at h
  split at h
  · next hkey =>
    cases h
    exact ⟨hsound, .inl ⟨rfl, by simp [Env.exeFile, hpath, hkey]⟩⟩
  next key hkey =>
  have hloads : env.LoadsExe calls pid path := ⟨hcall, hpath⟩
  dsimp only at h
  split at h
  · next hcac =>
    cases h
    have hent := hsound.enter hloads hkey hcac
    exact ⟨hent, .inr (hloa hent (update_self ..))⟩
  split at h
  · next hopen =>
    cases h
    exact ⟨hsound, .inl ⟨rfl, by simp [Env.exeFile, hpath, hkey, hopen]⟩⟩
  · next f hopen =>
    cases h
    have hadded : Sound env calls
        { r with
          exeCache := update r.exeCache key
            (some ⟨sectionsOf f, f.typ, newCache r.elfSymbolLimits⟩) } :=
      hsound.addExe hkeys hloads hkey hopen rfl rfl (cacheSound_new f _)
    have hent := hadded.enter hloads hkey (by simp)
    exact ⟨hent, .inr (hloa hent (update_self ..))⟩

/-- A new state of the cache of a library. -/
theorem Sound.setLib {f : File} {cache : ELFSymbolCache} (hkeys : env.KeysSeparate calls)
    (hsound : Sound env calls r) (hloads : env.LoadsLib calls pid path)
    (hkey : env.fileKey pid path = some key) (hopen : env.openELF path = some f)
    (hcache : CacheSound f cache) :
    Sound env calls { r with libCaches := update r.libCaches key (some cache) } :=
  { hsound with
    libKeys := by
      intro path' key' hpath'
      obtain ⟨pid', hloads', hkey', hcac⟩ := hsound.libKeys path' key' hpath'
      exact ⟨pid', hloads', hkey', update_isSome hcac⟩
    libCaches := by
      intro key' cache' hcache' pid' path' hloads' hkey'
      rcases update_eq_some hcache' with ⟨rfl, rfl⟩ | hcache'
      · exact ⟨f, (hkeys.lib pid' pid path' path _ hloads' hloads hkey' hkey).trans hopen, hcache⟩
      · exact hsound.libCaches key' cache' hcache' pid' path' hloads' hkey' }

theorem Sound.enterLib (hsound : Sound env calls r) (hloads : env.LoadsLib calls pid path)
    (hkey : env.fileKey pid path = some key) (hcac : (r.libCaches key).isSome) :
    Sound env calls { r with libKeys := update r.libKeys path (some key) } :=
  { hsound with
    libKeys := by
      intro path' key' hpath'
      rcases update_eq_some hpath' with ⟨rfl, rfl⟩ | hpath'
      · exact ⟨pid, hloads, hkey, hcac⟩
      · exact hsound.libKeys path' key' hpath' }

theorem library_path {addr : Nat} (h : env.library pid addr = some path) :
    ∃ name, path = rootDir pid ++ name := by
  unfold Env.library at h
  split at h
  · next m _ _ =>
    split_ifs at h
    exact ⟨m.pathname, (Option.some.inj h).symm⟩
  · cases h

theorem loadsLib_inj {pid' : Nat} (h : env.LoadsLib calls pid path)
    (h' : env.LoadsLib calls pid' path) : pid = pid' := by
  obtain ⟨addr, -, hlib⟩ := h
  obtain ⟨addr', -, hlib'⟩ := h'
  obtain ⟨name, rfl⟩ := library_path hlib
  obtain ⟨name', hpath⟩ := library_path hlib'
  exact rootDir_inj hpath

/-- A library is loaded if it can be, whatever has been loaded before. -/
theorem loadLibCache_sound {libPath : String} {out : Option CacheKey}
    (hkeys : env.KeysSeparate calls) (hsound : Sound env calls r)
    (hloads : env.LoadsLib calls pid libPath) (h : loadLibCache env r pid libPath = (out, r')) :
    Sound env calls r' ∧
    ((out = none ∧ ¬ ((env.fileKey pid libPath).isSome ∧ (env.openELF libPath).isSome)) ∨
      ∃ key cache, out = some key ∧ env.fileKey pid libPath = some key ∧
        (env.openELF libPath).isSome ∧ r'.libCaches key = some cache) := by
  have hloa {r : Resolver} {key : CacheKey} (hsound : Sound env calls r)
      (hkey : env.fileKey pid libPath = some key) (hcac : (r.libCaches key).isSome) :
      ∃ key' cache, some key = some key' ∧ env.fileKey pid libPath = some key' ∧
        (env.openELF libPath).isSome ∧ r.libCaches key' = some cache := by
    obtain ⟨cache, hcache⟩ := isSome_iff_exists.1 hcac
    obtain ⟨f, hopen, -⟩ := hsound.libCaches _ _ hcache pid _ hloads hkey
    exact ⟨key, cache, rfl, hkey, by rw [hopen]; rfl, hcache⟩
  unfold loadLibCache at h
  split at h
  · next key hfound =>
    cases h
    obtain ⟨hent, hcac⟩ := filter_eq_some_iff.1 hfound
    obtain ⟨pid', hloads', hkey, -⟩ := hsound.libKeys _ _ hent
    obtain rfl := loadsLib_inj hloads hloads'
    exact ⟨hsound, .inr (hloa hsound hkey hcac)⟩
  rw [cacheKeyFor_sound hsound] at h
  split at h
  · next hkey =>
    cases h
    exact ⟨hsound, .inl ⟨rfl, by simp [hkey]⟩⟩
  next key hkey =>
  dsimp only at h
  split at h
  · next hcac =>
    cases h
    have hent := hsound.enterLib hloads hkey hcac
    exact ⟨hent, .inr (hloa hent hkey hcac)⟩
  split at h
  · next hopen =>
    cases h
    exact ⟨hsound, .inl ⟨rfl, by simp [hopen]⟩⟩
  · next f hopen =>
    cases h
    have hadded := hsound.setLib hkeys hloads hkey hopen (cacheSound_new f r.elfSymbolLimits)
    have hent := hadded.enterLib hloads hkey (by simp)
    exact ⟨hent, .inr (hloa hent hkey (by simp))⟩

/-! ## Placing -/

/-- The cache of a file: what it holds is right, and it may be replaced by another cache that is
right for the file. -/
def Holds (env : Env) (calls : List (Nat × Nat)) (r : Resolver) (ref : CacheRef)
    (path : String) : Prop :=
  ∃ f cache, env.openELF path = some f ∧ r.symbols ref = some cache ∧ CacheSound f cache ∧
    ∀ cache', CacheSound f cache' → Sound env calls (r.setSymbols ref cache')

theorem holds_exe {process : ProcessELF} (hkeys : env.KeysSeparate calls)
    (hsound : Sound env calls r) (hpro : r.processes pid = some process) :
    Holds env calls r (.exe process.cacheKey) process.path := by
  obtain ⟨hpath, hkey, hcac⟩ := hsound.processes pid process hpro
  obtain ⟨exe, hexe⟩ := isSome_iff_exists.1 hcac
  obtain ⟨f, hopen, hsec, htyp, hcache⟩ := hsound.exeCache _ _ hexe pid _ hpath hkey
  refine ⟨f, exe.symbols, hopen, by simp [Resolver.symbols, hexe], hcache, fun cache' hcache' => ?_⟩
  have hset : r.setSymbols (.exe process.cacheKey) cache' =
      { r with
        exeCache := update r.exeCache process.cacheKey
          (some { exe with symbols := cache' }) } := by
    rw [Resolver.setSymbols, hexe]
    rfl
  rw [hset]
  exact hsound.addExe hkeys hpath hkey hopen hsec htyp hcache'

theorem holds_lib {cache : ELFSymbolCache} (hkeys : env.KeysSeparate calls)
    (hsound : Sound env calls r) (hloads : env.LoadsLib calls pid path)
    (hkey : env.fileKey pid path = some key) (hcac : r.libCaches key = some cache) :
    Holds env calls r (.lib key) path := by
  obtain ⟨f, hopen, hcache⟩ := hsound.libCaches _ _ hcac pid _ hloads hkey
  exact ⟨f, cache, hopen, hcac, hcache, fun _ hcache' =>
    hsound.setLib hkeys hloads hkey hopen hcache'⟩

/-- An address is placed where it is without caches. -/
inductive Agrees (env : Env) (calls : List (Nat × Nat)) (r : Resolver) (process : ProcessELF) :
    Placement → Location → Prop
  | failed (frame : Bytes) : Agrees env calls r process (.failed frame) (.failed frame)
  | exe (pc : Nat) (h : Holds env calls r (.exe process.cacheKey) process.path) :
      Agrees env calls r process
        (.pending process.path (.exe process.cacheKey) pc (failFrame "elf-no-sym" "")) (.exe pc)
  | lib {path : String} {key : CacheKey} (pc : Nat) (failure : Bytes)
      (h : Holds env calls r (.lib key) path) :
      Agrees env calls r process (.pending path (.lib key) pc failure) (.lib path pc failure)

variable {process : ProcessELF} {cache : ExecutableCache} {f : File} {addr : Nat}
  {placement : Placement}

/-- The mapping of the address is not one of a position-independent executable. -/
def Env.NotOwn (env : Env) (pid : Nat) (path : String) (f : File) (addr : Nat) : Prop :=
  ∀ maps m, env.maps pid = some maps → find maps addr = some m →
    ¬ (f.typ = .dyn ∧ m.pathname = trimStart path (rootDir pid))

theorem locate_eq_elsewhere (h : env.NotOwn pid path f addr) :
    env.locate pid path f addr = env.locateElsewhere pid f addr := by
  unfold Env.locate
  split
  · next m hfind =>
    obtain ⟨maps, hmaps, hfind⟩ := bind_eq_some_iff.1 hfind
    exact if_neg (h maps m hmaps hfind)
  · rfl

theorem placeElsewhere_sound (hkeys : env.KeysSeparate calls) (hsound : Sound env calls r)
    (hcall : (pid, addr) ∈ calls) (hexe : env.exeFile pid = some (process.path, f))
    (hpro : r.processes pid = some process) (hsec : cache.sections = sectionsOf f)
    (hown : env.NotOwn pid process.path f addr)
    (h : placeElsewhere env r pid process cache addr = (placement, r')) :
    Sound env calls r' ∧
    Agrees env calls r' process placement (env.locate pid process.path f addr) := by
  rw [locate_eq_elsewhere hown]
  unfold placeElsewhere at h
  unfold Env.locateElsewhere
  rw [hsec] at h
  split at h
  · next hfound =>
    cases h
    rw [if_pos hfound]
    exact ⟨hsound, .exe _ (holds_exe hkeys hsound hpro)⟩
  next hfound =>
  rw [if_neg hfound]
  split at h
  · next r₁ hload =>
    cases h
    obtain ⟨hmaps, hsound₁, -⟩ := loadProcMaps_sound hsound hload
    rw [← hmaps]
    exact ⟨hsound₁, .failed _⟩
  next maps r₁ hload =>
  obtain ⟨hmaps, hsound₁, -⟩ := loadProcMaps_sound hsound hload
  rw [← hmaps]
  cases hfind : find maps addr with simp only [hfind] at h ⊢
  | none =>
    cases h
    exact ⟨hsound₁, .failed _⟩
  | some m =>
  split at h
  · next hlib =>
    rw [if_pos hlib]
    have hloads : env.LoadsLib calls pid (rootDir pid ++ m.pathname) := by
      refine ⟨addr, hcall, ?_⟩
      rw [Env.library, hexe, ← hmaps, bind_some, hfind]
      dsimp only
      rw [if_neg (hown maps m hmaps.symm hfind), if_neg hfound, if_pos hlib]
    split at h
    · next r₂ hloadLib =>
      cases h
      obtain ⟨hsound₂, ⟨-, hnot⟩ | ⟨key, _, hout, -⟩⟩ :=
        loadLibCache_sound hkeys hsound₁ hloads hloadLib
      · rw [if_neg hnot]
        exact ⟨hsound₂, .failed _⟩
      · cases hout
    · next key r₂ hloadLib =>
      cases h
      obtain ⟨hsound₂, ⟨hout, -⟩ | ⟨_, cache', hout, hkey, hopen, hcac⟩⟩ :=
        loadLibCache_sound hkeys hsound₁ hloads hloadLib
      · cases hout
      · cases hout
        rw [if_pos ⟨by rw [hkey]; rfl, hopen⟩]
        exact ⟨hsound₂, .lib _ _ (holds_lib hkeys hsound₂ hloads hkey hcac)⟩
  · next hlib =>
    cases h
    rw [if_neg hlib]
    exact ⟨hsound₁, .failed _⟩

theorem placeAddr_sound (hkeys : env.KeysSeparate calls) (hsound : Sound env calls r)
    (hcall : (pid, addr) ∈ calls) (hexe : env.exeFile pid = some (process.path, f))
    (hpro : r.processes pid = some process) (hsec : cache.sections = sectionsOf f)
    (htyp : cache.typ = f.typ) (h : placeAddr env r pid process cache addr = (placement, r')) :
    Sound env calls r' ∧
    Agrees env calls r' process placement (env.locate pid process.path f addr) := by
  unfold placeAddr at h
  dsimp only at h
  rw [htyp] at h
  split at h
  · next hdyn =>
    split at h
    · next r₁ hload =>
      obtain ⟨hmaps, hsound₁, hr₁⟩ := loadProcMaps_sound hsound hload
      have hpro₁ : r₁.processes pid = some process := by rw [hr₁, hpro]
      refine placeElsewhere_sound hkeys hsound₁ hcall hexe hpro₁ hsec (fun maps m hmaps' => ?_) h
      cases hmaps.trans hmaps'
    next maps r₁ hload =>
    obtain ⟨hmaps, hsound₁, hr₁⟩ := loadProcMaps_sound hsound hload
    have hpro₁ : r₁.processes pid = some process := by rw [hr₁, hpro]
    split at h
    · next m hfil =>
      cases h
      obtain ⟨hfind, hpath⟩ := filter_eq_some_iff.1 hfil
      rw [Env.locate, ← hmaps, bind_some, hfind]
      dsimp only
      rw [if_pos ⟨hdyn.1, of_decide_eq_true hpath⟩]
      exact ⟨hsound₁, .exe _ (holds_exe hkeys hsound₁ hpro₁)⟩
    · next hfil =>
      refine placeElsewhere_sound hkeys hsound₁ hcall hexe hpro₁ hsec
        (fun maps' m hmaps' hfind hown => ?_) h
      cases hmaps.trans hmaps'
      exact filter_eq_none_iff.1 hfil m hfind (decide_eq_true hown.2)
  · next hdyn =>
    refine placeElsewhere_sound hkeys hsound hcall hexe hpro hsec (fun maps m _ hfind hown => ?_) h
    exact hdyn ⟨hown.1, hown.2 ▸ find_pathname_ne hfind⟩

/-! ## Resolving -/

theorem mem_keepNames {limit : Nat} {names : List (Nat × Bytes)} {syms : List Symbol}
    {entry : Nat × Bytes} (h : entry ∈ keepNames limit names syms) :
    entry ∈ names ∨ ∃ sym ∈ syms, entry = (sym.addr, sym.name) := by
  unfold keepNames at h
  induction syms generalizing names with
  | nil => exact .inl h
  | cons sym syms ih =>
    rw [foldl_cons] at h
    rcases ih h with hnames | ⟨sym', hsym', heq⟩
    · split at hnames
      · rcases mem_cons.1 hnames with rfl | hnames
        · exact .inr ⟨sym, mem_cons_self, rfl⟩
        · exact .inl hnames
      · exact .inl hnames
    · exact .inr ⟨sym', mem_cons_of_mem _ hsym', heq⟩

/-- One counter of a file is named as without caches. -/
theorem resolveELFPCs_sound {limits : ELFSymbolLimits} {symbols symbols' : ELFSymbolCache}
    {names : Nat → Bytes} {errors : List ParseError} (hagree : f.StringsAgree)
    (hopen : env.openELF path = some f) (hcache : CacheSound f symbols)
    (h : resolveELFPCs env limits path symbols [pc] = (names, symbols', errors))
    (hlim : ∀ err ∈ errors, err.isLimit = false) :
    CacheSound f symbols' ∧ names pc = elfName f pc := by
  unfold resolveELFPCs at h
  dsimp only at h
  by_cases hcac : (symbols.namesByELFPC.lookup pc).getD [] = []
  · have hunr : ([pc].filter fun pc =>
        (symbols.namesByELFPC.lookup pc).getD [] = []).eraseDups = [pc] := by
      have hfil : ([pc].filter fun pc =>
          (symbols.namesByELFPC.lookup pc).getD [] = []) = [pc] := by simp [hcac]
      rw [hfil]
      rfl
    rw [hunr, if_neg (by simp), hopen] at h
    cases h
    obtain ⟨hstt, hname, hfor⟩ := elfSymbolsForPCs_spec hagree hcache.state
      (exact_sublist_singleton f pc) hlim
    refine ⟨⟨hstt, fun entry hentr => ?_⟩, ?_⟩
    · rcases mem_keepNames hentr with hentr | ⟨sym, hsym, rfl⟩
      · exact hcache.names entry hentr
      · exact (hname sym hsym).symm
    · dsimp only
      rw [hfor pc mem_cons_self, hcac]
      split
      · next hnil => exact hnil.symm
      · rfl
  · have hunr : ([pc].filter fun pc =>
        (symbols.namesByELFPC.lookup pc).getD [] = []).eraseDups = [] := by
      simp [hcac]
    rw [hunr, if_pos rfl] at h
    cases h
    refine ⟨hcache, ?_⟩
    cases hlk : symbols.namesByELFPC.lookup pc with
    | none => exact absurd (by rw [hlk]; rfl) hcac
    | some name =>
      dsimp only
      rw [hlk, getD_some]
      exact (hcache.names _ (mem_of_lookup hlk)).symm

theorem displayName_sound {name display : Bytes} (hsound : Sound env calls r)
    (h : displayName env r name = (display, r')) :
    Sound env calls r' ∧ display = env.demangle name := by
  unfold displayName at h
  split at h
  · next cached hcac =>
    cases h
    exact ⟨hsound, (hsound.names name display hcac).symm⟩
  · cases h
    refine ⟨{ hsound with names := fun name' display' hname' => ?_ }, rfl⟩
    rcases update_eq_some hname' with ⟨rfl, rfl⟩ | hname'
    · rfl
    · exact hsound.names name' display' hname'

theorem Sound.withLog (hsound : Sound env calls r) (log : List ParseError) :
    Sound env calls { r with log := log } :=
  ⟨hsound.procmaps, hsound.names, hsound.processes, hsound.exeCache, hsound.libKeys,
    hsound.libCaches⟩

theorem displayName_log {name display : Bytes} (h : displayName env r name = (display, r')) :
    r'.log = r.log := by
  unfold displayName at h
  split at h <;> cases h <;> rfl

/-- A group of one counter, for the only address of a call. -/
theorem resolveGroup_sound {ref : CacheRef} {failure frame : Bytes} {result : List Bytes}
    (hfiles : ∀ path f, env.openELF path = some f → f.StringsAgree)
    (hholds : Holds env calls r ref path)
    (h : resolveGroup env r [frame] ⟨path, ref, [(pc, 0, failure)]⟩ = (result, r'))
    (hlim : ∀ err ∈ r'.log, err.isLimit = false) :
    Sound env calls r' ∧ result = [env.nameOr path pc failure] := by
  obtain ⟨f, symbols, hopen, hsyms, hcache, hrep⟩ := hholds
  unfold resolveGroup at h
  rw [hsyms] at h
  dsimp only at h
  rcases hreso : resolveELFPCs env r.elfSymbolLimits path symbols
    ([(pc, 0, failure)].map Prod.fst) with ⟨names, symbols', errors⟩
  rw [hreso] at h
  dsimp only at h
  have hres (herro : ∀ err ∈ errors, err.isLimit = false) :=
    resolveELFPCs_sound (hfiles path f hopen) hopen hcache hreso herro
  simp only [Env.nameOr, hopen]
  unfold fillELFFrames at h
  split at h
  · next hnone =>
    cases h
    obtain ⟨hcache', hname⟩ := hres fun err herr =>
      hlim err (mem_append_right _ herr)
    rw [if_pos (hname ▸ hnone)]
    exact ⟨(hrep _ hcache').withLog _, rfl⟩
  · next hsome =>
    dsimp only at h
    rcases hdis : displayName env
      { r.setSymbols ref symbols' with log := r.log ++ errors } (names pc) with ⟨display, r₁⟩
    rw [hdis] at h
    cases h
    have hlog := displayName_log hdis
    obtain ⟨hcache', hname⟩ := hres fun err herr =>
      hlim err (hlog ▸ mem_append_right _ herr)
    obtain ⟨hsound', hdisp⟩ := displayName_sound ((hrep _ hcache').withLog _) hdis
    rw [if_neg (hname ▸ hsome), hdisp, hname]
    exact ⟨hsound', rfl⟩

/-- A call for one address returns the frame without caches. -/
theorem resolveAddrs_sound {frames : List Bytes} (hkeys : env.KeysSeparate calls)
    (hfiles : ∀ path f, env.openELF path = some f → f.StringsAgree) (hsound : Sound env calls r)
    (hcall : (pid, addr) ∈ calls) (h : resolveAddrs env r pid [addr] = (frames, r'))
    (hlim : ∀ err ∈ r'.log, err.isLimit = false) :
    Sound env calls r' ∧ frames = [env.resolve pid addr] := by
  unfold resolveAddrs at h
  unfold Env.resolve
  have hpid : pid ∈ calls.map Prod.fst := mem_map.2 ⟨_, hcall, rfl⟩
  split at h
  · next r₁ hload =>
    cases h
    obtain ⟨hsound₁, ⟨-, hnone⟩ | ⟨_, _, _, _, hout, -⟩⟩ :=
      loadElfCaches_sound hkeys hsound hpid hload
    · rw [hnone]
      exact ⟨hsound₁, rfl⟩
    · cases hout
  next key r₁ hload =>
  obtain ⟨hsound₁, ⟨hout, -⟩ | ⟨_, path, f, exe, hout, hexe, hpro, hcac, hsec, htyp⟩⟩ :=
    loadElfCaches_sound hkeys hsound hpid hload
  · cases hout
  cases hout
  rw [hexe]
  rw [hpro, hcac] at h
  dsimp only [placeAddrs] at h
  rcases hplace : placeAddr env r₁ pid ⟨key, path⟩ exe addr with ⟨placement, r₂⟩
  obtain ⟨hsound₂, hagr⟩ := placeAddr_sound hkeys hsound₁ hcall hexe hpro hsec htyp hplace
  rw [hplace] at h
  dsimp only at h hagr ⊢
  generalize env.locate pid path f addr = location at hagr ⊢
  cases hagr with
  | failed frame =>
    cases h
    exact ⟨hsound₂, rfl⟩
  | exe pc hholds => exact resolveGroup_sound hfiles hholds h hlim
  | lib pc failure hholds => exact resolveGroup_sound hfiles hholds h hlim

end Loading

/-! ## The log -/

section Log

variable {env : Env} {r r' : Resolver} {pid : Nat} {process : ProcessELF} {cache : ExecutableCache}
  {addr : Nat} {placement : Placement}

theorem loadElfCaches_log {out : Option CacheKey} (h : loadElfCaches env r pid = (out, r')) :
    r'.log = r.log := by
  unfold loadElfCaches at h
  split at h
  · cases h
    rfl
  split at h
  · cases h
    rfl
  split at h
  · cases h
    rfl
  dsimp only at h
  (repeat' split at h) <;> cases h <;> rfl

theorem loadProcMaps_log {out : Option (List ProcMap)} (h : loadProcMaps env r pid = (out, r')) :
    r'.log = r.log := by
  unfold loadProcMaps at h
  (repeat' split at h) <;> cases h <;> rfl

theorem loadLibCache_log {libPath : String} {out : Option CacheKey}
    (h : loadLibCache env r pid libPath = (out, r')) : r'.log = r.log := by
  unfold loadLibCache at h
  split at h
  · cases h
    rfl
  split at h
  · cases h
    rfl
  dsimp only at h
  (repeat' split at h) <;> cases h <;> rfl

theorem placeElsewhere_log (h : placeElsewhere env r pid process cache addr = (placement, r')) :
    r'.log = r.log := by
  unfold placeElsewhere at h
  split at h
  · cases h
    rfl
  split at h
  · next hload =>
    cases h
    exact loadProcMaps_log hload
  next hload =>
  split at h
  · cases h
    exact loadProcMaps_log hload
  split at h
  · split at h
    · next hloadLib =>
      cases h
      exact (loadLibCache_log hloadLib).trans (loadProcMaps_log hload)
    · next hloadLib =>
      cases h
      exact (loadLibCache_log hloadLib).trans (loadProcMaps_log hload)
  · cases h
    exact loadProcMaps_log hload

theorem placeAddr_log (h : placeAddr env r pid process cache addr = (placement, r')) :
    r'.log = r.log := by
  unfold placeAddr at h
  dsimp only at h
  split at h
  · split at h
    · next hload => exact (placeElsewhere_log h).trans (loadProcMaps_log hload)
    rename_i hload
    split at h
    · cases h
      exact loadProcMaps_log hload
    · exact (placeElsewhere_log h).trans (loadProcMaps_log hload)
  · exact placeElsewhere_log h

theorem placeAddrs_log (env : Env) (pid : Nat) (process : ProcessELF) (cache : ExecutableCache)
    (addrs : List Nat) (r : Resolver) :
    (placeAddrs env r pid process cache addrs).2.log = r.log := by
  induction addrs generalizing r with
  | nil => rfl
  | cons addr addrs ih => exact (ih _).trans (placeAddr_log rfl)

theorem fillELFFrames_log (env : Env) (names : Nat → Bytes) (entries : List (Nat × Nat × Bytes))
    (r : Resolver) (result : List Bytes) :
    (fillELFFrames env r names entries result).2.log = r.log := by
  induction entries generalizing r result with
  | nil => rfl
  | cons entry entries ih =>
    obtain ⟨pc, index, failure⟩ := entry
    unfold fillELFFrames
    split
    · exact ih r _
    · exact (ih _ _).trans (displayName_log rfl)

theorem resolveGroup_log (env : Env) (r : Resolver) (result : List Bytes) (group : PendingPCs) :
    r.log <+: (resolveGroup env r result group).2.log := by
  unfold resolveGroup
  split
  · exact prefix_refl _
  dsimp only
  rw [fillELFFrames_log]
  exact prefix_append _ _

theorem resolveAddrs_log (env : Env) (r : Resolver) (pid : Nat) (addrs : List Nat) :
    r.log <+: (resolveAddrs env r pid addrs).2.log := by
  have hgro (groups : List PendingPCs) (result : List Bytes) (r : Resolver) :
      r.log <+: (groups.foldl (fun (x : List Bytes × Resolver) group =>
        resolveGroup env x.2 x.1 group) (result, r)).2.log := by
    induction groups generalizing result r with
    | nil => exact prefix_refl _
    | cons group groups ih => exact (resolveGroup_log env r result group).trans (ih _ _)
  unfold resolveAddrs
  split
  · next hload => exact (loadElfCaches_log hload).symm ▸ prefix_refl _
  next key r₁ hload =>
  rw [← loadElfCaches_log hload]
  split
  · next process cache _ _ =>
    have hpla := placeAddrs_log env pid process cache addrs r₁
    rw [← hpla]
    exact hgro _ _ _
  · exact prefix_refl _

end Log

/-! ## Calls -/

theorem serve_sound {env : Env} {limits : ELFSymbolLimits} {calls : List (Nat × Nat)}
    (hkeys : env.KeysSeparate calls) (hfiles : ∀ path f, env.openELF path = some f → f.StringsAgree)
    (served : List (Nat × Nat)) (hserved : served ⊆ calls)
    (hlim : ∀ err ∈ (serve env (newUsymResolver limits) served).log, err.isLimit = false) :
    Sound env calls (serve env (newUsymResolver limits) served) := by
  induction served using List.reverseRecOn with
  | nil => exact sound_new env calls limits
  | append_singleton served call ih =>
    obtain ⟨hbefore, hcall⟩ := append_subset.1 hserved
    unfold serve at hlim ih ⊢
    rw [foldl_append, foldl_cons, foldl_nil] at hlim ⊢
    refine (resolveAddrs_sound hkeys hfiles (ih hbefore fun err herr => hlim err ?_)
      (hcall mem_cons_self) rfl hlim).1
    exact (resolveAddrs_log env _ call.1 [call.2]).subset herr

/-- The frame of an address does not depend on what the resolver has served. -/
theorem serve_transparent {env : Env} {limits : ELFSymbolLimits} (calls : List (Nat × Nat))
    (pid addr : Nat) (hkeys : env.KeysSeparate (calls ++ [(pid, addr)]))
    (hfiles : ∀ path f, env.openELF path = some f → f.StringsAgree)
    (hlimits : ∀ err ∈ (serve env (newUsymResolver limits) (calls ++ [(pid, addr)])).log,
      err.isLimit = false)
    (hlimits' : ∀ err ∈ (serve env (newUsymResolver limits) [(pid, addr)]).log,
      err.isLimit = false) :
    (resolveAddrs env (serve env (newUsymResolver limits) calls) pid [addr]).1 =
      (resolveAddrs env (newUsymResolver limits) pid [addr]).1 := by
  have hlast : serve env (newUsymResolver limits) (calls ++ [(pid, addr)]) =
      (resolveAddrs env (serve env (newUsymResolver limits) calls) pid [addr]).2 := by
    unfold serve
    rw [foldl_append, foldl_cons, foldl_nil]
  rw [hlast] at hlimits
  have hcall : (pid, addr) ∈ calls ++ [(pid, addr)] := mem_append_right _ mem_cons_self
  have hbefore := serve_sound hkeys hfiles calls (subset_append_left _ _) fun err herr =>
    hlimits err ((resolveAddrs_log env _ pid [addr]).subset herr)
  have hcached : (resolveAddrs env (serve env (newUsymResolver limits) calls) pid [addr]).1 =
      [env.resolve pid addr] := (resolveAddrs_sound hkeys hfiles hbefore hcall rfl hlimits).2
  have hfresh : (resolveAddrs env (newUsymResolver limits) pid [addr]).1 =
      [env.resolve pid addr] :=
    (resolveAddrs_sound hkeys hfiles (sound_new env _ limits) hcall rfl hlimits').2
  rw [hcached, hfresh]

/-- Two processes whose executables have the inodes given; each has one function at 4096, named by
its process. The first one has loaded a library with the inode of the other's executable. -/
def twoProcesses (inode₁ inode₂ : Nat) : Env where
  executable := fun _ => some "/a"
  maps := fun _ => some [⟨0x400000, 0x402000, 0, "/a"⟩, ⟨0x500000, 0x502000, 0, "/l"⟩]
  inode := fun path =>
    if path = rootDir 1 ++ "/a" then some inode₁
    else if path = rootDir 2 ++ "/a" ∨ path = rootDir 1 ++ "/l" then some inode₂ else none
  openELF := fun path =>
    if path = rootDir 1 ++ "/a" then some (oneSymbol 102)
    else if path = rootDir 2 ++ "/a" then some (oneSymbol 103)
    else if path = rootDir 1 ++ "/l" then some (oneSymbol 104) else none
where
  oneSymbol (name : UInt8) : File :=
    { sections :=
        [{ name := "", typ := .other 0, offset := 0, size := 0, bytes := [] },
          { name := ".symtab"
            typ := .symtab
            offset := 64
            size := 48
            link := 2
            bytes := entry64 0 0 0 ++ entry64 1 4096 256 },
          { name := ".strtab", typ := .strtab, offset := 512, size := 3, bytes := [0, name, 0] }] }

theorem twoProcesses_loadsExe {inode₁ inode₂ : Nat} {calls : List (Nat × Nat)} {pid : Nat}
    {path : String} (h : (twoProcesses inode₁ inode₂).LoadsExe calls pid path) :
    path = rootDir pid ++ "/a" :=
  (Option.some.inj h.2).symm

theorem twoProcesses_stringsAgree {inode₁ inode₂ : Nat} (path : String) (f : File)
    (hopen : (twoProcesses inode₁ inode₂).openELF path = some f) : f.StringsAgree := by
  have hf : ∃ name, f = twoProcesses.oneSymbol name := by
    simp only [twoProcesses] at hopen
    split_ifs at hopen <;> exact ⟨_, (Option.some.inj hopen).symm⟩
  obtain ⟨name, rfl⟩ := hf
  intro source source' symbols strings symbols' strings' h h' _
  cases source with
  | dynsym => cases h
  | symtab =>
    cases source' with
    | dynsym => cases h'
    | symtab =>
      cases h
      cases h'
      rfl

/-- The library has been served under the key of the executable that is asked about. -/
theorem serve_transparent_two :
    (twoProcesses 7 8).fileKey 1 (rootDir 1 ++ "/l") =
      (twoProcesses 7 8).fileKey 2 (rootDir 2 ++ "/a") ∧
    (resolveAddrs (twoProcesses 7 8)
      (serve (twoProcesses 7 8) (newUsymResolver {}) [(1, 0x401000), (1, 0x501000)])
      2 [0x401000]).1 =
    (resolveAddrs (twoProcesses 7 8) (newUsymResolver {}) 2 [0x401000]).1 ∧
    (resolveAddrs (twoProcesses 7 8) (newUsymResolver {}) 2 [0x401000]).1 = [[103]] := by
  refine ⟨by decide +kernel,
    serve_transparent [(1, 0x401000), (1, 0x501000)] 2 0x401000 ⟨?_, ?_⟩ twoProcesses_stringsAgree
      (by decide +kernel) (by decide +kernel), by decide +kernel⟩
  · intro pid pid' path path' key hloads hloads' hkey hkey'
    obtain rfl := twoProcesses_loadsExe hloads
    obtain rfl := twoProcesses_loadsExe hloads'
    have hpid : pid = 1 ∨ pid = 2 := by simpa using hloads.1
    have hpid' : pid' = 1 ∨ pid' = 2 := by simpa using hloads'.1
    have hkeys : (twoProcesses 7 8).fileKey 1 (rootDir 1 ++ "/a") ≠
        (twoProcesses 7 8).fileKey 2 (rootDir 2 ++ "/a") := by decide +kernel
    rcases hpid with rfl | rfl <;> rcases hpid' with rfl | rfl
    · rfl
    · exact absurd (hkey.trans hkey'.symm) hkeys
    · exact absurd (hkey'.trans hkey.symm) hkeys
    · rfl
  · -- only the second call needs a library
    have hlib {pid : Nat} {path : String}
        (h : (twoProcesses 7 8).LoadsLib ([(1, 0x401000), (1, 0x501000)] ++ [(2, 0x401000)])
          pid path) : path = rootDir 1 ++ "/l" := by
      obtain ⟨addr, hmem, hlib⟩ := h
      have hcalls : (pid, addr) = (1, 0x401000) ∨ (pid, addr) = (1, 0x501000) ∨
          (pid, addr) = (2, 0x401000) := by simpa using hmem
      have hone : (twoProcesses 7 8).library 1 0x401000 = none := by decide +kernel
      have htwo : (twoProcesses 7 8).library 2 0x401000 = none := by decide +kernel
      have hsome : (twoProcesses 7 8).library 1 0x501000 = some (rootDir 1 ++ "/l") := by
        decide +kernel
      rcases hcalls with heq | heq | heq <;> cases heq
      · cases hone.symm.trans hlib
      · exact Option.some.inj (hlib.symm.trans hsome)
      · cases htwo.symm.trans hlib
    intro pid pid' path path' key hloads hloads' _ _
    rw [hlib hloads, hlib hloads']

/-- One inode on two file systems: the second process is shown the name of the first one's
function. -/
theorem shared_inode_names :
    (resolveAddrs (twoProcesses 7 7) (serve (twoProcesses 7 7) (newUsymResolver {}) [(1, 0x401000)])
      2 [0x401000]).1 = [[102]] ∧
    (resolveAddrs (twoProcesses 7 7) (newUsymResolver {}) 2 [0x401000]).1 = [[103]] ∧
    (serve (twoProcesses 7 7) (newUsymResolver {}) [(1, 0x401000), (2, 0x401000)]).log = [] := by
  decide +kernel

end Huatuo.Symbol
