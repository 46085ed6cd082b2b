import Huatuo.Symbol.Resolver

/-!
# Counters of mapped addresses

The loader maps the segments of a position-independent image at a bias `b`, a multiple of the page
size; the address `a` then belongs to the virtual address `a - b` of the file, which is what its
symbols refer to. The resolver computes a counter from the mapping alone, as the place of the
address in the file.

`pc_add_pageDown` — the two differ by what the segment's virtual address is ahead of its place in
the file. They agree for segments that are placed at their virtual address
(`groupsOf_placeAddrs_pc`), and for no others (`pc_eq_iff`).
-/

namespace Huatuo.Symbol

open Words List

/-! ## Segments -/

/-- A loadable segment. -/
structure Segment where
  vaddr : Nat
  offset : Nat
  filesz : Nat
  deriving DecidableEq, Repr

def pageDown (page n : Nat) : Nat := n - n % page

/-- A mapping of a segment, or of some pages of it, at a bias. -/
structure MapsSegment (page bias : Nat) (segment : Segment) (m : ProcMap) : Prop where
  congruent : segment.vaddr % page = segment.offset % page
  start : bias + pageDown page segment.vaddr ≤ m.startAddr
  stop : m.endAddr ≤ bias + pageDown page (segment.vaddr + segment.filesz + page - 1)
  /-- pages of the file and of memory go together -/
  file : m.offset + (bias + pageDown page segment.vaddr) =
    pageDown page segment.offset + m.startAddr

section Counters

variable {page bias addr : Nat} {segment : Segment} {m : ProcMap}

theorem pc_eq (hsta : m.startAddr ≤ addr) (hfile : m.offset + (addr - m.startAddr) < 2 ^ 64) :
    m.pc addr = m.offset + (addr - m.startAddr) := by
  unfold ProcMap.pc sub64
  omega

variable (h : MapsSegment page bias segment m)
include h

theorem pc_add_pageDown (hsta : m.startAddr ≤ addr)
    (hfile : m.offset + (addr - m.startAddr) < 2 ^ 64) :
    m.pc addr + pageDown page segment.vaddr = addr - bias + pageDown page segment.offset := by
  have := h.start
  have := h.file
  rw [pc_eq hsta hfile]
  omega

theorem pageDown_eq_iff :
    pageDown page segment.vaddr = pageDown page segment.offset ↔
      segment.vaddr = segment.offset := by
  have hcon := h.congruent
  have := Nat.mod_le segment.vaddr page
  have := Nat.mod_le segment.offset page
  unfold pageDown
  omega

/-- The counter is the virtual address exactly if the segment is placed at it. -/
theorem pc_eq_iff (hsta : m.startAddr ≤ addr) (hfile : m.offset + (addr - m.startAddr) < 2 ^ 64) :
    m.pc addr = addr - bias ↔ segment.vaddr = segment.offset := by
  have hpc := pc_add_pageDown h hsta hfile
  rw [← pageDown_eq_iff h]
  omega

theorem pc_eq_of_vaddr_eq (hpla : segment.vaddr = segment.offset) (hsta : m.startAddr ≤ addr)
    (haddr : addr < 2 ^ 64) : m.pc addr = addr - bias := by
  have hfile := h.file
  rw [(pageDown_eq_iff h).2 hpla] at hfile
  exact (pc_eq_iff h hsta (by omega)).2 hpla

end Counters

/-! ## What is handed to symbol lookup -/

theorem mem_addPendingELFPC {groups : List PendingPCs} {path : String} {cache : CacheRef}
    {entry entry' : Nat × Nat × Bytes} :
    (∃ group ∈ addPendingELFPC groups path cache entry', entry ∈ group.entries) ↔
      (∃ group ∈ groups, entry ∈ group.entries) ∨ entry = entry' := by
  unfold addPendingELFPC
  split
  · next hany =>
    obtain ⟨same, hsame, hpath⟩ := any_eq_true.1 hany
    rw [decide_eq_true_eq] at hpath
    simp only [mem_map]
    constructor
    · rintro ⟨_, ⟨group, hgroup, rfl⟩, hent⟩
      split at hent
      · rcases mem_append.1 hent with hent | hent
        · exact .inl ⟨group, hgroup, hent⟩
        · exact .inr (mem_singleton.1 hent)
      · exact .inl ⟨group, hgroup, hent⟩
    · rintro (⟨group, hgroup, hent⟩ | rfl)
      · refine ⟨_, ⟨group, hgroup, rfl⟩, ?_⟩
        split
        · exact mem_append_left _ hent
        · exact hent
      · refine ⟨_, ⟨same, hsame, rfl⟩, ?_⟩
        rw [if_pos hpath]
        exact mem_append_right _ mem_cons_self
  · simp only [mem_append, mem_singleton, or_and_right, exists_or, exists_eq_left]

theorem mem_groupsOf {placements : List Placement} {pc index : Nat} {failure : Bytes} :
    (∃ group ∈ groupsOf placements, (pc, index, failure) ∈ group.entries) ↔
      ∃ path cache, placements[index]? = some (.pending path cache pc failure) := by
  have hfold (placed : List (Placement × Nat)) (groups : List PendingPCs) :
      (∃ group ∈ placed.foldl addPlacement groups, (pc, index, failure) ∈ group.entries) ↔
        (∃ group ∈ groups, (pc, index, failure) ∈ group.entries) ∨
          ∃ path cache, (.pending path cache pc failure, index) ∈ placed := by
    induction placed generalizing groups with
    | nil => simp
    | cons first placed ih =>
      rw [foldl_cons, ih]
      obtain ⟨placement, i⟩ := first
      cases placement with
      | failed frame => simp [addPlacement]
      | pending path cache pc' failure' =>
        rw [addPlacement, mem_addPendingELFPC, or_assoc]
        refine or_congr_right ?_
        simp only [mem_cons, Prod.mk.injEq, Placement.pending.injEq]
        constructor
        · rintro (⟨rfl, rfl, rfl⟩ | ⟨path', cache', h⟩)
          · exact ⟨path, cache, .inl ⟨⟨rfl, rfl, rfl, rfl⟩, rfl⟩⟩
          · exact ⟨path', cache', .inr h⟩
        · rintro ⟨path', cache', ⟨⟨-, -, rfl, rfl⟩, rfl⟩ | h⟩
          · exact .inl ⟨rfl, rfl, rfl⟩
          · exact .inr ⟨path', cache', h⟩
  rw [groupsOf, hfold]
  simp [mk_mem_zipIdx_iff_getElem?]

/-! ## Placing an address of a mapping -/

section Placing

variable {env : Env} {r : Resolver} {pid : Nat} {process : ProcessELF} {cache : ExecutableCache}
  {maps : List ProcMap} {addr : Nat}

theorem loadProcMaps_again (h : (loadProcMaps env r pid).1 = some maps) :
    (loadProcMaps env (loadProcMaps env r pid).2 pid).1 = some maps := by
  unfold loadProcMaps at h ⊢
  cases hcac : r.procmaps pid with rw [hcac] at h
  | some cached => simpa [hcac] using h
  | none =>
    cases hmaps : env.maps pid with
    | none => simp [hmaps] at h
    | some read => simpa [hmaps] using h

theorem loadProcMaps_congr {r' : Resolver} (h : r'.procmaps = r.procmaps) :
    (loadProcMaps env r' pid).1 = (loadProcMaps env r pid).1 := by
  unfold loadProcMaps
  rw [h]
  (repeat' split) <;> rfl

theorem loadLibCache_procmaps {r' : Resolver} {libPath : String} {out : Option CacheKey}
    (h : loadLibCache env r pid libPath = (out, r')) : r'.procmaps = r.procmaps := by
  unfold loadLibCache at h
  split at h
  · cases h
    rfl
  split at h
  · cases h
    rfl
  dsimp only at h
  (repeat' split at h) <;> cases h <;> rfl

theorem placeElsewhere_maps (hmaps : (loadProcMaps env r pid).1 = some maps) :
    (loadProcMaps env (placeElsewhere env r pid process cache addr).2 pid).1 = some maps := by
  have hagain := loadProcMaps_again hmaps
  unfold placeElsewhere
  split
  · exact hmaps
  split
  · next hnone =>
    simp [hnone] at hmaps
  next read r' hread =>
  rw [hread] at hagain
  split
  · exact hagain
  split
  · split
    · next hload => exact (loadProcMaps_congr (loadLibCache_procmaps hload)).trans hagain
    · next hload => exact (loadProcMaps_congr (loadLibCache_procmaps hload)).trans hagain
  · exact hagain

theorem placeAddr_maps (hmaps : (loadProcMaps env r pid).1 = some maps) :
    (loadProcMaps env (placeAddr env r pid process cache addr).2 pid).1 = some maps := by
  have hagain := loadProcMaps_again hmaps
  unfold placeAddr
  dsimp only
  split
  · split
    · next hnone =>
      simp [hnone] at hmaps
    · next read r' hread =>
      rw [hread] at hagain
      split
      · exact hagain
      · exact placeElsewhere_maps hagain
  · exact placeElsewhere_maps hmaps

/-- The executable itself is mapped here. -/
def IsExecutable (pid : Nat) (process : ProcessELF) (cache : ExecutableCache) (m : ProcMap) :
    Prop :=
  cache.typ = .dyn ∧ process.path = rootDir pid ++ m.pathname

variable {m : ProcMap}

theorem placeElsewhere_pc (hmaps : (loadProcMaps env r pid).1 = some maps)
    (hfind : find maps addr = some m)
    (hlib : isLibPath m.pathname = true) (hsec : find cache.sections addr = none) :
    (∃ path ref failure, (placeElsewhere env r pid process cache addr).1 =
      .pending path ref (m.pc addr) failure) ∨
    (placeElsewhere env r pid process cache addr).1 =
      .failed (failFrame "lib-load-fail" m.pathname) := by
  unfold placeElsewhere
  rw [hsec, if_neg (by decide)]
  split
  · next hnone =>
    simp [hnone] at hmaps
  next read r' hread =>
  rw [hread] at hmaps
  cases hmaps
  rw [hfind]
  dsimp only
  rw [if_pos hlib]
  split
  · exact .inr rfl
  · exact .inl ⟨_, _, _, rfl⟩

theorem placeAddr_pc (hmaps : (loadProcMaps env r pid).1 = some maps)
    (hfind : find maps addr = some m)
    (himage : IsExecutable pid process cache m ∨
      isLibPath m.pathname = true ∧ find cache.sections addr = none) :
    (∃ path ref failure, (placeAddr env r pid process cache addr).1 =
      .pending path ref (m.pc addr) failure) ∨
    ¬ IsExecutable pid process cache m ∧ (placeAddr env r pid process cache addr).1 =
      .failed (failFrame "lib-load-fail" m.pathname) := by
  have hpath := find_pathname_ne hfind
  by_cases hexe : IsExecutable pid process cache m
  · refine .inl ?_
    unfold placeAddr
    dsimp only
    rw [hexe.2, trimStart_append, if_pos ⟨hexe.1, hpath⟩]
    split
    · next hnone =>
      simp [hnone] at hmaps
    next read r' hread =>
    rw [hread] at hmaps
    cases hmaps
    rw [hfind, Option.filter_some, if_pos (decide_eq_true rfl)]
    exact ⟨_, _, _, rfl⟩
  · obtain ⟨hlib, hsec⟩ := himage.resolve_left hexe
    unfold placeAddr
    dsimp only
    split
    · split
      · next hnone =>
        simp [hnone] at hmaps
      next read r' hread =>
      have hagain := loadProcMaps_again hmaps
      rw [hread] at hmaps hagain
      cases hmaps
      split
      · next found hfound =>
        rw [hfind] at hfound
        cases (Option.filter_eq_some_iff.1 hfound).1
        exact .inl ⟨_, _, _, rfl⟩
      · exact (placeElsewhere_pc hagain hfind hlib hsec).imp_right fun h => ⟨hexe, h⟩
    · exact (placeElsewhere_pc hmaps hfind hlib hsec).imp_right fun h => ⟨hexe, h⟩

/-- Each address of a list is placed as it would be alone. -/
theorem placeAddrs_getElem? (placed : Placement → Prop)
    (hmaps : (loadProcMaps env r pid).1 = some maps)
    (hpla : ∀ r, (loadProcMaps env r pid).1 = some maps →
      placed (placeAddr env r pid process cache addr).1)
    {addrs : List Nat} {i : Nat} (haddr : addrs[i]? = some addr) :
    ∃ placement, (placeAddrs env r pid process cache addrs).1[i]? = some placement ∧
      placed placement := by
  induction addrs generalizing r i with
  | nil => cases haddr
  | cons first addrs ih =>
    cases i with
    | zero =>
      cases haddr
      exact ⟨_, rfl, hpla r hmaps⟩
    | succ i => exact ih (placeAddr_maps hmaps) haddr

/-- An address in a mapping of a segment that is placed at its virtual address is looked up by its
virtual address, whatever else is resolved with it. It is looked up unless its library cannot be
loaded. -/
theorem groupsOf_placeAddrs_pc {page bias i : Nat} {segment : Segment} {addrs : List Nat}
    (hmaps : (loadProcMaps env r pid).1 = some maps)
    (hdisjoint : maps.Pairwise fun a b => a.endAddr ≤ b.startAddr)
    (hordered : ∀ a ∈ maps, a.startAddr < a.endAddr) (hm : m ∈ maps) (hpath : m.pathname ≠ "")
    (hrange : m.endAddr ≤ 2 ^ 64) (hsegment : MapsSegment page bias segment m)
    (hplaced : segment.vaddr = segment.offset) (himage : IsExecutable pid process cache m ∨
      isLibPath m.pathname = true ∧ find cache.sections addr = none) (haddr : addrs[i]? = some addr)
    (hstart : m.startAddr ≤ addr) (hend : addr < m.endAddr) :
    let placements := (placeAddrs env r pid process cache addrs).1
    (∀ group ∈ groupsOf placements, ∀ pc failure,
      (pc, i, failure) ∈ group.entries → pc = addr - bias) ∧
    ((∃ group ∈ groupsOf placements, ∃ failure, (addr - bias, i, failure) ∈ group.entries) ∨
      ¬ IsExecutable pid process cache m ∧
        placements[i]? = some (.failed (failFrame "lib-load-fail" m.pathname))) := by
  intro placements
  have hfind := find_eq_some hdisjoint hordered hm hpath hstart hend
  have hpc : m.pc addr = addr - bias :=
    pc_eq_of_vaddr_eq hsegment hplaced hstart (Nat.lt_of_lt_of_le hend hrange)
  obtain ⟨placement, hget, hplacement⟩ := placeAddrs_getElem?
    (fun placement => (∃ path ref failure, placement = .pending path ref (m.pc addr) failure) ∨
      ¬ IsExecutable pid process cache m ∧
        placement = .failed (failFrame "lib-load-fail" m.pathname))
    hmaps (fun r hr => placeAddr_pc hr hfind himage) haddr
  rw [hpc] at hplacement
  rcases hplacement with ⟨path, ref, failure, rfl⟩ | ⟨hexe, rfl⟩
  · refine ⟨fun group hgroup pc failure' hentry => ?_, .inl ?_⟩
    · obtain ⟨_, _, hget'⟩ := mem_groupsOf.1 ⟨group, hgroup, hentry⟩
      cases hget.symm.trans hget'
      rfl
    · obtain ⟨group, hgroup, hentry⟩ := mem_groupsOf.2 ⟨path, ref, hget⟩
      exact ⟨group, hgroup, failure, hentry⟩
  · refine ⟨fun group hgroup pc failure' hentry => ?_, .inr ⟨hexe, hget⟩⟩
    obtain ⟨_, _, hget'⟩ := mem_groupsOf.1 ⟨group, hgroup, hentry⟩
    cases hget.symm.trans hget'

end Placing

/-- A process with one mapping of its executable, at the given place of the file. -/
def oneMapping (offset : Nat) : Env where
  executable := fun _ => some "/a"
  maps := fun _ => some [⟨0x555555556000, 0x555555557000, offset, "/a"⟩]
  inode := fun _ => some 1
  openELF := fun _ => some { sections := [] }

theorem groupsOf_placeAddrs_pc_executable :
    ∃ group ∈ groupsOf (placeAddrs (oneMapping 0x2000) (newUsymResolver {}) 1
        ⟨⟨1, ""⟩, rootDir 1 ++ "/a"⟩ ⟨[], .dyn, newCache {}⟩ [0x555555556010]).1,
      ∃ failure, (0x555555556010 - 0x555555554000, 0, failure) ∈ group.entries := by
  have hmaps : (loadProcMaps (oneMapping 0x2000) (newUsymResolver {}) 1).1 =
      some [⟨0x555555556000, 0x555555557000, 0x2000, "/a"⟩] := rfl
  have hsegment : MapsSegment 0x1000 0x555555554000 ⟨0x2000, 0x2000, 0x800⟩
      ⟨0x555555556000, 0x555555557000, 0x2000, "/a"⟩ :=
    ⟨by decide, by decide, by decide, by decide⟩
  have hexe : IsExecutable 1 ⟨⟨1, ""⟩, rootDir 1 ++ "/a"⟩ ⟨[], .dyn, newCache {}⟩
      ⟨0x555555556000, 0x555555557000, 0x2000, "/a"⟩ := ⟨rfl, rfl⟩
  have haddr : ([0x555555556010] : List Nat)[0]? = some 0x555555556010 := rfl
  obtain ⟨-, hfound | ⟨hnot, -⟩⟩ := groupsOf_placeAddrs_pc hmaps (pairwise_singleton _ _)
    (by decide) mem_cons_self (by decide) (by decide) hsegment rfl (.inl hexe) haddr
    (by decide) (by decide)
  · exact hfound
  · exact absurd hexe hnot

/-- A segment at 0x1000 of the file with the virtual address 0x2000: the counter of an address in it
is 0x1010 and not 0x2010. -/
theorem moved_segment_pc :
    MapsSegment 0x1000 0x555555554000 ⟨0x2000, 0x1000, 0x800⟩
      ⟨0x555555556000, 0x555555557000, 0x1000, "/a"⟩ ∧
    0x555555556010 - 0x555555554000 = 0x2010 ∧
    (groupsOf (placeAddrs (oneMapping 0x1000) (newUsymResolver {}) 1
        ⟨⟨1, ""⟩, rootDir 1 ++ "/a"⟩ ⟨[], .dyn, newCache {}⟩ [0x555555556010]).1).map
      (fun group => group.entries.map Prod.fst) = [[0x1010]] :=
  ⟨⟨by decide, by decide, by decide, by decide⟩, by decide, by decide +kernel⟩

end Huatuo.Symbol
