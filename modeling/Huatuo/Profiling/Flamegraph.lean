import Mathlib.Data.List.Dedup
import Mathlib.Data.List.Induction
import Mathlib.Data.List.Perm.Basic
import Mathlib.Tactic.Common
import Huatuo.Lib.Slice
import Huatuo.Strings

/-!
# Flame graphs

`processor.Process` of `formatter/flamegraph/process.go` adds a stack to a forest of frames. The
children of a frame are a slice, and `append` moves it to another array when it is full: what the
loop follows are pointers into these arrays, on a heap. A frame with many children gets an index of
them on the way, which from then on replaces the search. Names are valid UTF-8 here, and a map is a
value, since no two frames in use share one.

No two frames have their children in one array (`Tree`). So a visit of a frame changes only the
level below it, and its own entry in the level it is in (`Visited`), wherever these are moved to.
`flamegraph_trie`, that the forest is the trie of the stacks, follows by induction on the names of a
stack and on the stacks.
-/

namespace Huatuo.Flamegraph

open Function List Strings

/-! ## Names -/

def foldedReplacer (c : Char) : Char :=
  if c = ';' then ':' else if c = '\r' ∨ c = '\n' then ' ' else c

def normalize (name : String) : String :=
  trimSpace (String.ofList (name.toList.map foldedReplacer))

structure Stack where
  names : List String
  samples : Int64

/-- The names that the loop of `Process` does not skip. -/
def normalized (names : List String) : List String := (names.map normalize).filter (· ≠ "")

def Stack.normalized (stack : Stack) : List String := Flamegraph.normalized stack.names

/-- What a name is normalized to: with separators replaced, what is between the spaces. -/
structure Normal (name result : String) : Prop where
  trimmed : ∃ before after, name.toList.map foldedReplacer = before ++ result.toList ++ after ∧
    (∀ c ∈ before, isSpace c = true) ∧ ∀ c ∈ after, isSpace c = true
  first : ∀ c ∈ result.toList.head?, isSpace c = false
  last : ∀ c ∈ result.toList.getLast?, isSpace c = false
  separators : ∀ c ∈ result.toList, c ≠ ';' ∧ c ≠ '\r' ∧ c ≠ '\n'

theorem normal_normalize (name : String) : Normal name (normalize name) := by
  have hlist : (normalize name).toList =
      ((name.toList.map foldedReplacer).dropWhile isSpace).rdropWhile isSpace := by
    rw [normalize, trimSpace, String.toList_ofList, String.toList_ofList]
  generalize hreplaced : name.toList.map foldedReplacer = replaced at hlist
  have hpre := rdropWhile_prefix isSpace (replaced.dropWhile isSpace)
  rw [← hlist] at hpre
  refine ⟨?_, fun c hc => ?_, fun c hc => ?_, fun c hc => ?_⟩
  · refine ⟨replaced.takeWhile isSpace, (replaced.dropWhile isSpace).rtakeWhile isSpace, ?_,
      fun c => mem_takeWhile_imp, fun c => mem_rtakeWhile_imp⟩
    rw [hreplaced, hlist, append_assoc, rdropWhile_append_rtakeWhile, takeWhile_append_dropWhile]
  · obtain ⟨rest, hrest⟩ := head?_eq_some_iff.1 hc
    obtain ⟨after, hafter⟩ := hpre
    have hhead := head?_dropWhile_not isSpace replaced
    rw [← hafter, hrest] at hhead
    exact hhead
  · obtain ⟨front, hfront⟩ := getLast?_eq_some_iff.1 hc
    have hhead := head?_dropWhile_not isSpace (replaced.dropWhile isSpace).reverse
    rw [hlist, rdropWhile, reverse_eq_iff, reverse_append] at hfront
    rw [hfront] at hhead
    exact hhead
  · have hmem := (dropWhile_suffix isSpace).subset (hpre.subset hc)
    rw [← hreplaced] at hmem
    obtain ⟨d, -, rfl⟩ := mem_map.1 hmem
    unfold foldedReplacer
    split
    · decide
    · split
      · decide
      · rename_i hne hne'
        exact ⟨hne, not_or.1 hne'⟩

/-- There is nothing else that a name is normalized to. -/
theorem Normal.eq {name result : String} (h : Normal name result) : result = normalize name := by
  obtain ⟨⟨before, after, heq, hbefore, hafter⟩, first, last, -⟩ := h
  rw [normalize, trimSpace, String.toList_ofList, heq, append_assoc,
    dropWhile_append_of_pos hbefore]
  nth_rewrite 1 [← String.ofList_toList (s := result)]
  generalize result.toList = chars at first last ⊢
  refine congrArg String.ofList ?_
  cases chars with
  | nil => simp [dropWhile_eq_nil_iff.2 hafter]
  | cons c rest =>
    have hlast : ¬ isSpace ((c :: rest).getLast (cons_ne_nil _ _)) = true := by
      rw [Bool.not_eq_true]
      exact last _ (getLast?_eq_getLast_of_ne_nil _)
    rw [cons_append, dropWhile_cons_of_neg (by simp [first c rfl]), ← cons_append, rdropWhile,
      reverse_append, dropWhile_append_of_pos fun d hd => hafter d (mem_reverse.1 hd)]
    exact (rdropWhile_eq_self_iff.2 fun _ => hlast).symm

/-! ## Frames -/

abbrev Index := String → Option Nat

structure Frame where
  name : String := ""
  depth : Nat := 0
  sampleCount : Int64 := 0
  children : Slice := {}
  childIndex : Option Index := none
  deriving Inhabited

def findFrame (frames : List Frame) (name : String) : Option Nat :=
  frames.findIdx? (·.name = name)

/-- The index of a slice of frames. -/
def makeIndex (frames : List Frame) : Index :=
  frames.zipIdx.foldl (fun index entry => update index entry.1.name (some entry.2)) fun _ => none

/-- One slice of children, whose index is made once it has more than `limit` of them. -/
def ensureIndex (limit : Nat) (frames : List Frame) (index : Option Index) : Option Index :=
  if index.isNone ∧ limit < frames.length then some (makeIndex frames) else index

def lookup (frames : List Frame) (index : Option Index) (name : String) : Option Nat :=
  match index with
  | some index => index name
  | none => findFrame frames name

/-- A slice of frames with its index, as `frames` and `index` of the loop point to them. -/
structure Level where
  frames : Slice
  index : Option Index

def Frame.level (frame : Frame) : Level := ⟨frame.children, frame.childIndex⟩

/-- The level with the frame of that name, and where it is. -/
def place (limit depth : Nat) (h : Heap Frame) (level : Level) (name : String) :
    Heap Frame × Level × Nat :=
  let index := ensureIndex limit (h.read level.frames) level.index
  match lookup (h.read level.frames) index name with
  | some i => (h, ⟨level.frames, index⟩, i)
  | none =>
    let appended := h.append level.frames { name, depth }
    let i := appended.2.len - 1
    (appended.1, ⟨appended.2, index.map fun index => update index name (some i)⟩, i)

/-- The frame that a pointer points to. -/
def load (h : Heap Frame) (s : Slice) (i : Nat) : Frame := (h.read s).getD i default

/-- The body of the loop, where `frames` and `index` are those of the frame `s[i]`: the level is
stored there, and the frame in it that gets the samples is the one to look up the next name in. -/
def visit (limit depth : Nat) (samples : Int64) (h : Heap Frame) (s : Slice) (i : Nat)
    (name : String) : Heap Frame × Slice × Nat :=
  let frame := load h s i
  let (h, level, j) := place limit depth h frame.level name
  let h := h.write s i { frame with children := level.frames, childIndex := level.index }
  let child := load h level.frames j
  (h.write level.frames j { child with sampleCount := child.sampleCount + samples },
    level.frames, j)

/-- The loop of `Process`, with the depth at its end. -/
def descend (limit : Nat) (samples : Int64) :
    List String → Nat → Heap Frame → Slice → Nat → Heap Frame × Nat
  | [], depth, h, _, _ => (h, depth)
  | name :: names, depth, h, s, i =>
    let name := normalize name
    if name = "" then descend limit samples names depth h s i
    else
      let (h, s, i) := visit limit depth samples h s i name
      descend limit samples names (depth + 1) h s i

/-- A processor, whose `frames` and `index` are those of a frame of their own. -/
structure Processor where
  heap : Heap Frame
  self : Slice
  maxDepth : Nat := 0

variable (spare : Nat → Nat)

def newProcessor : Processor :=
  let (heap, self) := (Heap.empty spare).alloc [({} : Frame)]
  { heap, self }

def Processor.process (limit : Nat) (p : Processor) (stack : Stack) : Processor :=
  let (heap, depth) := descend limit stack.samples stack.names 0 p.heap p.self 0
  { p with heap := heap, maxDepth := if depth > p.maxDepth then depth else p.maxDepth }

/-- A new processor is given the stacks. -/
def processAll (limit : Nat) (input : List Stack) : Processor :=
  input.foldl (Processor.process limit) (newProcessor spare)

/-- The fan-out up to which `Process` searches. -/
def indexThreshold : Nat := 8

/-! ## Rows -/

/-- The level below the frame of that name. -/
def below (h : Heap Frame) (level : Level) (name : String) : Option Level :=
  ((h.read level.frames).find? (·.name = name)).map Frame.level

/-- The level below a path of names. -/
def levelAt (h : Heap Frame) : Level → List String → Option Level
  | level, [] => some level
  | level, name :: path => (below h level name).bind fun level => levelAt h level path

structure Row where
  name : String
  sampleCount : Int64
  depth : Nat
  deriving DecidableEq, Repr

def Frame.row (frame : Frame) : Row := ⟨frame.name, frame.sampleCount, frame.depth⟩

/-- The frames of the level below a path, in their order. -/
def rowsAt (h : Heap Frame) (root : Level) (path : List String) : List Row :=
  (levelAt h root path).elim [] fun level => (h.read level.frames).map Frame.row

/-- The level that the processor is in. -/
def Processor.root (p : Processor) : Level := ⟨p.self, none⟩

/-- The children of the frame at a path. -/
def Processor.rows (p : Processor) (path : List String) : List Row :=
  rowsAt p.heap p.root ("" :: path)

/-- The name that a stack has after a path. -/
def next? : List String → List String → Option String
  | [], names => names.head?
  | _ :: _, [] => none
  | name :: path, name' :: names => if name = name' then next? path names else none

/-- The child of that name gets the samples, and is added if it is not there. -/
def bump (name : String) (samples : Int64) (depth : Nat) (rows : List Row) : List Row :=
  (if name ∈ rows.map Row.name then rows else rows ++ [⟨name, 0, depth⟩]).map fun row =>
    if row.name = name then { row with sampleCount := row.sampleCount + samples } else row

/-- The samples of the stacks that have the path as a prefix. -/
def total (input : List Stack) (path : List String) : Int64 :=
  ((input.filter fun stack => path <+: stack.normalized).map Stack.samples).sum

variable {h h' : Heap Frame} {s t : Slice} {root level : Level} {index : Option Index}
  {frames : List Frame} {frame : Frame} {name : String} {names path above : List String}
  {input : List Stack} {limit depth i j : Nat} {samples : Int64}

theorem next?_eq_some : next? path names = some name ↔ path ++ [name] <+: names := by
  induction path generalizing names with
  | nil => cases names <;> simp [next?, eq_comm]
  | cons x path ih =>
    cases names with
    | nil => simp [next?]
    | cons y names => by_cases h : x = y <;> simp [next?, h, ih]

theorem next?_nil : next? path [] = none := by cases path <;> rfl

/-! ## Frames by name -/

section Names

variable (hi : frames[i]? = some frame)

include hi

theorem map_set_of_eq {α : Type*} {f : Frame → α} {frame' : Frame} (heq : f frame' = f frame) :
    (frames.set i frame').map f = frames.map f := by
  obtain ⟨hlt, rfl⟩ := List.getElem?_eq_some_iff.1 hi
  have hlt' : i < (frames.map f).length := by rwa [length_map]
  rw [map_set, heq, ← getElem_map f (h := hlt'), set_getElem_self]

variable (hnodup : (frames.map Frame.name).Nodup)

include hnodup

/-- Looking up names after a frame was replaced by one of the same name. -/
theorem find_set (frame' : Frame) (hname : frame'.name = frame.name) (x : String) :
    (frames.set i frame').find? (·.name = x) =
      if x = frame.name then some frame' else frames.find? (·.name = x) := by
  induction frames generalizing i with
  | nil => cases hi
  | cons g frames ih =>
    rw [map_cons, nodup_cons] at hnodup
    cases i with
    | zero =>
      obtain rfl : g = frame := by simpa using hi
      by_cases hx : x = g.name <;> simp [hx, hname, eq_comm]
    | succ i =>
      have hi : frames[i]? = some frame := hi
      have hne : g.name ≠ frame.name := fun heq =>
        hnodup.1 (heq ▸ mem_map_of_mem (mem_of_getElem? hi))
      rw [set_cons_succ, find?_cons, find?_cons, ih hi hnodup.2]
      by_cases hx : g.name = x
      · subst hx
        simp [hne]
      · simp [hx]

theorem find_name : frames.find? (·.name = frame.name) = some frame := by
  obtain ⟨hlt, rfl⟩ := List.getElem?_eq_some_iff.1 hi
  have hfind := find_set hi hnodup _ rfl frames[i].name
  rwa [if_pos rfl, set_getElem_self] at hfind

/-- The samples are added by name. -/
theorem rows_set (samples : Int64) :
    (frames.set i { frame with sampleCount := frame.sampleCount + samples }).map Frame.row =
      (frames.map Frame.row).map fun row =>
        if row.name = frame.name then { row with sampleCount := row.sampleCount + samples }
        else row := by
  induction frames generalizing i with
  | nil => cases hi
  | cons g frames ih =>
    rw [map_cons, nodup_cons] at hnodup
    cases i with
    | zero =>
      obtain rfl : g = frame := by simpa using hi
      have hne : ∀ f ∈ frames, f.name ≠ g.name := fun f hf heq => hnodup.1 (heq ▸ mem_map_of_mem hf)
      simp only [set_cons_zero, map_cons, map_map]
      refine congrArg₂ _ (by simp [Frame.row]) (map_congr_left fun f hf => ?_)
      simp [Frame.row, hne f hf]
    | succ i =>
      have hi : frames[i]? = some frame := hi
      have hne : g.name ≠ frame.name := fun heq =>
        hnodup.1 (heq ▸ mem_map_of_mem (mem_of_getElem? hi))
      simp [ih hi hnodup.2, Frame.row, hne]

end Names

/-! ## Indexes -/

/-- The index has the places of all names. -/
def Consistent (names : List String) (index : Index) : Prop :=
  ∀ name i, index name = some i ↔ names[i]? = some name

theorem Consistent.concat {index : Index} (h : Consistent names index) (hnew : name ∉ names) :
    Consistent (names ++ [name]) (update index name (some names.length)) := by
  intro name' i
  rw [getElem?_append, getElem?_singleton]
  by_cases hname : name' = name
  · subst hname
    have hnone : names[i]? ≠ some name' := fun hi => hnew (mem_of_getElem? hi)
    rw [update_self]
    grind
  · rw [update_of_ne hname, h name' i]
    grind

theorem consistent_makeIndex (h : (frames.map Frame.name).Nodup) :
    Consistent (frames.map Frame.name) (makeIndex frames) := by
  induction frames using reverseRecOn with
  | nil => simp [Consistent, makeIndex]
  | append_singleton frames frame ih =>
    rw [map_append, map_singleton, nodup_append] at h
    have hnew : frame.name ∉ frames.map Frame.name := fun hmem =>
      h.2.2 _ hmem _ (mem_singleton_self _) rfl
    simpa [makeIndex, zipIdx_append] using (ih h.1).concat hnew

/-- Names are distinct in a level, and its index is consistent. -/
structure Good (h : Heap Frame) (level : Level) : Prop where
  valid : h.Valid level.frames
  nodup : ((h.read level.frames).map Frame.name).Nodup
  indexed : ∀ i ∈ level.index, Consistent ((h.read level.frames).map Frame.name) i

theorem Good.ensureIndex (hgood : Good h level) (limit : Nat) :
    Good h ⟨level.frames, ensureIndex limit (h.read level.frames) level.index⟩ := by
  refine ⟨hgood.valid, hgood.nodup, fun i hi => ?_⟩
  dsimp only [Flamegraph.ensureIndex] at hi
  split at hi
  · cases hi
    exact consistent_makeIndex hgood.nodup
  · exact hgood.indexed i hi

/-- Both ways of looking a name up find the frame of that name. -/
theorem Good.lookup_eq (hgood : Good h level) (name : String) (i : Nat) :
    lookup (h.read level.frames) level.index name = some i ↔
      ((h.read level.frames).map Frame.name)[i]? = some name := by
  obtain ⟨-, nodup, indexed⟩ := hgood
  generalize h.read level.frames = frames at *
  cases hindex : level.index with
  | some index => exact indexed index hindex name i
  | none =>
    have hfind : lookup frames none name = (frames.map Frame.name).findIdx? (· = name) := by
      simp [lookup, findFrame, findIdx?_map, comp_def]
    rw [hfind, findIdx?_eq_some_iff_getElem, List.getElem?_eq_some_iff]
    refine ⟨fun ⟨hi, heq, _⟩ => ⟨hi, by simpa using heq⟩,
      fun ⟨hi, heq⟩ => ⟨hi, by simpa using heq, ?_⟩⟩
    intro j hj hname
    have hname : (frames.map Frame.name)[j] = name := by simpa using hname
    exact Nat.ne_of_lt hj (nodup.getElem_inj_iff.1 (hname.trans heq.symm))

/-! ## Arrays -/

/-- The slices are not in the same array, unless there is none. -/
def Off (t s : Slice) : Prop := t.address = s.address → t.address = 0

theorem Off.symm (hoff : Off t s) : Off s t := fun heq => heq.trans (hoff heq.symm)

theorem off_nil (s : Slice) : Off {} s := fun _ => rfl

theorem Off.apart (hoff : Off t s) (ht : h.Valid t) : Heap.Apart t s := by
  by_cases heq : t.address = s.address
  · have hlen := ht.len
    rw [hoff heq, h.cells_zero] at hlen
    exact .inr (Nat.le_zero.1 hlen)
  · exact .inl heq

theorem Off.append (hoff : Off t s) (ht : h.Valid t) (x : Frame) : Off t (h.append s x).2 := by
  by_cases heq : t.address = s.address
  · exact fun _ => hoff heq
  · exact fun heq' => absurd heq' (Heap.append_address_ne ht heq)

/-- The frames with one of that name. -/
def withName (frames : List Frame) (name : String) (depth : Nat) : List Frame :=
  if name ∈ frames.map Frame.name then frames
  else frames ++ [{ name := name, depth := depth }]

theorem place_spec (hgood : Good h level) :
    let (h', level', i) := place limit depth h level name
    Good h' level' ∧ Heap.Keeps h level.frames h' level'.frames ∧
      (∀ t, h.Valid t → Off t level.frames → Off t level'.frames) ∧
      h'.read level'.frames = withName (h.read level.frames) name depth ∧
      ∃ frame, (h'.read level'.frames)[i]? = some frame ∧ frame.name = name := by
  have hgood' := hgood.ensureIndex limit
  unfold place withName
  dsimp only
  split
  · rename_i i hlook
    have hi := (hgood'.lookup_eq name i).1 hlook
    rw [if_pos (mem_of_getElem? hi)]
    rw [getElem?_map, Option.map_eq_some_iff] at hi
    exact ⟨hgood', .refl _ _, fun _ _ hoff => hoff, rfl, hi⟩
  · rename_i hlook
    have hnew : name ∉ (h.read level.frames).map Frame.name := by
      intro hmem
      obtain ⟨i, hi⟩ := mem_iff_getElem?.1 hmem
      rw [(hgood'.lookup_eq name i).2 hi] at hlook
      cases hlook
    have hread := @Heap.read_append_self _ h level.frames { name := name, depth := depth } _
    have hvalid := Heap.valid_append_self (x := { name := name, depth := depth }) hgood.valid
    have hlast : (h.append level.frames { name := name, depth := depth }).2.len - 1 =
        (h.read level.frames).length := by
      rw [← hvalid.length_read, hread, length_append, length_singleton, Nat.add_sub_cancel]
    rw [if_neg hnew, hread, hlast]
    refine ⟨⟨hvalid, ?_, fun index hindex => ?_⟩, Heap.keeps_append,
      fun t ht hoff => hoff.append ht _, rfl, { name, depth }, by simp, rfl⟩
    · rw [hread, map_append, map_singleton, ← concat_eq_append]
      exact hgood.nodup.concat hnew
    · obtain ⟨index', hindex', rfl⟩ := Option.map_eq_some_iff.1 hindex
      rw [hread, map_append, map_singleton]
      simpa using (hgood'.indexed index' hindex').concat hnew

/-! ## The tree -/

theorem levelAt_concat : levelAt h level (path ++ [name]) =
    (levelAt h level path).bind fun level => below h level name := by
  induction path generalizing level with
  | nil => simp [levelAt]
  | cons x path ih => simp [levelAt, ih, Option.bind_assoc]

/-- Levels are what their recursion says. -/
theorem levelAt_eq {levels : List String → Option Level} (hnil : levels [] = some root)
    (hcons : ∀ path name, levels (path ++ [name]) =
      (levels path).bind fun level => below h level name) : levelAt h root = levels := by
  funext path
  induction path using reverseRecOn with
  | nil => exact hnil.symm
  | append_singleton path name ih => rw [levelAt_concat, hcons, ih]

/-- Every level is good, and in an array of its own. -/
structure Tree (h : Heap Frame) (root : Level) : Prop where
  good : ∀ path level, levelAt h root path = some level → Good h level
  off : ∀ path level path' level', levelAt h root path = some level →
    levelAt h root path' = some level' → path ≠ path' → Off level.frames level'.frames

/-- What a visit of the frame `s[i]` does: its level has become `level`, its entry says so, and
other slices did not notice. -/
structure Visited (h : Heap Frame) (s : Slice) (i : Nat) (frame : Frame) (name : String)
    (depth : Nat) (samples : Int64) (h' : Heap Frame) (level : Level) (j : Nat) : Prop where
  good : Good h' level
  frames : ∃ child, (withName (h.read frame.children) name depth)[j]? = some child ∧
    child.name = name ∧ h'.read level.frames = (withName (h.read frame.children) name depth).set j
      { child with sampleCount := child.sampleCount + samples }
  owner : h'.Valid s
  entry : h'.read s =
    (h.read s).set i { frame with children := level.frames, childIndex := level.index }
  others : ∀ t, h.Valid t → Off t s → Off t frame.children → h'.Valid t ∧ h'.read t = h.read t
  off : ∀ t, h.Valid t → Off t frame.children → Off t level.frames

theorem visit_visited (hs : h.Valid s) (hi : (h.read s)[i]? = some frame)
    (hgood : Good h frame.level) (hoff : Off s frame.children) :
    let r := visit limit depth samples h s i name
    ∃ level, level.frames = r.2.1 ∧ Visited h s i frame name depth samples r.1 level r.2.2 := by
  have hload : load h s i = frame := by rw [load, getD_eq_getElem?_getD, hi]; rfl
  have hplace := @place_spec h frame.level name limit depth hgood
  unfold visit
  dsimp only
  rw [hload]
  generalize place limit depth h frame.level name = r at hplace ⊢
  obtain ⟨h₁, level, j⟩ := r
  obtain ⟨hgood₁, hkeeps, hoff₁, hread₁, child, hchild, hname⟩ := hplace
  refine ⟨level, rfl, ?_⟩
  dsimp only
  obtain ⟨hs₁, hread, -⟩ := hkeeps.others s hs (hoff.apart hs)
  -- the entry is in an array, and so the level is in another one
  have hne : s.address ≠ level.frames.address := by
    intro heq
    have hlen := ((hoff₁ s hs hoff).apart hs₁).resolve_left (not_not_intro heq)
    rw [Heap.read_of_len hlen] at hi
    cases hi
  have hlevel (x : Frame) : (h₁.write s i x).read level.frames = h₁.read level.frames :=
    Heap.read_write_of_ne hne.symm
  have hload (x : Frame) : load (h₁.write s i x) level.frames j = child := by
    rw [load, hlevel, getD_eq_getElem?_getD, hchild]
    rfl
  simp only [hload]
  have hread' {x y : Frame} : ((h₁.write s i x).write level.frames j y).read level.frames =
      (h₁.read level.frames).set j y := by rw [Heap.read_write_self, hlevel]
  refine ⟨⟨hgood₁.valid.write.write, ?_, ?_⟩, ⟨child, hread₁ ▸ hchild, hname, ?_⟩, hs₁.write.write,
    ?_, fun t ht hts htc => ?_, hoff₁⟩
  · rw [hread', map_set_of_eq hchild (by rfl)]
    exact hgood₁.nodup
  · rw [hread', map_set_of_eq hchild (by rfl)]
    exact hgood₁.indexed
  · rw [hread', hread₁]
    rfl
  · rw [Heap.read_write_of_ne hne, Heap.read_write_self, hread]
  · obtain ⟨ht₁, hread₁, -⟩ := hkeeps.others t ht (htc.apart ht)
    obtain ⟨ht₂, hread₂, -⟩ := Heap.keeps_write.others t ht₁ (hts.apart ht₁)
    obtain ⟨ht₃, hread₃, -⟩ := Heap.keeps_write.others t ht₂ ((hoff₁ t ht htc).apart ht₂)
    exact ⟨ht₃, hread₃.trans (hread₂.trans hread₁)⟩

theorem find_withName (x : String) : (withName frames name depth).find? (·.name = x) =
    if x = name ∧ name ∉ frames.map Frame.name then some { name := name, depth := depth }
    else frames.find? (·.name = x) := by
  unfold withName
  by_cases hmem : name ∈ frames.map Frame.name
  · rw [if_pos hmem, if_neg (not_and_not_right.2 fun _ => hmem)]
  rw [if_neg hmem, find?_append]
  by_cases hx : x = name
  · subst hx
    have hnone : frames.find? (·.name = x) = none := find?_eq_none.2 (by simpa using hmem)
    simp [hnone, hmem]
  · simp [hx, Ne.symm hx]

theorem below_level (hv : Visited h s i frame name depth samples h' level j) (x : String) :
    below h' level x =
      if x = name ∧ name ∉ (h.read frame.children).map Frame.name then some ⟨{}, none⟩
      else below h frame.level x := by
  obtain ⟨child, hchild, rfl, hread⟩ := hv.frames
  have hnodup : ((withName (h.read frame.children) child.name depth).map Frame.name).Nodup := by
    have hnodup := hv.good.nodup
    rwa [hread, map_set_of_eq hchild (by rfl)] at hnodup
  have hfind := find_set hchild hnodup
    { child with sampleCount := child.sampleCount + samples } rfl x
  have hlevel : below h' level x =
      ((withName (h.read frame.children) child.name depth).find? (·.name = x)).map Frame.level := by
    rw [below, hread, hfind]
    split
    · rename_i hx
      rw [hx, find_name hchild hnodup]
      rfl
    · rfl
  rw [hlevel, find_withName, apply_ite (Option.map Frame.level)]
  rfl

theorem rows_level (hv : Visited h s i frame name depth samples h' level j) :
    (h'.read level.frames).map Frame.row =
      bump name samples depth ((h.read frame.children).map Frame.row) := by
  obtain ⟨child, hchild, rfl, hread⟩ := hv.frames
  have hnodup := hv.good.nodup
  rw [hread, map_set_of_eq hchild (by rfl)] at hnodup
  have hnames : ((h.read frame.children).map Frame.row).map Row.name =
      (h.read frame.children).map Frame.name := by rw [map_map]; rfl
  rw [hread, rows_set hchild hnodup, bump, hnames, withName, apply_ite (map Frame.row), map_append]
  rfl

section Visit

variable {owner : Level} (htree : Tree h root) (howner : levelAt h root above = some owner)
  (hi : (h.read owner.frames)[i]? = some frame)

include htree howner hi

theorem levelAt_frame : levelAt h root (above ++ [frame.name]) = some frame.level := by
  rw [levelAt_concat, howner, Option.bind_some, below,
    find_name hi (htree.good above owner howner).nodup]
  rfl

theorem levelAt_new (hnew : name ∉ (h.read frame.children).map Frame.name) :
    levelAt h root (above ++ [frame.name] ++ [name]) = none := by
  rw [levelAt_concat, levelAt_frame htree howner hi, Option.bind_some, below,
    Option.map_eq_none_iff]
  exact find?_eq_none.2 (by simpa [Frame.level] using hnew)

variable (hv : Visited h owner.frames i frame name depth samples h' level j)

include hv

/-- The slices of other levels did not notice. -/
theorem read_visited {level' : Level} (hpath : levelAt h root path = some level')
    (hne : path ≠ above) (hne' : path ≠ above ++ [frame.name]) :
    h'.Valid level'.frames ∧ h'.read level'.frames = h.read level'.frames :=
  hv.others _ (htree.good path level' hpath).valid (htree.off _ _ _ _ hpath howner hne)
    (htree.off _ _ _ _ hpath (levelAt_frame htree howner hi) hne')

theorem below_owner (x : String) :
    below h' owner x = if x = frame.name then some level else below h owner x := by
  have hfind := find_set hi (htree.good above owner howner).nodup
    { frame with children := level.frames, childIndex := level.index } rfl x
  rw [below, hv.entry, hfind, apply_ite (Option.map Frame.level)]
  rfl

/-- The level below the frame is another one, and a new frame has an empty one. -/
theorem levelAt_visited : levelAt h' root = fun path =>
    if path = above ++ [frame.name] then some level
    else if path = above ++ [frame.name] ++ [name] ∧
      name ∉ (h.read frame.children).map Frame.name then some ⟨{}, none⟩
    else levelAt h root path := by
  have hframe := levelAt_frame htree howner hi
  refine levelAt_eq (by simp [levelAt]) fun path x => ?_
  by_cases hpath : path = above ++ [frame.name]
  · subst hpath
    simp [-append_assoc, levelAt_concat, hframe, below_level hv]
  by_cases hnew : path = above ++ [frame.name] ++ [name] ∧
      name ∉ (h.read frame.children).map Frame.name
  · obtain ⟨rfl, hnew⟩ := hnew
    rw [if_neg (by simp), if_neg (by simp), if_neg hpath, if_pos ⟨rfl, hnew⟩, levelAt_concat,
      levelAt_new htree howner hi hnew]
    simp [below]
  rw [if_neg hpath, if_neg hnew]
  by_cases habove : path = above
  · subst habove
    simp only [howner, Option.bind_some, below_owner htree howner hi hv, levelAt_concat]
    simp [-append_assoc]
  have hends {q : List String} {y : String} (hne : path ≠ q) : path ++ [x] ≠ q ++ [y] :=
    fun heq => hne (append_inj' heq rfl).1
  rw [if_neg (hends habove), if_neg fun heq => hends hpath heq.1, levelAt_concat]
  cases hlevel : levelAt h root path with
  | none => rfl
  | some level' =>
    rw [Option.bind_some, Option.bind_some, below, below,
      (read_visited htree howner hi hv hlevel habove hpath).2]

/-- Other levels than that of the frame are what they were, or empty. -/
theorem level_visited {level' : Level} (hpath : levelAt h' root path = some level') :
    path = above ++ [frame.name] ∧ level' = level ∨
      path ≠ above ++ [frame.name] ∧ (levelAt h root path = some level' ∨ level' = ⟨{}, none⟩) := by
  rw [levelAt_visited htree howner hi hv] at hpath
  dsimp only at hpath
  split at hpath
  · exact .inl ⟨‹_›, (Option.some.inj hpath).symm⟩
  rename_i hne
  split at hpath
  · exact .inr ⟨hne, .inr (Option.some.inj hpath).symm⟩
  · exact .inr ⟨hne, .inl hpath⟩

theorem tree_visited : Tree h' root := by
  refine ⟨fun path level' hpath => ?_, fun path level₁ path' level₂ hpath hpath' hne => ?_⟩
  · rcases level_visited htree howner hi hv hpath with ⟨-, rfl⟩ | ⟨hne, hold | rfl⟩
    · exact hv.good
    · have hgood := htree.good path level' hold
      by_cases habove : path = above
      · obtain rfl : owner = level' := Option.some.inj (howner.symm.trans (habove ▸ hold))
        refine ⟨hv.owner, ?_, ?_⟩ <;> rw [hv.entry, map_set_of_eq hi (by rfl)]
        · exact hgood.nodup
        · exact hgood.indexed
      · obtain ⟨hvalid, hread⟩ := read_visited htree howner hi hv hold habove hne
        exact ⟨hvalid, hread ▸ hgood.nodup, hread ▸ hgood.indexed⟩
    · exact ⟨Heap.valid_nil, by simp, nofun⟩
  · have hframe := levelAt_frame htree howner hi
    -- the level of the frame is off what was there
    have hoff {q : List String} {level' : Level} (hq : levelAt h root q = some level')
        (hqne : q ≠ above ++ [frame.name]) : Off level'.frames level.frames :=
      hv.off _ (htree.good q level' hq).valid (htree.off _ _ _ _ hq hframe hqne)
    rcases level_visited htree howner hi hv hpath with ⟨rfl, rfl⟩ | ⟨hpne, hold | rfl⟩ <;>
      rcases level_visited htree howner hi hv hpath' with ⟨rfl, rfl⟩ | ⟨hpne', hold' | rfl⟩
    · exact absurd rfl hne
    · exact (hoff hold' hpne').symm
    · exact (off_nil _).symm
    · exact hoff hold hpne
    · exact htree.off _ _ _ _ hold hold' hne
    · exact (off_nil _).symm
    all_goals exact off_nil _

theorem rowsAt_visited (path : List String) : rowsAt h' root path =
    if path = above ++ [frame.name] then bump name samples depth (rowsAt h root path)
    else rowsAt h root path := by
  have hframe := levelAt_frame htree howner hi
  by_cases hpath : path = above ++ [frame.name]
  · rw [if_pos hpath, hpath, rowsAt, rowsAt, hframe, levelAt_visited htree howner hi hv]
    dsimp only
    rw [if_pos rfl]
    exact rows_level hv
  rw [if_neg hpath, rowsAt, rowsAt, levelAt_visited htree howner hi hv]
  dsimp only
  rw [if_neg hpath]
  split
  · rename_i hnew
    rw [hnew.1, levelAt_new htree howner hi hnew.2]
    simp
  cases hlevel : levelAt h root path with
  | none => rfl
  | some level' =>
    by_cases habove : path = above
    · obtain rfl : owner = level' := Option.some.inj (howner.symm.trans (habove ▸ hlevel))
      rw [Option.elim_some, Option.elim_some, hv.entry, map_set_of_eq hi (by rfl)]
    · rw [Option.elim_some, Option.elim_some,
        (read_visited htree howner hi hv hlevel habove hpath).2]

end Visit

/-! ## One stack -/

/-- The rows after a stack, whatever the index: those on its path have its samples. -/
theorem descend_spec {owner : Level} (htree : Tree h root)
    (howner : levelAt h root above = some owner)
    (hi : (h.read owner.frames)[i]? = some frame) (names : List String) :
    let r := descend limit samples names depth h owner.frames i
    Tree r.1 root ∧ r.2 = depth + (normalized names).length ∧
      (∀ path, rowsAt r.1 root (above ++ [frame.name] ++ path) =
        (next? path (normalized names)).elim (rowsAt h root (above ++ [frame.name] ++ path))
          fun name => bump name samples (depth + path.length)
            (rowsAt h root (above ++ [frame.name] ++ path))) ∧
      ∀ path, ¬ above ++ [frame.name] <+: path → rowsAt r.1 root path = rowsAt h root path := by
  induction names generalizing h above owner i frame depth with
  | nil => exact ⟨htree, rfl, fun path => by simp [normalized, next?_nil, descend], fun _ _ => rfl⟩
  | cons name names ih =>
    unfold descend
    dsimp only
    split
    · rename_i hempty
      have hskip : normalized (name :: names) = normalized names := by simp [normalized, hempty]
      rw [hskip]
      exact ih htree howner hi
    rename_i hne
    have hkeep : normalized (name :: names) = normalize name :: normalized names := by
      simp [normalized, hne]
    generalize normalize name = name at hne hkeep ⊢
    have hframe := levelAt_frame htree howner hi
    obtain ⟨level, hlevel, hv⟩ := @visit_visited h owner.frames frame name limit depth i samples
      (htree.good _ _ howner).valid hi (htree.good _ _ hframe)
      (htree.off _ _ _ _ howner hframe (by simp))
    generalize visit limit depth samples h owner.frames i name = r at hlevel hv ⊢
    obtain ⟨h', s, j⟩ := r
    dsimp only at hlevel hv ⊢
    subst hlevel
    obtain ⟨child, hchild, rfl, hread⟩ := hv.frames
    have hrows := rowsAt_visited htree howner hi hv
    have howner' : levelAt h' root (above ++ [frame.name]) = some level := by
      simp [levelAt_visited htree howner hi hv]
    have hchild' : (h'.read level.frames)[j]? =
        some { child with sampleCount := child.sampleCount + samples } := by
      rw [hread, getElem?_set_self (List.getElem?_eq_some_iff.1 hchild).1]
    obtain ⟨htree', hdepth, hon, hoff⟩ :=
      @ih h' _ _ (depth + 1) j level (tree_visited htree howner hi hv) howner' hchild'
    refine ⟨htree', by rw [hdepth, hkeep, length_cons]; omega, fun path => ?_, fun path hpath => ?_⟩
    · cases path with
      | nil =>
        rw [append_nil, hoff _ fun hpre => by simpa using hpre.length_le, hrows, if_pos rfl, hkeep]
        rfl
      | cons x path =>
        rw [hkeep, next?, append_cons]
        by_cases hx : x = child.name
        · subst hx
          have hne : above ++ [frame.name] ++ [child.name] ++ path ≠ above ++ [frame.name] := by
            simp
          rw [hon path, hrows, if_neg hne, if_pos rfl, length_cons, Nat.add_right_comm,
            Nat.add_assoc depth]
        · rw [hoff _ (by simp [Ne.symm hx]), hrows, if_neg (by simp), if_neg hx]
          rfl
    · rw [hoff path fun hpre => hpath ((prefix_append _ _).trans hpre), hrows, if_neg]
      exact fun heq => hpath (heq ▸ prefix_rfl)

/-! ## All stacks -/

/-- The names that stacks have after a path, in the order in which they first have them. -/
def childNames (input : List Stack) (path : List String) : List String :=
  (input.filterMap fun stack => next? path stack.normalized).reverse.dedup.reverse

theorem mem_childNames :
    name ∈ childNames input path ↔ ∃ stack ∈ input, path ++ [name] <+: stack.normalized := by
  simp [childNames, next?_eq_some]

theorem nodup_childNames : (childNames input path).Nodup := nodup_reverse.2 (nodup_dedup _)

theorem childNames_concat {stack : Stack} (h : next? path stack.normalized = some name) :
    childNames (input ++ [stack]) path =
      if name ∈ childNames input path then childNames input path
      else childNames input path ++ [name] := by
  by_cases hmem : name ∈ input.filterMap fun stack => next? path stack.normalized
  · simp [childNames, h, dedup_cons_of_mem (mem_reverse.2 hmem), -mem_filterMap, hmem]
  · simp [childNames, h, dedup_cons_of_notMem (mt mem_reverse.1 hmem), -mem_filterMap, hmem]

theorem total_concat (stack : Stack) (path : List String) :
    total (input ++ [stack]) path =
      total input path + if path <+: stack.normalized then stack.samples else 0 := by
  by_cases h : path <+: stack.normalized <;> simp [total, h]

/-- The rows of the trie. -/
def trieRows (input : List Stack) (path : List String) : List Row :=
  (childNames input path).map fun name => ⟨name, total input (path ++ [name]), path.length⟩

theorem map_name_trieRows : (trieRows input path).map Row.name = childNames input path := by
  simp [trieRows, comp_def]

theorem trieRows_concat (stack : Stack) : trieRows (input ++ [stack]) path =
    (next? path stack.normalized).elim (trieRows input path) fun name =>
      bump name stack.samples path.length (trieRows input path) := by
  have hnext (name : String) := @next?_eq_some name stack.normalized path
  cases hname : next? path stack.normalized with
  | none => simp [trieRows, childNames, total_concat, ← hnext, hname]
  | some name =>
    have hbase : (if name ∈ childNames input path then trieRows input path
        else trieRows input path ++ [⟨name, 0, path.length⟩]) =
        (childNames (input ++ [stack]) path).map fun name =>
          ⟨name, total input (path ++ [name]), path.length⟩ := by
      rw [childNames_concat hname, apply_ite (map _), map_append, map_singleton]
      refine ite_congr rfl (fun _ => rfl) fun hmem => ?_
      -- no stack has the name there yet, and so it has no samples
      rw [mem_childNames] at hmem
      rw [total, filter_eq_nil_iff.2 (by simpa using hmem)]
      rfl
    rw [Option.elim_some, bump, map_name_trieRows, hbase, map_map]
    refine map_congr_left fun name' _ => ?_
    by_cases heq : name' = name <;> simp [total_concat, ← hnext, hname, heq, Ne.symm]

section Start

variable (spare : Nat → Nat)

theorem read_newProcessor :
    (newProcessor spare).heap.read (newProcessor spare).root.frames = [{}] := Heap.read_alloc_self

/-- There is only the level that the processor is in, and an empty one below. -/
theorem levelAt_newProcessor : levelAt (newProcessor spare).heap (newProcessor spare).root =
    fun path => if path = [] then some (newProcessor spare).root
      else if path = [""] then some ⟨{}, none⟩ else none := by
  refine levelAt_eq rfl fun path x => ?_
  by_cases hnil : path = []
  · by_cases hx : "" = x
    · subst hx
      simp [hnil, below, read_newProcessor]
      rfl
    · simp [hnil, below, read_newProcessor, hx, Ne.symm hx]
  · by_cases hself : path = [""] <;> simp [hnil, hself, below, append_eq_singleton_iff]

theorem level_newProcessor
    (hpath : levelAt (newProcessor spare).heap (newProcessor spare).root path = some level) :
    path = [] ∧ level = (newProcessor spare).root ∨ path = [""] ∧ level = ⟨{}, none⟩ := by
  rw [levelAt_newProcessor] at hpath
  dsimp only at hpath
  split at hpath
  · exact .inl ⟨‹_›, (Option.some.inj hpath).symm⟩
  split at hpath <;> cases hpath
  exact .inr ⟨‹_›, rfl⟩

theorem tree_newProcessor : Tree (newProcessor spare).heap (newProcessor spare).root := by
  refine ⟨fun path level hpath => ?_, fun path level path' level' hpath hpath' hne => ?_⟩
  · rcases level_newProcessor spare hpath with ⟨-, rfl⟩ | ⟨-, rfl⟩
    · exact ⟨Heap.valid_alloc_self, by simp [read_newProcessor], nofun⟩
    · exact ⟨Heap.valid_nil, by simp, nofun⟩
  · rcases level_newProcessor spare hpath with ⟨rfl, rfl⟩ | ⟨rfl, rfl⟩
    · rcases level_newProcessor spare hpath' with ⟨rfl, -⟩ | ⟨-, rfl⟩
      · exact absurd rfl hne
      · exact (off_nil _).symm
    · exact off_nil _

end Start

theorem process_spec {p : Processor} (htree : Tree p.heap p.root)
    (hself : rowsAt p.heap p.root [] = [⟨"", 0, 0⟩]) (limit : Nat) (stack : Stack) :
    Tree (p.process limit stack).heap (p.process limit stack).root ∧
      rowsAt (p.process limit stack).heap (p.process limit stack).root [] = [⟨"", 0, 0⟩] ∧
      (∀ path, (p.process limit stack).rows path = (next? path stack.normalized).elim (p.rows path)
        fun name => bump name stack.samples path.length (p.rows path)) ∧
      (p.process limit stack).maxDepth = max p.maxDepth stack.normalized.length := by
  obtain ⟨frame, hread, hrow⟩ := map_eq_singleton_iff.1 hself
  have hname : frame.name = "" := congrArg Row.name hrow
  have hi : (p.heap.read p.root.frames)[0]? = some frame := by rw [hread]; rfl
  obtain ⟨htree', hdepth, hon, hoff⟩ := @descend_spec p.heap p.root frame [] limit 0 0 stack.samples
    p.root htree rfl hi stack.names
  rw [nil_append, hname] at hon hoff
  refine ⟨htree', (hoff [] (by simp)).trans hself, fun path => ?_, ?_⟩
  · rw [← Nat.zero_add path.length]
    exact hon path
  · unfold Processor.process
    dsimp only
    rw [show (descend limit stack.samples stack.names 0 p.heap p.self 0).2 = _ from hdepth,
      Nat.zero_add]
    exact (max_def_lt _ _).symm

theorem processAll_spec (limit : Nat) (input : List Stack) :
    let p := processAll spare limit input
    Tree p.heap p.root ∧ rowsAt p.heap p.root [] = [⟨"", 0, 0⟩] ∧
      (∀ path, p.rows path = trieRows input path) ∧
      p.maxDepth = (input.map fun stack => stack.normalized.length).foldl max 0 := by
  induction input using reverseRecOn with
  | nil =>
    refine ⟨tree_newProcessor spare, ?_, fun path => ?_, rfl⟩
    · exact congrArg (map Frame.row) (read_newProcessor spare)
    · show rowsAt (newProcessor spare).heap (newProcessor spare).root ("" :: path) = []
      rw [rowsAt, levelAt_newProcessor]
      by_cases hpath : path = [] <;> simp [hpath]
  | append_singleton input stack ih =>
    obtain ⟨htree, hself, hrows, hdepth⟩ := ih
    obtain ⟨htree', hself', hrows', hdepth'⟩ := process_spec htree hself limit stack
    rw [processAll, foldl_append]
    refine ⟨htree', hself', fun path => ?_, ?_⟩
    · rw [trieRows_concat, ← hrows]
      exact hrows' path
    · rw [map_append, foldl_append, ← hdepth]
      exact hdepth'

/-- **The forest is the trie of the stacks**, with names normalized, at every fan-out from which a
frame is given an index, however arrays grow, and up to the order of siblings in every order of the
stacks. -/
theorem flamegraph_trie (input : List Stack) :
    let p := processAll spare indexThreshold input
    (∀ name result, Normal name result ↔ normalize name = result) ∧
    (∀ path, ((p.rows path).map Row.name).Nodup) ∧
    (∀ path name count depth, ⟨name, count, depth⟩ ∈ p.rows path ↔
      (∃ stack ∈ input, path ++ [name] <+: (stack.names.map normalize).filter (· ≠ "")) ∧
        count = ((input.filter fun stack =>
          path ++ [name] <+: (stack.names.map normalize).filter (· ≠ "")).map Stack.samples).sum ∧
        depth = path.length) ∧
    p.maxDepth = (input.map fun stack => stack.normalized.length).foldl max 0 ∧
    (∀ spare' limit path, (processAll spare' limit input).rows path = p.rows path) ∧
    ∀ input', input.Perm input' →
      (processAll spare indexThreshold input').maxDepth = p.maxDepth ∧
      ∀ path, ((processAll spare indexThreshold input').rows path).Perm (p.rows path) := by
  have hrows (spare : Nat → Nat) (limit : Nat) (input : List Stack) :=
    (processAll_spec spare limit input).2.2.1
  have hdepth (input : List Stack) := (processAll_spec spare indexThreshold input).2.2.2
  refine ⟨fun name result => ⟨fun h => h.eq.symm, fun h => h ▸ normal_normalize name⟩, ?_⟩
  simp only [hrows, hdepth, map_name_trieRows]
  refine ⟨fun _ => nodup_childNames, fun path name count depth => ?_, trivial, fun _ _ _ => trivial,
    fun input' hperm => ⟨((hperm.map _).foldl_eq 0).symm, fun path => ?_⟩⟩
  · simp only [trieRows, mem_map, Row.mk.injEq]
    exact ⟨fun ⟨_, hmem, heq, hcount, hdepth⟩ =>
        ⟨mem_childNames.1 (heq ▸ hmem), heq ▸ hcount.symm, hdepth.symm⟩,
      fun ⟨hmem, hcount, hdepth⟩ => ⟨_, mem_childNames.2 hmem, rfl, hcount.symm, hdepth.symm⟩⟩
  · have htotal (path : List String) : total input' path = total input path :=
      (((hperm.filter _).map _).foldr_eq 0).symm
    have hnames : (childNames input' path).Perm (childNames input path) := by
      rw [perm_ext_iff_of_nodup nodup_childNames nodup_childNames]
      simp [mem_childNames, hperm.mem_iff]
    simpa only [trieRows, htotal] using hnames.map _

/-- Two of the stacks differ in a separator only. -/
def sampleStacks : List Stack :=
  [⟨["main", " f;g\n"], 2⟩, ⟨["main", "h"], 1⟩, ⟨["main", "\r", "f:g", "h"], 3⟩]

/-- An array has no room, or an index is made at once, or the stacks come the other way round. -/
theorem flamegraph_trie_sample : let p := processAll (fun _ => 0) indexThreshold sampleStacks
    normalize " f;g\n" = "f:g" ∧ p.rows ["main"] = [⟨"f:g", 5, 1⟩, ⟨"h", 1, 1⟩] ∧
    p.rows ["main", "f:g"] = [⟨"h", 3, 2⟩] ∧ p.maxDepth = 3 ∧
    (∀ path, (processAll (fun _ => 1) 0 sampleStacks).rows path = p.rows path) ∧
    ((processAll (fun _ => 0) indexThreshold sampleStacks.reverse).rows ["main"]).Perm
      (p.rows ["main"]) := by
  obtain ⟨-, -, -, -, hlimit, hperm⟩ := flamegraph_trie (fun _ => 0) sampleStacks
  refine ⟨by decide, by decide +kernel, by decide +kernel, by decide +kernel,
    fun path => hlimit _ _ path, ?_⟩
  exact (hperm _ (reverse_perm _).symm).2 ["main"]

end Huatuo.Flamegraph
