import Huatuo.Lib.Loop
import Huatuo.Profiling.Pprof

/-!
# A profile says what its window says

**Theorem (`profile_faithful`).** For every window that passes `Validate`, `BuildProfile` makes a
well-formed profile whose samples decode to those of the window, unless its context ends.

`Builder.Inv` ties the builder to the list of the keys that have a location: number `i + 1` is the
`i`th key. Whatever is added to a builder keeps the strings and the keys that are there (`Extends`),
so that a sample that was finished earlier still decodes to the same (`Shown.mono`).
-/

namespace Huatuo.Pprof

open List
open Profiling (AggregatedProfile AggregatedSample ProfileFrame ProfileLabel labelsOf
  validateLabels)

variable {a : AggregatedProfile} {b b' b'' : Builder}
  {keys keys' keys'' new new' : List LocationKey}
  {key : LocationKey}

/-! ## The builder -/

/-- The location and the function at a position are those of the key. -/
structure Located (a : AggregatedProfile) (b : Builder) (i : Nat) (key : LocationKey)
    (f : ProfileFrame)
    (fn : Function) : Prop where
  frame : a.frames[key.frameID]? = some f
  location : b.location[i]? = some ⟨i + 1, [⟨i + 1, f.line⟩]⟩
  function : b.function[i]? = some fn
  id : fn.id = i + 1
  name : b.strings.table[fn.name]? = some (key.name f)
  systemName : b.strings.table[fn.systemName]? = some (key.name f)
  filename : b.strings.table[fn.filename]? = some f.file

structure Builder.Inv (a : AggregatedProfile) (keys : List LocationKey) (b : Builder) : Prop where
  empty : b.strings.index "" = some 0
  sound : b.strings.Sound
  emptyLabel : b.emptyLabelString ≠ 0 → b.strings.table[b.emptyLabelString]? = some ""
  numbers : Numbers keys b.locations
  location_length : b.location.length = keys.length
  function_length : b.function.length = keys.length
  located : ∀ (i : Nat) (key : LocationKey), keys[i]? = some key → ∃ f fn, Located a b i key f fn

/-- `b'` has what `b` has, and locations for `new`. -/
structure Extends (keys : List LocationKey) (b : Builder) (keys' : List LocationKey) (b' : Builder)
    (new : List LocationKey) : Prop where
  grows : keys <+: keys'
  mem : ∀ key, key ∈ keys' ↔ key ∈ keys ∨ key ∈ new
  strings : b.strings.Grows b'.strings
  sample : b'.sample = b.sample

theorem Extends.of_strings (hstrs : b.strings.Grows b'.strings) (hsam : b'.sample = b.sample) :
    Extends keys b keys b' [] where
  grows := prefix_rfl
  mem := by simp
  strings := hstrs
  sample := hsam

theorem Extends.refl (keys : List LocationKey) (b : Builder) : Extends keys b keys b [] :=
  .of_strings (.refl _) rfl

theorem Extends.trans (h : Extends keys b keys' b' new) (h' : Extends keys' b' keys'' b'' new') :
    Extends keys b keys'' b'' (new ++ new') where
  grows := h.grows.trans h'.grows
  mem := by
    intro key
    rw [h'.mem, h.mem, mem_append, or_assoc]
  strings := h.strings.trans h'.strings
  sample := h'.sample.trans h.sample

theorem Builder.Inv.table_zero (hinv : b.Inv a keys) : b.strings.table[0]? = some "" :=
  hinv.sound "" 0 hinv.empty

theorem inv_new (a : AggregatedProfile) : Builder.Inv a [] {} where
  empty := rfl
  sound := by
    intro s id hs
    dsimp only [newStrings] at hs
    split at hs
    next hemp =>
      cases hs
      rw [hemp]
      rfl
    next => cases hs
  emptyLabel := fun h => absurd rfl h
  numbers := numbers_nil
  location_length := rfl
  function_length := rfl
  located := nofun

variable {f : ProfileFrame} {fn : Function} {i : Nat} {labels : List ProfileLabel}
  {s : AggregatedSample}
  {shown : Sample} {samples done : List AggregatedSample}

theorem Located.mono (h : Located a b i key f fn) (hstrs : b.strings.Grows b'.strings)
    (hloca : b.location <+: b'.location) (hfun : b.function <+: b'.function) :
    Located a b' i key f fn where
  frame := h.frame
  location := by
    obtain ⟨more, hmore⟩ := hloca
    rw [← hmore, List.getElem?_append_left (List.getElem?_eq_some_iff.1 h.location).1, h.location]
  function := by
    obtain ⟨more, hmore⟩ := hfun
    rw [← hmore, List.getElem?_append_left (List.getElem?_eq_some_iff.1 h.function).1, h.function]
  id := h.id
  name := hstrs.getElem? h.name
  systemName := hstrs.getElem? h.systemName
  filename := hstrs.getElem? h.filename

/-- Only strings are added. -/
theorem Builder.Inv.of_strings (hinv : b.Inv a keys) (hstrs : b.strings.Grows b'.strings)
    (hsound : b'.strings.Sound) (hlct : b'.locations = b.locations)
    (hloca : b'.location = b.location) (hfun : b'.function = b.function)
    (hemp : b'.emptyLabelString ≠ 0 → b'.strings.table[b'.emptyLabelString]? = some "") :
    b'.Inv a keys where
  empty := hstrs.index _ _ hinv.empty
  sound := hsound
  emptyLabel := hemp
  numbers := hlct ▸ hinv.numbers
  location_length := hloca ▸ hinv.location_length
  function_length := hfun ▸ hinv.function_length
  located := by
    intro i key hkey
    obtain ⟨f, fn, h⟩ := hinv.located i key hkey
    exact ⟨f, fn, h.mono hstrs (hloca ▸ prefix_rfl) (hfun ▸ prefix_rfl)⟩

/-! ## Locations -/

theorem grows_addLocation (b : Builder) (key : LocationKey) (f : ProfileFrame) :
    b.strings.Grows (addLocation b key f).strings :=
  ((Interner.grows_intern _ _).trans (Interner.grows_intern _ _)).trans (Interner.grows_intern _ _)

theorem located_addLocation (hinv : b.Inv a keys) (hfr : a.frames[key.frameID]? = some f) :
    ∃ fn, Located a (addLocation b key f) keys.length key f fn := by
  have hname := hinv.sound.getElem?_intern (key.name f)
  have hsystemName := (hinv.sound.intern (key.name f)).getElem?_intern (key.name f)
  have hfil := ((hinv.sound.intern (key.name f)).intern (key.name f)).getElem?_intern f.file
  refine ⟨⟨keys.length + 1, _, _, _⟩, hfr, ?_, ?_, rfl,
    (Interner.grows_intern _ _).getElem? ((Interner.grows_intern _ _).getElem? hname),
    (Interner.grows_intern _ _).getElem? hsystemName, hfil⟩
  · rw [addLocation, hinv.location_length, ← hinv.location_length]
    exact List.getElem?_concat_length
  · rw [addLocation, hinv.location_length, ← hinv.function_length]
    exact List.getElem?_concat_length

theorem inv_addLocation (hinv : b.Inv a keys) (hfr : a.frames[key.frameID]? = some f)
    (hnew : key ∉ keys) :
    (addLocation b key f).Inv a (keys ++ [key]) where
  empty := (grows_addLocation b key f).index _ _ hinv.empty
  sound := ((hinv.sound.intern _).intern _).intern _
  emptyLabel := fun h => (grows_addLocation b key f).getElem? (hinv.emptyLabel h)
  numbers := by
    rw [addLocation, hinv.location_length]
    exact hinv.numbers.insert hnew
  location_length := by simp [addLocation, hinv.location_length]
  function_length := by simp [addLocation, hinv.function_length]
  located := by
    intro i key' hkey
    rcases Dictionary.getElem?_concat_eq_some.1 hkey with hkey | ⟨rfl, rfl⟩
    · obtain ⟨f', fn, h⟩ := hinv.located i key' hkey
      exact ⟨f', fn, h.mono (grows_addLocation b key f) (prefix_append _ _) (prefix_append _ _)⟩
    · obtain ⟨fn, h⟩ := located_addLocation hinv hfr
      exact ⟨f, fn, h⟩

theorem extends_addLocation (b : Builder) (f : ProfileFrame) :
    Extends keys b (keys ++ [key]) (addLocation b key f) [key] where
  grows := prefix_append _ _
  mem := fun _ => mem_append
  strings := grows_addLocation b key f
  sample := rfl

theorem locate_spec (hinv : b.Inv a keys) (hfr : key.frameID < a.frames.length) :
    ∃ keys' b', locate a b key = .ok (keys'.idxOf key + 1, b') ∧ b'.Inv a keys' ∧
      Extends keys b keys' b' [key] := by
  unfold locate
  by_cases hzero : b.locations key = 0
  · have hnew : key ∉ keys := hinv.numbers.notMem hzero
    have hsome := List.getElem?_eq_getElem hfr
    refine ⟨keys ++ [key], addLocation b key a.frames[key.frameID], ?_,
      inv_addLocation hinv hsome hnew, extends_addLocation b _⟩
    rw [if_neg (not_not.2 hzero), hsome, idxOf_concat_self hnew, hinv.location_length]
  · obtain ⟨hmem, hid⟩ := hinv.numbers.of_ne_zero hzero
    refine ⟨keys, b, by rw [if_pos hzero, hid], hinv, prefix_rfl, ?_, .refl _, rfl⟩
    intro key'
    rw [mem_singleton]
    exact ⟨.inl, fun h => h.elim id fun h => h ▸ hmem⟩

theorem locateAll_spec (hinv : b.Inv a keys) (hfrs : ∀ key ∈ new, key.frameID < a.frames.length)
    (ids : List Nat) :
    ∃ keys' b', locateAll a (ids, b) new = .ok (ids ++ new.map fun key => keys'.idxOf key + 1, b') ∧
      b'.Inv a keys' ∧ Extends keys b keys' b' new := by
  induction new generalizing keys b ids with
  | nil => exact ⟨keys, b, by rw [map_nil, append_nil]; rfl, hinv, .refl keys b⟩
  | cons key new ih =>
    obtain ⟨keys₁, b₁, hlocate, hinv₁, hext₁⟩ := locate_spec hinv (hfrs key mem_cons_self)
    obtain ⟨keys', b', hrest, hinv', hext'⟩ :=
      ih hinv₁ (fun key hmem => hfrs key (mem_cons_of_mem _ hmem)) (ids ++ [keys₁.idxOf key + 1])
    refine ⟨keys', b', ?_, hinv', hext₁.trans hext'⟩
    have hkey : keys'.idxOf key = keys₁.idxOf key :=
      idxOf_of_grows hext'.grows ((hext₁.mem key).2 (.inr mem_cons_self))
    rw [locateAll, Loop.foldlM_cons_eq_ok]
    refine ⟨(ids ++ [keys₁.idxOf key + 1], b₁), by rw [hlocate]; rfl, ?_⟩
    rw [append_assoc] at hrest
    rw [map_cons, hkey]
    exact hrest

/-! ## Windows -/

/-- What `Validate` makes sure of. -/
structure Valid (a : AggregatedProfile) (samples : List AggregatedSample) : Prop where
  frameIDs : ∀ stack ∈ a.callStacks, ∀ id ∈ stack, id < a.frames.length
  labelSets : ∀ labels ∈ a.labelSets, validateLabels labels = .ok ()
  samples : ∀ s ∈ samples, s.userStack ≤ a.callStacks.length ∧ s.kernelStack ≤ a.callStacks.length ∧
    s.labelSet ≤ a.labelSets.length

theorem checkAll_ok {α : Type} {check : Nat → α → Except String Unit} {xs : List α}
    (h : checkAll check i xs = .ok ()) {x : α} (hmem : x ∈ xs) : ∃ j, check j x = .ok () := by
  induction xs generalizing i with
  | nil => cases hmem
  | cons y xs ih =>
    rw [checkAll] at h
    cases hy : check i y with
    | error err =>
      simp [hy] at h
    | ok =>
      rw [hy] at h
      rcases mem_cons.1 hmem with rfl | hmem
      · exact ⟨i, hy⟩
      · exact ih h hmem

theorem checkStack_ok {stack : List Nat} (h : checkStack a i stack = .ok ()) :
    ∀ id ∈ stack, id < a.frames.length := by
  intro id hmem
  unfold checkStack at h
  split at h
  · cases h
  cases hfind : stack.find? fun id => a.frames.length ≤ id with
  | some id =>
    simp [hfind] at h
  | none => simpa using List.find?_eq_none.1 hfind id hmem

theorem checkLabelSet_ok (h : checkLabelSet i labels = .ok ()) :
    validateLabels labels = .ok () := by
  unfold checkLabelSet at h
  split at h
  · cases h
  cases hlab : validateLabels labels with
  | error err =>
    simp [hlab] at h
  | ok => rfl

theorem checkSample_ok (h : checkSample a i s = .ok ()) :
    s.userStack ≤ a.callStacks.length ∧ s.kernelStack ≤ a.callStacks.length ∧
      s.labelSet ≤ a.labelSets.length := by
  unfold checkSample at h
  split at h
  · cases h
  next hle =>
    simpa using hle

theorem valid_of_validate {heap : Heap AggregatedSample} {w : Window}
    (h : validate heap (some w) = .ok ()) :
    (∃ parts, metadata w.profileType = .ok parts) ∧
      Valid w.aggregated (heap.read w.aggregated.samples) := by
  unfold validate at h
  dsimp only at h
  split at h
  · cases h
  next parts hparts =>
    split at h
    · cases h
    split at h
    · cases h
    split at h
    · cases h
    split at h
    · cases h
    next hsta =>
      split at h
      · cases h
      next hlabelSets =>
        refine ⟨⟨parts, hparts⟩, ?_, ?_, ?_⟩
        · intro stack hmem
          obtain ⟨i, hstack⟩ := checkAll_ok hsta hmem
          exact checkStack_ok hstack
        · intro labels hmem
          obtain ⟨i, hlab⟩ := checkAll_ok hlabelSets hmem
          exact checkLabelSet_ok hlab
        · intro s hmem
          obtain ⟨i, hs⟩ := checkAll_ok h hmem
          exact checkSample_ok hs

/-! ## Stacks -/

theorem addStack_spec (hinv : b.Inv a keys)
    (hfrs : ∀ stack ∈ a.callStacks, ∀ id ∈ stack, id < a.frames.length) (isKernel : Bool)
    {stackID : Nat} (hstack : stackID ≤ a.callStacks.length) (ids : List Nat) :
    ∃ keys' b', addStack a isKernel stackID (ids, b) =
        .ok (ids ++ (stackKeys a isKernel stackID).map fun key => keys'.idxOf key + 1, b') ∧
      b'.Inv a keys' ∧ Extends keys b keys' b' (stackKeys a isKernel stackID) := by
  unfold addStack stackKeys
  by_cases hzero : stackID = 0
  · simp only [hzero, if_true, map_nil, append_nil]
    exact ⟨keys, b, rfl, hinv, .refl keys b⟩
  · have hlt : stackID - 1 < a.callStacks.length := by omega
    simp only [hzero, if_false, List.getElem?_eq_getElem hlt, Option.getD_some]
    refine locateAll_spec hinv (fun key hmem => ?_) ids
    obtain ⟨id, hid, rfl⟩ := mem_map.1 hmem
    exact hfrs _ (getElem_mem hlt) id (mem_reverse.1 hid)

/-! ## Labels -/

/-- A label that is a string has no number, and one that is a number has no string. -/
theorem kind_of_validateProfileLabel {label : ProfileLabel}
    (h : Profiling.validateProfileLabel label = .ok ()) :
    (label.kind = .string ∧ label.numberValue = 0 ∧ label.numberUnit = "") ∨
      (label.kind = .number ∧ label.stringValue = "") := by
  have hkind : Profiling.validateKind label = .ok () := by
    unfold Profiling.validateProfileLabel at h
    split at h
    · cases h
    cases hkind : Profiling.validateKind label with
    | error err =>
      simp [hkind] at h
    | ok => rfl
  unfold Profiling.validateKind at hkind
  split at hkind
  next hstri =>
    split at hkind
    · cases hkind
    next hfie =>
      simp only [not_or, not_not] at hfie
      exact .inl ⟨hstri, hfie⟩
  next hnum =>
    split at hkind
    · cases hkind
    next hfie => exact .inr ⟨hnum, not_not.1 hfie⟩
  next => cases hkind

theorem validateLabelsAfter_ok {previous : Option ProfileLabel}
    (h : Profiling.validateLabelsAfter previous labels = .ok ()) :
    ∀ label ∈ labels, Profiling.validateProfileLabel label = .ok () := by
  induction labels generalizing previous with
  | nil => exact nofun
  | cons label labels ih =>
    rw [Profiling.validateLabelsAfter.eq_def] at h
    dsimp only at h
    cases hlabel : Profiling.validateProfileLabel label with
    | error err =>
      simp [hlabel] at h
    | ok =>
      rw [hlabel] at h
      have hrest : ∃ previous, Profiling.validateLabelsAfter previous labels = .ok () := by
        cases previous with
        | none => exact ⟨_, h⟩
        | some previous =>
          dsimp only at h
          split at h
          · cases h
          split at h
          · cases h
          · exact ⟨_, h⟩
      obtain ⟨previous, hrest⟩ := hrest
      intro label' hmem
      rcases mem_cons.1 hmem with rfl | hmem
      · exact hlabel
      · exact ih hrest label' hmem

structure LabelShown (table : List String) (label : ProfileLabel) (item : Label) : Prop where
  decode : decodeLabel table item = some label
  str : label.kind = .string → item.str ≠ 0
  key_lt : item.key < table.length
  str_lt : item.str < table.length
  numUnit_lt : item.numUnit < table.length

section LabelShown

variable {t t' : Interner String} {label : ProfileLabel} {item : Label} {table : List String}

theorem lt_of_getElem? {i : Nat} {text : String} (h : table[i]? = some text) :
    i < table.length := (List.getElem?_eq_some_iff.1 h).1

theorem labelShown_string (hkind : label.kind = .string) (hv : label.numberValue = 0)
    (hunit : label.numberUnit = "") {key str : Nat} (hkey : table[key]? = some label.name)
    (hstr : table[str]? = some label.stringValue) (hne : str ≠ 0) :
    LabelShown table label { key, str } where
  decode := by
    obtain ⟨name, kind, stringValue, numberValue, numberUnit⟩ := label
    cases hkind
    cases hv
    cases hunit
    simp [decodeLabel, hkey, hstr, hne]
  str := fun _ => hne
  key_lt := lt_of_getElem? hkey
  str_lt := lt_of_getElem? hstr
  numUnit_lt := Nat.zero_lt_of_lt (lt_of_getElem? hkey)

theorem labelShown_number (hkind : label.kind = .number) (hv : label.stringValue = "")
    {key numUnit : Nat}
    (hkey : table[key]? = some label.name) (hunit : table[numUnit]? = some label.numberUnit) :
    LabelShown table label { key, num := label.numberValue, numUnit } where
  decode := by
    obtain ⟨name, kind, stringValue, numberValue, numberUnit⟩ := label
    cases hkind
    cases hv
    simp [decodeLabel, hkey, hunit]
  str := by
    intro hstri
    simp [hkind] at hstri
  key_lt := lt_of_getElem? hkey
  str_lt := Nat.zero_lt_of_lt (lt_of_getElem? hkey)
  numUnit_lt := lt_of_getElem? hunit

theorem decodeLabel_mono (hgrows : t.Grows t') (h : decodeLabel t.table item = some label) :
    decodeLabel t'.table item = some label := by
  unfold decodeLabel at h ⊢
  obtain ⟨name, hname, h⟩ := Option.bind_eq_some_iff.1 h
  refine Option.bind_eq_some_iff.2 ⟨name, hgrows.getElem? hname, ?_⟩
  split at h
  next hstr =>
    obtain ⟨value, hv, h⟩ := Option.bind_eq_some_iff.1 h
    rw [if_pos hstr]
    exact Option.bind_eq_some_iff.2 ⟨value, hgrows.getElem? hv, h⟩
  next hstr =>
    obtain ⟨unit, hunit, h⟩ := Option.bind_eq_some_iff.1 h
    rw [if_neg hstr]
    exact Option.bind_eq_some_iff.2 ⟨unit, hgrows.getElem? hunit, h⟩

theorem LabelShown.mono (h : LabelShown t.table label item) (hgrows : t.Grows t') :
    LabelShown t'.table label item where
  decode := decodeLabel_mono hgrows h.decode
  str := h.str
  key_lt := h.key_lt.trans_le hgrows.table.length_le
  str_lt := h.str_lt.trans_le hgrows.table.length_le
  numUnit_lt := h.numUnit_lt.trans_le hgrows.table.length_le

end LabelShown

/-- Strings are added, and maybe the second empty one. -/
structure AddsStrings (a : AggregatedProfile) (keys : List LocationKey) (b b' : Builder) :
    Prop where
  inv : b'.Inv a keys
  grows : b.strings.Grows b'.strings
  sample : b'.sample = b.sample

theorem AddsStrings.trans (h : AddsStrings a keys b b') (h' : AddsStrings a keys b' b'') :
    AddsStrings a keys b b'' :=
  ⟨h'.inv, h.grows.trans h'.grows, h'.sample.trans h.sample⟩

theorem addsStrings_of_intern (hinv : b.Inv a keys) {t : Interner String}
    (hgrows : b.strings.Grows t)
    (hsound : t.Sound) : AddsStrings a keys b { b with strings := t } where
  inv := hinv.of_strings hgrows hsound rfl rfl rfl fun h => hgrows.getElem? (hinv.emptyLabel h)
  grows := hgrows
  sample := rfl

theorem emptyString_spec (hinv : b.Inv a keys) :
    AddsStrings a keys b (emptyString b).2 ∧ (emptyString b).1 ≠ 0 ∧
      (emptyString b).2.strings.table[(emptyString b).1]? = some "" := by
  unfold emptyString
  by_cases hzero : b.emptyLabelString = 0
  · rw [if_pos hzero]
    have hgrows := Interner.grows_push b.strings ""
    have hne : (b.strings.push "").1 ≠ 0 := Nat.ne_of_gt (lt_of_getElem? hinv.table_zero)
    have hpushed := Interner.getElem?_push b.strings ""
    exact ⟨⟨hinv.of_strings hgrows (hinv.sound.push "") rfl rfl rfl fun _ => hpushed, hgrows, rfl⟩,
      hne, hpushed⟩
  · rw [if_neg hzero]
    exact ⟨⟨hinv, .refl _, rfl⟩, hzero, hinv.emptyLabel hzero⟩

theorem addLabel_spec (hinv : b.Inv a keys) {label : ProfileLabel}
    (hlabel : Profiling.validateProfileLabel label = .ok ()) :
    AddsStrings a keys b (addLabel b label).2 ∧
      LabelShown (addLabel b label).2.strings.table label (addLabel b label).1 := by
  have hname := hinv.sound.getElem?_intern label.name
  have hsound := hinv.sound.intern label.name
  have hgrows := Interner.grows_intern b.strings label.name
  unfold addLabel
  rcases kind_of_validateProfileLabel hlabel with ⟨hkind, hv, hunit⟩ | ⟨hkind, hv⟩
  · have hstr := hsound.getElem?_intern label.stringValue
    have hgrows' := Interner.grows_intern (b.strings.intern label.name).2 label.stringValue
    have hadds :=
      addsStrings_of_intern hinv (hgrows.trans hgrows') (hsound.intern label.stringValue)
    simp only [hkind, if_true]
    by_cases hzero : ((b.strings.intern label.name).2.intern label.stringValue).1 = 0
    · -- the string that is shown is the empty one
      rw [hzero] at hstr
      have hemp : label.stringValue = "" := Option.some.inj (hstr.symm.trans hadds.inv.table_zero)
      obtain ⟨hadds', hne, htext⟩ := emptyString_spec hadds.inv
      rw [if_pos hzero]
      exact ⟨hadds.trans hadds', labelShown_string hkind hv hunit
        (hadds'.grows.getElem? (hgrows'.getElem? hname)) (hemp ▸ htext) hne⟩
    · rw [if_neg hzero]
      exact ⟨hadds, labelShown_string hkind hv hunit (hgrows'.getElem? hname) hstr hzero⟩
  · have hunit := hsound.getElem?_intern label.numberUnit
    have hgrows' := Interner.grows_intern (b.strings.intern label.name).2 label.numberUnit
    have hadds := addsStrings_of_intern hinv (hgrows.trans hgrows') (hsound.intern label.numberUnit)
    simp only [hkind, reduceCtorEq, if_false]
    exact ⟨hadds, labelShown_number hkind hv (hgrows'.getElem? hname) hunit⟩

theorem addLabels_spec (hinv : b.Inv a keys)
    (hlab : ∀ label ∈ labels, Profiling.validateProfileLabel label = .ok ()) (items : List Label) :
    ∃ items', (addLabels (items, b) labels).1 = items ++ items' ∧
      AddsStrings a keys b (addLabels (items, b) labels).2 ∧
      List.Forall₂ (LabelShown (addLabels (items, b) labels).2.strings.table) labels items' := by
  induction labels generalizing b items with
  | nil => exact ⟨[], (append_nil _).symm, ⟨hinv, .refl _, rfl⟩, .nil⟩
  | cons label labels ih =>
    obtain ⟨hadds, hshown⟩ := addLabel_spec hinv (hlab label mem_cons_self)
    obtain ⟨items', hitems, hadds', hshown'⟩ :=
      ih hadds.inv (fun label hmem => hlab label (mem_cons_of_mem _ hmem))
        (items ++ [(addLabel b label).1])
    refine ⟨(addLabel b label).1 :: items', ?_, hadds.trans hadds',
      .cons (hshown.mono hadds'.grows) hshown'⟩
    rw [append_assoc] at hitems
    exact hitems

/-! ## Samples -/

structure SampleShown (a : AggregatedProfile) (keys : List LocationKey) (table : List String)
    (s : AggregatedSample) (shown : Sample) : Prop where
  value : shown.value = [s.value]
  mem : ∀ key ∈ sampleKeys a s, key ∈ keys
  locationId : shown.locationId = (sampleKeys a s).map fun key => keys.idxOf key + 1
  labels : ∃ labels, labelsOf a s = some labels ∧ List.Forall₂ (LabelShown table) labels shown.label

theorem SampleShown.mono {t t' : Interner String} (h : SampleShown a keys t.table s shown)
    (hkeys : keys <+: keys') (hgrows : t.Grows t') : SampleShown a keys' t'.table s shown where
  value := h.value
  mem := fun key hmem => hkeys.subset (h.mem key hmem)
  locationId := by
    rw [h.locationId]
    refine map_congr_left fun key hmem => ?_
    rw [idxOf_of_grows hkeys (h.mem key hmem)]
  labels := by
    obtain ⟨labels, hlab, hshown⟩ := h.labels
    exact ⟨labels, hlab, hshown.imp fun _ _ hitem => hitem.mono hgrows⟩

/-- The builder has shown the samples that are done, with a location for each key that they use. -/
structure Built (a : AggregatedProfile) (done : List AggregatedSample) (keys : List LocationKey)
    (b : Builder) : Prop where
  inv : b.Inv a keys
  mem : ∀ key, key ∈ keys ↔ ∃ s ∈ done, key ∈ sampleKeys a s
  shown : List.Forall₂ (SampleShown a keys b.strings.table) done b.sample

theorem labelsOf_valid (hvalid : Valid a samples) (hs : s.labelSet ≤ a.labelSets.length) :
    ∃ labels, labelsOf a s = some labels ∧
      ∀ label ∈ labels, Profiling.validateProfileLabel label = .ok () := by
  unfold labelsOf
  by_cases hzero : s.labelSet = 0
  · exact ⟨[], if_pos hzero, nofun⟩
  have hlt : s.labelSet - 1 < a.labelSets.length := by omega
  refine ⟨a.labelSets[s.labelSet - 1], ?_, ?_⟩
  · rw [if_neg hzero, List.getElem?_eq_getElem hlt]
  · exact validateLabelsAfter_ok (hvalid.labelSets _ (getElem_mem hlt))

/-- Both stacks of a sample. -/
theorem addStacks_spec (hinv : b.Inv a keys)
    (hfrs : ∀ stack ∈ a.callStacks, ∀ id ∈ stack, id < a.frames.length)
    (hkernelStack : s.kernelStack ≤ a.callStacks.length)
    (huserStack : s.userStack ≤ a.callStacks.length) :
    ∃ kernel keys' b', addStack a true s.kernelStack ([], b) = .ok kernel ∧
      addStack a false s.userStack kernel =
        .ok ((sampleKeys a s).map fun key => keys'.idxOf key + 1, b') ∧
      b'.Inv a keys' ∧ Extends keys b keys' b' (sampleKeys a s) := by
  obtain ⟨keys₁, b₁, hker, hinv₁, hext₁⟩ := addStack_spec hinv hfrs true hkernelStack []
  obtain ⟨keys₂, b₂, huser, hinv₂, hext₂⟩ := addStack_spec hinv₁ hfrs false huserStack
    ([] ++ (stackKeys a true s.kernelStack).map fun key => keys₁.idxOf key + 1)
  refine ⟨_, keys₂, b₂, hker, ?_, hinv₂, hext₁.trans hext₂⟩
  -- the user stack leaves the numbers of the kernel stack as they are
  have hkept : ((stackKeys a true s.kernelStack).map fun key => keys₁.idxOf key + 1) =
      (stackKeys a true s.kernelStack).map fun key => keys₂.idxOf key + 1 :=
    map_congr_left fun key hmem =>
      congrArg (· + 1) (idxOf_of_grows hext₂.grows ((hext₁.mem key).2 (.inr hmem))).symm
  rw [huser, sampleKeys, map_append, nil_append, hkept]

theorem built_addSample (hbuilt : Built a done keys b) (hvalid : Valid a samples)
    (hs : s ∈ samples) :
    ∃ keys' b', addSample a b s = .ok b' ∧ Built a (done ++ [s]) keys' b' ∧
      b.strings.Grows b'.strings := by
  obtain ⟨huserStack, hkernelStack, hlabelSet⟩ := hvalid.samples s hs
  obtain ⟨kernel, keys', b₁, hker, huser, hinv, hext⟩ :=
    addStacks_spec hbuilt.inv hvalid.frameIDs hkernelStack huserStack
  obtain ⟨labels, hlab, hlabelsValid⟩ := labelsOf_valid hvalid hlabelSet
  obtain ⟨items, hitems, hadds, hshown⟩ := addLabels_spec hinv hlabelsValid []
  rw [nil_append] at hitems
  rw [← hitems] at hshown
  have hgrows := hext.strings.trans hadds.grows
  let shown : Sample :=
    ⟨(sampleKeys a s).map fun key => keys'.idxOf key + 1, [s.value], (addLabels ([], b₁) labels).1⟩
  have hresu : addSample a b s = .ok { (addLabels ([], b₁) labels).2 with
      sample := (addLabels ([], b₁) labels).2.sample ++ [shown] } := by
    simp only [addSample, hker, huser, hlab]
    rfl
  refine ⟨keys', _, hresu, ⟨?_, ?_, ?_⟩, hgrows⟩
  · exact hadds.inv.of_strings (.refl _) hadds.inv.sound rfl rfl rfl hadds.inv.emptyLabel
  · intro key
    simp [hext.mem, hbuilt.mem, or_and_right, exists_or]
  · have hnew : SampleShown a keys' (addLabels ([], b₁) labels).2.strings.table s shown :=
      ⟨rfl, fun key hmem => (hext.mem key).2 (.inr hmem), rfl, labels, hlab, hshown⟩
    have hold := hbuilt.shown.imp fun _ _ h => h.mono hext.grows hgrows
    dsimp only
    rw [hadds.sample, hext.sample]
    exact rel_append hold (.cons hnew .nil)

theorem built_addSamples (hbuilt : Built a done keys b) (rest : List AggregatedSample)
    (hvalid : Valid a (done ++ rest)) (ctx : Nat → Option String) (i : Nat) :
    (∃ n err, ctx n = some err ∧ addSamples ctx a i b rest = .error err) ∨
      ∃ keys' b', addSamples ctx a i b rest = .ok b' ∧ Built a (done ++ rest) keys' b' ∧
        b.strings.Grows b'.strings := by
  induction rest generalizing done keys b i with
  | nil => exact .inr ⟨keys, b, rfl, (append_nil done).symm ▸ hbuilt, .refl _⟩
  | cons s rest ih =>
    rw [addSamples]
    cases hctx : ctx (i + 1) with
    | some err => exact .inl ⟨i + 1, err, hctx, rfl⟩
    | none =>
      obtain ⟨keys₁, b₁, hs, hbuilt₁, hgrows₁⟩ :=
        built_addSample hbuilt hvalid (mem_append_right done mem_cons_self)
      rw [append_cons] at hvalid ⊢
      rw [hs]
      rcases ih hbuilt₁ hvalid (i + 1) with herr | ⟨keys', b', hrest, hbuilt', hgrows'⟩
      · exact .inl herr
      · exact .inr ⟨keys', b', hrest, hbuilt', hgrows₁.trans hgrows'⟩

/-! ## Decoding -/

theorem Builder.Inv.location_eq (hinv : b.Inv a keys) {location : Location}
    (h : b.location[i]? = some location) : ∃ line, location = ⟨i + 1, [⟨i + 1, line⟩]⟩ := by
  have hlt : i < keys.length := hinv.location_length ▸ (List.getElem?_eq_some_iff.1 h).1
  obtain ⟨f, fn, hloc⟩ := hinv.located i _ (List.getElem?_eq_getElem hlt)
  exact ⟨f.line, Option.some.inj (h.symm.trans hloc.location)⟩

theorem Builder.Inv.function_id (hinv : b.Inv a keys) (h : b.function[i]? = some fn) :
    fn.id = i + 1 := by
  have hlt : i < keys.length := hinv.function_length ▸ (List.getElem?_eq_some_iff.1 h).1
  obtain ⟨f, fn', hloc⟩ := hinv.located i _ (List.getElem?_eq_getElem hlt)
  rw [Option.some.inj (h.symm.trans hloc.function), hloc.id]

/-- The number of a key leads to its frame. -/
theorem decodeLocation_spec (hinv : b.Inv a keys) (hmem : key ∈ keys)
    (hfr : a.frames[key.frameID]? = some f) (sampleType : ValueType) :
    (b.profile a sampleType).decodeLocation (keys.idxOf key + 1) =
      some { f with name := key.name f } := by
  obtain ⟨f', fn, hloc⟩ := hinv.located _ key (List.getElem?_idxOf hmem)
  cases Option.some.inj (hloc.frame.symm.trans hfr)
  have hloca : (b.location.find? fun location => location.id = keys.idxOf key + 1) =
      some ⟨keys.idxOf key + 1, [⟨keys.idxOf key + 1, f.line⟩]⟩ := by
    refine find?_eq_getElem? (fun i location h => ?_) hloc.location
    obtain ⟨line, rfl⟩ := hinv.location_eq h
    rfl
  have hfun : (b.function.find? fun function => function.id = keys.idxOf key + 1) = some fn :=
    find?_eq_getElem? (fun i fn h => hinv.function_id h) hloc.function
  simp [Profile.decodeLocation, Builder.profile, hloca, hfun, hloc.name, hloc.filename]

/-- The frames of a stack, next to its keys. -/
theorem stackFrames_spec (hfrs : ∀ stack ∈ a.callStacks, ∀ id ∈ stack, id < a.frames.length)
    {stackID : Nat} (hstack : stackID ≤ a.callStacks.length) (isKernel : Bool) :
    ∃ frames, a.stackFrames stackID = some frames ∧
      List.Forall₂
        (fun (key : LocationKey) f => a.frames[key.frameID]? = some f ∧ key.isKernel = isKernel)
        (stackKeys a isKernel stackID) frames.reverse := by
  unfold AggregatedProfile.stackFrames stackKeys
  by_cases hzero : stackID = 0
  · simp only [hzero, ne_eq, not_true_eq_false, if_false, if_true]
    exact ⟨[], rfl, .nil⟩
  · have hlt : stackID - 1 < a.callStacks.length := by omega
    have hall : ∀ id ∈ a.callStacks[stackID - 1], ∃ f, a.frames[id]? = some f := fun id hmem =>
      ⟨_, List.getElem?_eq_getElem (hfrs _ (getElem_mem hlt) id hmem)⟩
    obtain ⟨frames, hres⟩ := Loop.mapM_isSome hall
    refine ⟨frames, ?_, ?_⟩
    · rw [if_pos hzero, List.getElem?_eq_getElem hlt]
      exact hres
    · rw [if_neg hzero, List.getElem?_eq_getElem hlt, Option.getD_some, forall₂_map_left_iff]
      exact (forall₂_reverse_iff.2 (Loop.mapM_eq_some.1 hres)).imp fun _ _ h => ⟨h, rfl⟩

/-- The locations of a stack decode to its frames. -/
theorem decode_stack (hinv : b.Inv a keys) {isKernel : Bool} {stack : List LocationKey}
    {frames : List ProfileFrame} (hmem : ∀ key ∈ stack, key ∈ keys)
    (hfrs : List.Forall₂ (fun (key : LocationKey) f =>
      a.frames[key.frameID]? = some f ∧ key.isKernel = isKernel) stack frames)
    {g : ProfileFrame → ProfileFrame}
    (hg : ∀ (key : LocationKey) f, key.isKernel = isKernel → { f with name := key.name f } = g f)
    (sampleType : ValueType) :
    List.Forall₂
      (fun key f => (b.profile a sampleType).decodeLocation (keys.idxOf key + 1) = some f)
      stack (frames.map g) := by
  rw [forall₂_map_right_iff]
  refine ((forall₂_and_left _ _).2 ⟨hmem, hfrs⟩).imp ?_
  rintro key f ⟨hkey, hfr, hker⟩
  rw [decodeLocation_spec hinv hkey hfr, hg key f hker]

/-- The sample decodes to the sample of the window. -/
theorem SampleShown.shows (hinv : b.Inv a keys) (hvalid : Valid a samples) (hs : s ∈ samples)
    (h : SampleShown a keys b.strings.table s shown) (sampleType : ValueType) :
    (b.profile a sampleType).Shows a s shown := by
  obtain ⟨huserStack, hkernelStack, -⟩ := hvalid.samples s hs
  obtain ⟨kernel, hker, hkernelKeys⟩ := stackFrames_spec hvalid.frameIDs hkernelStack true
  obtain ⟨user, huser, huserKeys⟩ := stackFrames_spec hvalid.frameIDs huserStack false
  obtain ⟨labels, hlab, hshown⟩ := h.labels
  refine ⟨h.value, ⟨kernel, user, hker, huser, ?_⟩, labels, hlab, ?_, ?_⟩
  · rw [Loop.mapM_eq_some, h.locationId, forall₂_map_left_iff, sampleKeys]
    have hmem := forall_mem_append.1 h.mem
    refine rel_append (decode_stack hinv hmem.1 hkernelKeys ?_ sampleType) ?_
    · intro key f hkey
      rw [LocationKey.name, if_pos hkey, kernelFrame]
    · rw [← map_id user.reverse]
      refine decode_stack hinv hmem.2 huserKeys ?_ sampleType
      intro key f hkey
      rw [LocationKey.name, hkey]
      rfl
  · exact Loop.mapM_eq_some.2 (hshown.flip.imp fun _ _ hitem => hitem.decode)
  · exact hshown.imp fun _ _ hitem => hitem.str

theorem function_indices_lt (hinv : b.Inv a keys) (hmem : fn ∈ b.function) :
    ∀ index ∈ [fn.name, fn.systemName, fn.filename], index < b.strings.table.length := by
  obtain ⟨i, hi⟩ := mem_iff_getElem?.1 hmem
  have hlt : i < keys.length := hinv.function_length ▸ (List.getElem?_eq_some_iff.1 hi).1
  obtain ⟨f, fn', hloc⟩ := hinv.located i _ (List.getElem?_eq_getElem hlt)
  cases Option.some.inj (hi.symm.trans hloc.function)
  simp only [mem_cons, not_mem_nil, or_false, forall_eq_or_imp, forall_eq]
  exact ⟨lt_of_getElem? hloc.name, lt_of_getElem? hloc.systemName, lt_of_getElem? hloc.filename⟩

theorem label_indices_lt (hbuilt : Built a done keys b) (hmem : shown ∈ b.sample) {item : Label}
    (hitem : item ∈ shown.label) :
    ∀ index ∈ [item.key, item.str, item.numUnit], index < b.strings.table.length := by
  obtain ⟨s, -, hshown⟩ := Loop.exists_of_mem_right hbuilt.shown hmem
  obtain ⟨labels, -, hlab⟩ := hshown.labels
  obtain ⟨label, -, h⟩ := Loop.exists_of_mem_right hlab hitem
  simp only [mem_cons, not_mem_nil, or_false, forall_eq_or_imp, forall_eq]
  exact ⟨h.key_lt, h.str_lt, h.numUnit_lt⟩

theorem wellFormed_profile (hbuilt : Built a done keys b) {sampleType : ValueType}
    (htype : sampleType.type < b.strings.table.length)
    (hunit : sampleType.unit < b.strings.table.length) :
    (b.profile a sampleType).WellFormed where
  empty := hbuilt.inv.table_zero
  strings := by
    intro index hidx
    rcases mem_append.1 hidx with hidx | hidx
    · rcases mem_append.1 hidx with hidx | hidx
      · obtain ⟨valueType, hmem, hidx⟩ := mem_flatMap.1 hidx
        rw [mem_singleton.1 hmem] at hidx
        simp only [mem_cons, not_mem_nil, or_false] at hidx
        exact hidx.elim (fun h => h ▸ htype) fun h => h ▸ hunit
      · obtain ⟨fn, hmem, hidx⟩ := mem_flatMap.1 hidx
        exact function_indices_lt hbuilt.inv hmem index hidx
    · obtain ⟨shown, hmem, hidx⟩ := mem_flatMap.1 hidx
      obtain ⟨item, hitem, hidx⟩ := mem_flatMap.1 hidx
      exact label_indices_lt hbuilt hmem hitem index hidx
  locations := fun i location h => hbuilt.inv.location_eq h
  functions := ⟨hbuilt.inv.function_length.trans hbuilt.inv.location_length.symm,
    fun i fn h => hbuilt.inv.function_id h⟩

/-! ## Result -/

/-- The two strings that a profile starts with. -/
theorem built_new (a : AggregatedProfile) (type unit : String) :
    Built a [] [] { strings := ((newStrings.intern type).2.intern unit).2 } := by
  have hgrows := (Interner.grows_intern newStrings type).trans (Interner.grows_intern _ unit)
  have hsound := ((inv_new a).sound.intern type).intern unit
  exact ⟨(addsStrings_of_intern (inv_new a) hgrows hsound).inv, by simp, .nil⟩

theorem metadata_ok {profileType : String} {parts : List String}
    (h : metadata profileType = .ok parts) : parts.length = 5 := by
  unfold metadata at h
  dsimp only at h
  split at h
  · cases h
  next hparts =>
    cases h
    exact not_not.1 (not_or.1 hparts).1

/-- **Profiles are faithful.** For every window that passes `Validate`, `BuildProfile` succeeds,
unless its context ends, and then with the context's error. The profile is well formed. It has
exactly one location for each frame ID and domain that a sample uses, and each sample lists those of
its kernel stack and then those of its user stack, from the innermost frame on. Its samples decode
to the samples of the window, with the labels in order, and no string among them can be taken for a
number. -/
theorem profile_faithful (ctx : Nat → Option String) (heap : Heap AggregatedSample) (w : Window)
    (hvalid : validate heap (some w) = .ok ()) :
    (∃ n err, ctx n = some err ∧ buildProfile ctx heap w = .error err) ∨
    ∃ p, buildProfile ctx heap w = .ok p ∧ p.WellFormed ∧
      (∃ keys : List LocationKey, keys.Nodup ∧ keys.length = p.location.length ∧
        (∀ key, key ∈ keys ↔ ∃ s ∈ heap.read w.aggregated.samples,
          key ∈ sampleKeys w.aggregated s) ∧
        List.Forall₂ (fun s shown => shown.locationId =
          (sampleKeys w.aggregated s).map fun key => keys.idxOf key + 1)
          (heap.read w.aggregated.samples) p.sample) ∧
      List.Forall₂ (p.Shows w.aggregated) (heap.read w.aggregated.samples) p.sample := by
  obtain ⟨⟨parts, hparts⟩, hvalid⟩ := valid_of_validate hvalid
  have hlength := metadata_ok hparts
  unfold buildProfile
  cases hctx : ctx 0 with
  | some err => exact .inl ⟨0, err, hctx, rfl⟩
  | none =>
    have htype : parts[1]? = some parts[1] := List.getElem?_eq_getElem (by omega)
    have hunit : parts[2]? = some parts[2] := List.getElem?_eq_getElem (by omega)
    simp only [hparts, htype, hunit]
    rcases built_addSamples (built_new w.aggregated parts[1] parts[2])
      (heap.read w.aggregated.samples)
      hvalid ctx 0 with ⟨n, err, herr, hresult⟩ | ⟨keys, b, hresult, hbuilt, hgrows⟩
    · rw [hresult]
      exact .inl ⟨n, err, herr, rfl⟩
    · rw [hresult]
      rw [nil_append] at hbuilt
      -- the strings of the sample type are still there
      have hsound := (inv_new w.aggregated).sound
      have htypeText := hsound.getElem?_intern parts[1]
      have hunitText := (hsound.intern parts[1]).getElem?_intern parts[2]
      refine .inr ⟨_, rfl, wellFormed_profile hbuilt ?_ ?_,
        ⟨keys, hbuilt.inv.numbers.nodup, hbuilt.inv.location_length.symm, hbuilt.mem,
          hbuilt.shown.imp fun _ _ h => h.locationId⟩, ?_⟩
      · exact lt_of_getElem? (hgrows.getElem? ((Interner.grows_intern _ _).getElem? htypeText))
      · exact lt_of_getElem? (hgrows.getElem? hunitText)
      · have hall := (forall₂_and_left _ _).2 ⟨fun s hs => hs, hbuilt.shown⟩
        exact hall.imp fun s shown h => h.2.shows hbuilt.inv hvalid h.1 _

/-- A heap with three samples. -/
def mixedHeap : Heap AggregatedSample × Slice :=
  (Heap.empty (fun _ => 0) : Heap AggregatedSample).alloc
    [{ userStack := 1, kernelStack := 0, labelSet := 1, value := 2 },
      { userStack := 0, kernelStack := 1, labelSet := 0, value := 3 },
      { userStack := 1, kernelStack := 1, labelSet := 1, value := 5 }]

/-- One stack, in user and in kernel samples, and a label that is an empty string. -/
def mixedWindow : Window where
  profileType := "process_cpu:cpu:nanoseconds:cpu:nanoseconds"
  droppedSamples := [("collection", 4)]
  aggregated :=
    { timeNanos := 1
      frames := [{ name := "main", file := "a.c", line := 4 }, { name := "shared" }]
      callStacks := [[0, 1]]
      labelSets := [[{ name := "detail", kind := .string },
        { name := "size", kind := .number, numberValue := 8, numberUnit := "bytes" }]]
      samples := mixedHeap.2 }

theorem profile_faithful_mixed :
    ∃ p, buildProfile (fun _ => none) mixedHeap.1 mixedWindow = .ok p ∧ p.WellFormed ∧
      List.Forall₂ (p.Shows mixedWindow.aggregated) (mixedHeap.1.read mixedHeap.2) p.sample ∧
      p.location.length = 4 ∧
      p.stringTable = ["", "cpu", "nanoseconds", "shared", "main", "a.c", "detail", "", "size",
        "bytes", "shared_[k]", "main_[k]"] := by
  have htables : ((buildProfile (fun _ => none) mixedHeap.1 mixedWindow).map fun p =>
      (p.location.length, p.stringTable)) =
        .ok (4, ["", "cpu", "nanoseconds", "shared", "main", "a.c", "detail", "", "size", "bytes",
          "shared_[k]", "main_[k]"]) := by
    decide +kernel
  rcases profile_faithful (fun _ => none) mixedHeap.1 mixedWindow (by decide +kernel) with
    ⟨n, err, herr, -⟩ | ⟨p, hp, hwell, -, hshows⟩
  · cases herr
  · rw [hp] at htables
    obtain ⟨hlength, htable⟩ := Prod.mk.inj (Except.ok.inj htables)
    exact ⟨p, hp, hwell, hshows, hlength, htable⟩

end Huatuo.Pprof
