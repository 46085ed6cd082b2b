import Mathlib.Data.List.Sort
import Huatuo.Lib.Search
import Huatuo.Lib.Words

/-!
# Symbols and sections

`internal/symbol`: the sorted slices that all resolvers search. A symbol covers the addresses from
its own up to its size, a symbol of size zero only its own, and `resolve` asks the last symbol at
or below an address. Memory mappings and ELF sections are searched the same way.

Go strings are byte strings here.
-/

namespace Huatuo

open Words

structure Symbol where
  addr : Nat
  size : Nat
  name : Bytes
  deriving DecidableEq, Repr

namespace Symbol

/-- Subtraction of `uint64` values. -/
def sub64 (a b : Nat) : Nat := (2 ^ 64 + a - b) % 2 ^ 64

theorem sub64_of_le {a b : Nat} (h : b ≤ a) (ha : a < 2 ^ 64) : sub64 a b = a - b := by
  unfold sub64
  omega

/-! ## Symbols -/

def symbolCovers (addr size key : Nat) : Bool :=
  if key < addr then false
  else if size = 0 then key = addr
  else size ≤ (2 ^ 64 - 1) - addr ∧ key < addr + size

variable (syms : List Symbol)

/-- `symbols.sort`. Symbols of one address are equal wherever it is used, so that their order does
not matter. -/
def sortSymbols : List Symbol :=
  syms.insertionSort fun a b => a.addr ≤ b.addr

def floorSym (key : Nat) : Option Symbol := Search.floor Symbol.addr syms key

/-- The name of the symbol that covers `key`, or the empty string. -/
def resolve (key : Nat) : Bytes :=
  match floorSym syms key with
  | none => []
  | some sym => if symbolCovers sym.addr sym.size key then sym.name else []

variable {addr : Nat}

theorem sorted_sortSymbols : (sortSymbols syms).Pairwise fun a b => a.addr ≤ b.addr :=
  List.pairwise_insertionSort (fun a b : Symbol => a.addr ≤ b.addr) syms

@[simp] theorem mem_sortSymbols {syms : List Symbol} {sym : Symbol} :
    sym ∈ sortSymbols syms ↔ sym ∈ syms :=
  List.mem_insertionSort _

/-! ## Mappings and sections -/

/-- A line of `/proc/<pid>/maps`, or a section of an executable. -/
structure ProcMap where
  startAddr : Nat
  endAddr : Nat
  offset : Nat := 0
  pathname : String
  deriving DecidableEq, Repr

def sortSections (secs : List ProcMap) : List ProcMap :=
  secs.insertionSort fun a b => a.startAddr ≤ b.startAddr

/-- `sections.find`. -/
def find (secs : List ProcMap) (addr : Nat) : Option ProcMap :=
  match Search.floor ProcMap.startAddr secs addr with
  | none => none
  | some s =>
    if s.pathname ≠ "" ∧ s.startAddr ≤ addr ∧ addr < s.endAddr then some s else none

variable {s : ProcMap} {secs : List ProcMap}

theorem find_pathname_ne (h : find secs addr = some s) : s.pathname ≠ "" := by
  unfold find at h
  split at h
  · cases h
  split at h <;> cases h
  rename_i hbou
  exact hbou.1

/-- In a list of disjoint mappings the one around an address is found. -/
theorem find_eq_some (hsort : secs.Pairwise fun a b => a.endAddr ≤ b.startAddr)
    (hord : ∀ a ∈ secs, a.startAddr < a.endAddr) (hs : s ∈ secs) (hpath : s.pathname ≠ "")
    (hsta : s.startAddr ≤ addr) (hend : addr < s.endAddr) : find secs addr = some s := by
  have hstar : secs.Pairwise fun a b => a.startAddr ≤ b.startAddr :=
    hsort.imp_of_mem fun ha _ h => Nat.le_trans (Nat.le_of_lt (hord _ ha)) h
  obtain ⟨m, hm⟩ := Search.floor_isSome hstar hs hsta
  obtain ⟨hmem, hle, hmax⟩ := Search.floor_eq_some hstar hm
  have hbet := hmax s hs hsta
  -- two mappings in the list are equal or disjoint, and both reach below `addr`
  obtain rfl : m = s := by
    have hapart : m = s ∨ m.endAddr ≤ s.startAddr ∨ s.endAddr ≤ m.startAddr :=
      List.Pairwise.forall_of_forall_of_flip (R := fun a b : ProcMap =>
        a = b ∨ a.endAddr ≤ b.startAddr ∨ b.endAddr ≤ a.startAddr) (fun _ _ => .inl rfl)
        (hsort.imp fun h => .inr (.inl h)) (hsort.imp fun h => .inr (.inr h)) hmem hs
    have hm' := hord m hmem
    exact hapart.resolve_right (by omega)
  rw [find, hm]
  exact if_pos ⟨hpath, hsta, hend⟩

/-! ## Frames that cannot be resolved -/

def failFrame (reason path : String) : Bytes :=
  if reason = "" ∧ path = "" then "unknown".toUTF8.data.toList
  else ("unknown " ++ reason ++ path).toUTF8.data.toList

end Symbol

end Huatuo
