import Gam.Wire.WorkRequest

/-!
# The table of functions

A write can carry a function instead of data. On the wire it is a number, the index of the function in
`GAllocFactory::gfuncs`, and `GetGFuncID` and `GetGFunc` (`gfunc.cc`) translate. The table is part of the
memory of the process, so an index that is too large reads what lies behind it. Both lookups come with the
indices they read.
-/

namespace Gam.Wire.FunctionTable

/-- A function pointer; the null pointer is 0. -/
abbrev Pointer := BitVec 64

/-- `MAX_GFUNCS`. -/
def maxGFuncs : Nat := 100

/-- `sizeof(GAllocFactory::gfuncs)`, in bytes. -/
def sizeofGFuncs : Nat := maxGFuncs * 8

/-- The words of the memory as elements of the array `gfuncs`. -/
abbrev Image := Int → Pointer

/-- A result and the elements of `gfuncs` that were read for it. -/
structure Lookup (α : Type) where
  result : α
  reads : List Int
deriving DecidableEq, Repr

/-- The loop of `GetGFuncID`, from `i` on. -/
def search (gfuncs : Image) (gfunc : Pointer) : (rounds : Nat) → (i : Nat) → Lookup Int
  | 0, _ => ⟨-1, []⟩
  | rounds + 1, i =>
    if gfuncs i = gfunc then ⟨i, [(i : Int)]⟩ else let rest := search gfuncs gfunc rounds (i + 1)
      ⟨rest.result, i :: rest.reads⟩

/-- `GetGFuncID`. -/
def getGFuncID (gfuncs : Image) (gfunc : Pointer) : Lookup Int :=
  if gfunc = 0 then ⟨-1, []⟩ else search gfuncs gfunc sizeofGFuncs 0

/-- `GetGFunc`; the assertion is compiled out. -/
def getGFunc (gfuncs : Image) (id : Int) : Lookup Pointer := if id = -1 then ⟨0, []⟩ else ⟨gfuncs id, [id]⟩

end Gam.Wire.FunctionTable
