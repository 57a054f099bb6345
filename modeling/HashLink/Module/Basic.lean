import HashLink.Code.Instruction
import HashLink.Code.Position
import HashLink.TypeDef.Basic

/-!
# Modules

A module is what a bytecode file holds: pools of values, types and functions that refer to each
other by index. Natives and methods share one index space, in any order; a function's index is part of
its record.
-/

namespace HashLink

/-- A function that the host provides. -/
structure Native where
  lib : Nat
  name : Nat
  type : Nat
  index : Nat
  deriving DecidableEq, Repr

/-- From which instruction on a register holds a named variable. -/
structure VarAssign where
  name : Nat
  position : Int32
  deriving DecidableEq, Repr

/-- A function with code. The debug tables are there when the module was read with debug
information. -/
structure Method where
  type : Nat
  index : Nat
  registers : List Nat
  instructions : List Instruction
  debug : Option (List Position)
  assigns : Option (List VarAssign)
  deriving DecidableEq, Repr

/-- The initial value of a global: for a string, its index and its length in bytes. -/
structure Constant where
  global : Nat
  fields : List Nat
  deriving DecidableEq, Repr

/-- A bytecode file. Floats are bit patterns. -/
structure Module where
  version : UInt8
  hasDebug : Bool := false
  ints : List Int32 := []
  floats : List UInt64 := []
  strings : List String := []
  bytes : List (List UInt8) := []
  debugFiles : List String := []
  types : List RawType := []
  globals : List Nat := []
  natives : List Native := []
  methods : List Method := []
  constants : List Constant := []
  entrypoint : Nat := 0
  deriving DecidableEq, Repr

/-- Whether files of a version have a pool of byte blocks. -/
def hasBytesPool (version : UInt8) : Bool := 5 ≤ version

/-- Whether two bit patterns are equal as floating-point numbers: a NaN equals nothing, and the
two zeros are equal. -/
def sameNumber (a b : UInt64) : Bool :=
  let isNaN (x : UInt64) : Bool := 0x7FF0000000000000 < x.toNat % 0x8000000000000000
  let isZero (x : UInt64) : Bool := x.toNat % 0x8000000000000000 = 0
  !isNaN a && !isNaN b && (a == b || isZero a && isZero b)

namespace Module

/-- The size of the index space of functions. -/
def functionCount (m : Module) : Nat := m.natives.length + m.methods.length

/-- The indices of all functions, natives first. -/
def functionIndices (m : Module) : List Nat :=
  m.natives.map (·.index) ++ m.methods.map (·.index)

/-- The first method with a function index. -/
def findMethod? (m : Module) (index : Nat) : Option Method :=
  m.methods.find? (·.index == index)

/-- The first native with a function index. -/
def findNative? (m : Module) (index : Nat) : Option Native :=
  m.natives.find? (·.index == index)

/-- Whether two modules hold the same, with floats compared as numbers. -/
def same (a b : Module) : Bool :=
  { a with floats := [] } == { b with floats := [] } &&
    a.floats.length == b.floats.length && (a.floats.zip b.floats).all fun (x, y) => sameNumber x y

end Module

end HashLink
