import HashLink.Code.Op
import HashLink.Graph.Error

/-!
# Resolved programs

A graph is a module without pools: names are strings, operands stand for themselves, and natives and
methods are one list in the order of their indices, so that the number of a function is its place.
Types, functions and globals refer to each other by number. Nothing keeps an edit from using a number
that is not there; that shows when the graph is flattened.
-/

namespace HashLink

/-- A descriptor with strings for names. -/
abbrev GraphType := TypeDef String (Option Nat) (Option Nat)

/-- The code of a method, and the name that a type gives it. -/
structure Routine where
  name : Option String
  parent : Option Nat
  registers : List Nat
  ops : List Op
  deriving DecidableEq, Repr

/-- What a function does. -/
inductive FunctionBody where
  | native (lib name : String)
  | method (routine : Routine)
  deriving DecidableEq, Repr

/-- A function: its type and what it does. -/
structure Function where
  type : Nat
  body : FunctionBody
  deriving DecidableEq, Repr

/-- The string that a global starts with. -/
structure StringConstant where
  global : Nat
  value : String
  deriving DecidableEq, Repr

/-- A resolved program. -/
structure Graph where
  version : UInt8
  types : List GraphType
  functions : List Function
  globals : List Nat
  constants : List StringConstant
  entrypoint : Nat
  deriving DecidableEq, Repr

/-- The code of a function that has some. -/
def Function.routine? (f : Function) : Option Routine :=
  match f.body with
  | .method routine => some routine
  | .native _ _ => none

/-- Changes the code of a function that has some. -/
def Function.mapRoutine (g : Routine → Routine) (f : Function) : Function :=
  match f.body with
  | .method routine => { f with body := .method (g routine) }
  | .native _ _ => f

namespace Routine

/-- The place of the first op with an opcode. -/
def position? (r : Routine) (opcode : Opcode) : Option Nat :=
  r.ops.findIdx? fun op => op.opcode == opcode

/-- Replaces an op. -/
def setOp? (r : Routine) (index : Nat) (op : Op) : Option Routine :=
  if index < r.ops.length then some { r with ops := r.ops.set index op } else none

/-- Inserts an op in front of another one or at the end. -/
def insertOp? (r : Routine) (index : Nat) (op : Op) : Option Routine :=
  if index ≤ r.ops.length then some { r with ops := r.ops.insertIdx index op } else none

/-- Removes an op. -/
def removeOp? (r : Routine) (index : Nat) : Option Routine :=
  if index < r.ops.length then some { r with ops := r.ops.eraseIdx index } else none

end Routine

/-! ## Inheritance -/

/-- The layouts of a type and of the types above it, in this order. A chain that is longer than the
list of types runs in a circle; `rounds` bounds its length, and `start` is where it began. -/
def superclassChain (types : List GraphType) (start : Nat) :
    (rounds : Nat) → Nat → Except Fault (List (ObjectDef String (Option Nat) (Option Nat)))
  | 0, _ => .error (.superclassCycle start)
  | rounds + 1, id =>
    match types[id]? with
    | none => .error (.missing .type (asSigned64 id))
    | some type =>
      match type.object? with
      | none => .error (.unexpectedKind id type.kind)
      | some layout =>
        match layout.super with
        | none => .ok [layout]
        | some above => return layout :: (← superclassChain types start rounds above)

/-- All fields of an object, the inherited ones first. -/
def allFields (types : List GraphType) (id : Nat) : Except Fault (List (Field String)) := do
  let chain ← superclassChain types id (types.length + 1) id
  return chain.reverse.flatMap (·.fields)

namespace Graph

/-! ## Lookups -/

/-- The code of a method. -/
def routine? (g : Graph) (id : Nat) : Option Routine :=
  g.functions[id]?.bind (·.routine?)

/-- The name of a method, after that of the type that names it. -/
def routineName (g : Graph) (id : Nat) (r : Routine) : String :=
  match r.name with
  | none => s!"anonymous@{id}"
  | some name =>
    match (r.parent.bind (g.types[·]?)).bind (·.name?) with
    | some parent => parent ++ "." ++ name
    | none => name

/-- The full name of a function. -/
def fullName? (g : Graph) (id : Nat) : Option String :=
  g.functions[id]?.map fun f =>
    match f.body with
    | .native lib name => lib ++ "." ++ name
    | .method routine => g.routineName id routine

/-- The numbers of all methods. -/
def methodIds (g : Graph) : List Nat :=
  (List.range g.functions.length).filter fun id => (g.routine? id).isSome

/-- The first method with a full name. -/
def findMethod? (g : Graph) (name : String) : Option Nat :=
  g.methodIds.find? fun id => g.fullName? id == some name

/-- The first type with a name. -/
def findType? (g : Graph) (name : String) : Option Nat :=
  g.types.findIdx? fun t => t.name? == some name

/-- All fields of an object, the inherited ones first. -/
def allFields (g : Graph) (id : Nat) : Except GraphError (List (Field String)) :=
  unlocated (HashLink.allFields g.types id)

/-! ## Edits -/

/-- Adds a type, whose number is the number of types before. -/
def addType (g : Graph) (t : GraphType) : Graph := { g with types := g.types ++ [t] }

/-- Adds a function. -/
def addFunction (g : Graph) (f : Function) : Graph := { g with functions := g.functions ++ [f] }

/-- Adds a global. -/
def addGlobal (g : Graph) (type : Nat) : Graph := { g with globals := g.globals ++ [type] }

/-- Adds a constant. -/
def addConstant (g : Graph) (global : Nat) (value : String) : Graph :=
  { g with constants := g.constants ++ [⟨global, value⟩] }

/-- Changes the value of the first constant of a global, if there is one. -/
def setConstant? (g : Graph) (global : Nat) (value : String) : Option Graph :=
  (g.constants.findIdx? (·.global == global)).map fun i =>
    { g with constants := g.constants.modify i fun c => { c with value } }

/-- Replaces a type, if there is one with the number. -/
def setType? (g : Graph) (id : Nat) (t : GraphType) : Option Graph :=
  if id < g.types.length then some { g with types := g.types.set id t } else none

/-- Changes the superclass of an object. -/
def setSuper? (g : Graph) (id : Nat) (super : Option Nat) : Option Graph :=
  match g.types[id]? with
  | some (.object kind layout) =>
    some { g with types := g.types.set id (.object kind { layout with super }) }
  | _ => none

/-- Changes the type of a function. -/
def setFunctionType? (g : Graph) (id type : Nat) : Option Graph :=
  if id < g.functions.length then
    some { g with functions := g.functions.modify id fun f => { f with type } }
  else none

/-- Changes the code of a method. -/
def updateRoutine (g : Graph) (id : Nat) (f : Routine → Routine) : Graph :=
  { g with functions := g.functions.modify id (·.mapRoutine f) }

/-- Replaces the code of a method. -/
def setRoutine (g : Graph) (id : Nat) (r : Routine) : Graph := g.updateRoutine id fun _ => r

end Graph

end HashLink
