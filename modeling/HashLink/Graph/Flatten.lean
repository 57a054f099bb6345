import HashLink.Graph.ValuePools
import HashLink.Strategy

/-!
# From a graph to a module

Flattening puts the values of a graph into fresh pools and replaces them by their indices. Types,
functions and globals keep their numbers, so a reference is flattened by checking that it is there.
A graph knows nothing of source positions: the module gets a single nameless file, and every
instruction is in its first line.
-/

namespace HashLink

/-- The name of the only debug file of a flattened program. -/
def placeholderFile : String := "nul"

/-- What a graph has: how many types, functions and globals, and which names. References are
flattened against it. -/
structure Inventory where
  version : UInt8
  types : Nat
  functions : Nat
  globals : Nat
  names : List String

/-- What a graph has. -/
def Graph.inventory (g : Graph) : Inventory where
  version := g.version
  types := g.types.length
  functions := g.functions.length
  globals := g.globals.length
  names := g.namePool

namespace Inventory

/-! ## References -/

/-- A type that exists. -/
def typeRef (g : Inventory) (id : Nat) : Except Fault Nat :=
  if id < g.types then .ok id else .error (.dangling .type (.type id))

/-- A function that exists. -/
def functionRef (g : Inventory) (id : Nat) : Except Fault Nat :=
  if id < g.functions then .ok id else .error (.dangling .function (.function id))

/-- A global that exists. -/
def globalRef (g : Inventory) (id : Nat) : Except Fault Nat :=
  if id < g.globals then .ok id else .error (.dangling .global (.global id))

/-- The slot of a global, counting from 1; no global is slot 0. -/
def slotRef (g : Inventory) : Option Nat → Except Fault Nat
  | some global => return (← g.globalRef global) + 1
  | none => .ok 0

/-- The number of a superclass; none is -1. -/
def superRef (g : Inventory) : Option Nat → Except Fault Int32
  | some type => do
    let index ← g.typeRef type
    if index < int32Limit then return Int32.ofNat index
    throw (.dangling .type (.type type))
  | none => .ok (-1)

/-- The index of a string that is mentioned outside the code. -/
def nameRef (g : Inventory) (name : String) : Nat := g.names.idxOf name

/-! ## Types and headers -/

/-- Flattens a field. -/
def flattenField (g : Inventory) (f : Field String) : Except Fault (Field Nat) := do
  let type ← g.typeRef f.type
  return ⟨g.nameRef f.name, type⟩

/-- Flattens a dispatch entry. -/
def flattenProto (g : Inventory) (p : Proto String) : Except Fault (Proto Nat) := do
  let function ← g.functionRef p.function
  return ⟨g.nameRef p.name, function, p.slot⟩

/-- Flattens a binding. -/
def flattenBinding (g : Inventory) (b : Binding) : Except Fault Binding := do
  let function ← g.functionRef b.function
  return ⟨b.field, function⟩

/-- Flattens an object. -/
def flattenObject (g : Inventory) (o : ObjectDef String (Option Nat) (Option Nat)) :
    Except Fault (ObjectDef Nat Int32 Nat) := do
  let super ← g.superRef o.super
  let global ← g.slotRef o.global
  let fields ← o.fields.mapM g.flattenField
  let protos ← o.protos.mapM g.flattenProto
  let bindings ← o.bindings.mapM g.flattenBinding
  return { name := g.nameRef o.name, super, global, fields, protos, bindings }

/-- Flattens a constructor of an enum. -/
def flattenConstruct (g : Inventory) (c : Construct String) : Except Fault (Construct Nat) := do
  let params ← c.params.mapM g.typeRef
  return ⟨g.nameRef c.name, params⟩

/-- Flattens a type. -/
def flattenType (g : Inventory) : GraphType → Except Fault RawType
  | .atom kind => .ok (.atom kind)
  | .callable kind signature => do
    let args ← signature.args.mapM g.typeRef
    let result ← g.typeRef signature.result
    return .callable kind ⟨args, result⟩
  | .object kind layout => return .object kind (← g.flattenObject layout)
  | .wrapper kind inner => return .wrapper kind (← g.typeRef inner)
  | .virtual fields => return .virtual (← fields.mapM g.flattenField)
  | .abstract name => .ok (.abstract (g.nameRef name))
  | .enum layout => do
    let global ← g.slotRef layout.global
    let constructs ← layout.constructs.mapM g.flattenConstruct
    return .enum { name := g.nameRef layout.name, global, constructs }

/-- Flattens a native; a method is none. -/
def flattenNative (g : Inventory) (index : Nat) (f : Function) : Except Fault (Option Native) :=
  match f.body with
  | .native lib name => do
    let type ← g.typeRef f.type
    return some { lib := g.nameRef lib, name := g.nameRef name, type, index }
  | .method _ => .ok none

/-- Flattens a constant. -/
def flattenConstant (g : Inventory) (c : StringConstant) : Except Fault Constant := do
  let global ← g.globalRef c.global
  return ⟨global, [g.nameRef c.value, (utf8 c.value).length]⟩

/-! ## Code -/

/-- An index as an operand, for something that has one. -/
def operandIndex (pool : Pool) (operand : Operand) (index : Option Nat) : Except Fault Int32 :=
  match index.filter (· < int32Limit) with
  | some index => .ok (Int32.ofNat index)
  | none => .error (.dangling pool operand)

/-- The index of a byte block. -/
def bytesIndex? (g : Inventory) (pools : ValuePools) (value : List UInt8) : Option Nat :=
  if hasBytesPool g.version then pools.bytes.idxOf? value
  else (ofUtf8? value).bind pools.strings.idxOf?

/-- Adds the values of all functions to the names. -/
def valuePools (g : Inventory) (values : List (List PoolValue)) : Except GraphError ValuePools :=
  values.zipIdx.foldlM
    (fun pools (values, i) => located (.function i) (pools.addAll g.version values))
    { strings := g.names }

/-- Flattens an operand. -/
def flattenOperand (g : Inventory) (pools : ValuePools) (operand : Operand) : Except Fault Int32 :=
  match operand with
  | .register number => operandIndex .register operand (some number.toNat)
  | .int value => operandIndex .int operand (pools.ints.idxOf? value)
  | .float bits => operandIndex .float operand (pools.floats.idxOf? bits)
  | .bytes value => operandIndex .bytes operand (g.bytesIndex? pools value)
  | .string value => operandIndex .string operand (pools.strings.idxOf? value)
  | .function id =>
    operandIndex .function operand (if id < g.functions then some id else none)
  | .global id => operandIndex .global operand (if id < g.globals then some id else none)
  | .type id => operandIndex .type operand (if id < g.types then some id else none)
  | .field value | .offset value | .construct value | .inline value => .ok value
  | .flag value => .ok (if value then 1 else 0)

/-- Flattens an op. -/
def flattenOp (g : Inventory) (pools : ValuePools) (op : Op) : Except Fault Instruction := do
  let args ← op.operands.mapM (g.flattenOperand pools)
  return ⟨op.opcode, args⟩

/-- Flattens a method; a native is none. -/
def flattenMethod (g : Inventory) (pools : ValuePools) (index : Nat) (f : Function) :
    Except GraphError (Option Method) :=
  match f.body with
  | .native _ _ => .ok none
  | .method r => do
    let instructions ← r.ops.zipIdx.mapM fun (op, position) =>
      located (.instruction index position) (g.flattenOp pools op)
    let type ← located (.function index) (g.typeRef f.type)
    let registers ← located (.function index) (r.registers.mapM g.typeRef)
    return some { type, index, registers, instructions,
                  debug := some (List.replicate instructions.length ⟨0, 0⟩), assigns := some [] }

end Inventory

/-! ## The whole program -/

/-- Flattens a graph. -/
def Graph.flatten (s : Strategy) (g : Graph) : Except GraphError Module := do
  let has := g.inventory
  let types ← g.types.zipIdx.mapM fun (t, i) => located (.type i) (has.flattenType t)
  let globals ← g.globals.zipIdx.mapM fun (type, i) => located (.global i) (has.typeRef type)
  let natives ← g.functions.zipIdx.mapM fun (f, i) =>
    located (.function i) (has.flattenNative i f)
  let constants ← g.constants.zipIdx.mapM fun (c, i) =>
    located (.constant i) (has.flattenConstant c)
  let values ← s.traverse (fun _ f => .ok f.poolValues) g.functions
  let pools ← has.valuePools values
  let methods ← s.traverse (has.flattenMethod pools) g.functions
  let entrypoint ← located .entrypoint (has.functionRef g.entrypoint)
  return { version := g.version, hasDebug := true, ints := pools.ints, floats := pools.floats,
           strings := pools.strings, bytes := pools.bytes, debugFiles := [placeholderFile], types,
           globals, natives := natives.filterMap id, methods := methods.filterMap id, constants,
           entrypoint }

end HashLink
