import HashLink.Graph.Basic
import HashLink.Module.Basic
import HashLink.Strategy

/-!
# From a module to a graph

Resolving replaces every index by what it stands for, and fails at the first one that stands for
nothing. Functions are put in the order of their indices first; then types, globals, the headers of
functions, constants and the entry point are resolved, methods get the names that dispatch tables and
bound fields give them, and last come the instructions.
-/

namespace HashLink

/-! ## The index space of functions -/

/-- A function record of a module. -/
inductive FunctionRecord where
  | native (record : Native)
  | method (record : Method)
  deriving DecidableEq, Repr

/-- The index of a function record. -/
def FunctionRecord.index : FunctionRecord → Nat
  | .native record => record.index
  | .method record => record.index

/-- Puts records into the slots that their indices name. -/
def placeRecords (slots : List (Option FunctionRecord)) :
    List FunctionRecord → Except Fault (List (Option FunctionRecord))
  | [] => .ok slots
  | r :: rs =>
    match slots[r.index]? with
    | none => .error (.functionIndexGap r.index slots.length)
    | some (some _) => .error (.duplicateFunction r.index)
    | some none => placeRecords (slots.set r.index (some r)) rs

namespace Module

/-- All function records, natives first. -/
def functionRecords (m : Module) : List FunctionRecord :=
  m.natives.map .native ++ m.methods.map .method

/-- The function records in the order of their indices. There are as many slots as records, so
when every record finds a slot of its own, no slot stays empty. -/
def functionTable (m : Module) : Except Fault (List FunctionRecord) := do
  let slots ← placeRecords (List.replicate m.functionCount none) m.functionRecords
  return slots.filterMap id

/-! ## References -/

/-- A number below the size of a pool. -/
def checked (pool : Pool) (size index : Nat) : Except Fault Nat :=
  if index < size then .ok index else .error (.missing pool (asSigned64 index))

/-- A type that exists. -/
def typeRef (m : Module) (index : Nat) : Except Fault Nat := checked .type m.types.length index

/-- A function that exists. -/
def functionRef (m : Module) (index : Nat) : Except Fault Nat :=
  checked .function m.functionCount index

/-- A global that exists. -/
def globalRef (m : Module) (index : Nat) : Except Fault Nat :=
  checked .global m.globals.length index

/-- The string of an index. -/
def stringRef (m : Module) (index : Nat) : Except Fault String :=
  match m.strings[index]? with
  | some s => .ok s
  | none => .error (.missing .string (asSigned64 index))

/-- The global of a slot that counts from 1. -/
def slotRef (m : Module) (slot : Nat) : Except Fault (Option Nat) :=
  match globalSlot? slot with
  | some global => return some (← m.globalRef global)
  | none => .ok none

/-- The type of a superclass number. -/
def superRef (m : Module) (super : Int32) : Except Fault (Option Nat) :=
  match superclass? super with
  | some type => return some (← m.typeRef type)
  | none => .ok none

/-! ## Types and headers -/

/-- Resolves a field. -/
def resolveField (m : Module) (f : Field Nat) : Except Fault (Field String) := do
  let name ← m.stringRef f.name
  let type ← m.typeRef f.type
  return ⟨name, type⟩

/-- Resolves a dispatch entry. -/
def resolveProto (m : Module) (p : Proto Nat) : Except Fault (Proto String) := do
  let name ← m.stringRef p.name
  let function ← m.functionRef p.function
  return ⟨name, function, p.slot⟩

/-- Resolves a binding. Its field is looked up later, when all types are known. -/
def resolveBinding (m : Module) (b : Binding) : Except Fault Binding := do
  let function ← m.functionRef b.function
  return ⟨b.field, function⟩

/-- Resolves an object: its functions first, then the rest in order. -/
def resolveObject (m : Module) (o : ObjectDef Nat Int32 Nat) :
    Except Fault (ObjectDef String (Option Nat) (Option Nat)) := do
  let protos ← o.protos.mapM m.resolveProto
  let bindings ← o.bindings.mapM m.resolveBinding
  let name ← m.stringRef o.name
  let super ← m.superRef o.super
  let global ← m.slotRef o.global
  let fields ← o.fields.mapM m.resolveField
  return { name, super, global, fields, protos, bindings }

/-- Resolves a constructor of an enum. -/
def resolveConstruct (m : Module) (c : Construct Nat) : Except Fault (Construct String) := do
  let name ← m.stringRef c.name
  let params ← c.params.mapM m.typeRef
  return ⟨name, params⟩

/-- Resolves a type. -/
def resolveType (m : Module) : RawType → Except Fault GraphType
  | .atom kind => .ok (.atom kind)
  | .callable kind signature => do
    let args ← signature.args.mapM m.typeRef
    let result ← m.typeRef signature.result
    return .callable kind ⟨args, result⟩
  | .object kind layout => return .object kind (← m.resolveObject layout)
  | .wrapper kind inner => return .wrapper kind (← m.typeRef inner)
  | .virtual fields => return .virtual (← fields.mapM m.resolveField)
  | .abstract name => return .abstract (← m.stringRef name)
  | .enum layout => do
    let name ← m.stringRef layout.name
    let global ← m.slotRef layout.global
    let constructs ← layout.constructs.mapM m.resolveConstruct
    return .enum { name, global, constructs }

/-- Resolves everything of a function but its code. -/
def resolveHeader (m : Module) : FunctionRecord → Except Fault Function
  | .native n => do
    let type ← m.typeRef n.type
    let lib ← m.stringRef n.lib
    let name ← m.stringRef n.name
    return ⟨type, .native lib name⟩
  | .method f => do
    let type ← m.typeRef f.type
    let registers ← f.registers.mapM m.typeRef
    return ⟨type, .method { name := none, parent := none, registers, ops := [] }⟩

/-- Resolves a constant. -/
def resolveConstant (m : Module) (c : Constant) : Except Fault StringConstant :=
  match c.fields with
  | [] => .error (.invalidConstant c.global)
  | payload :: _ => do
    let global ← m.globalRef c.global
    let value ← m.stringRef payload
    return ⟨global, value⟩

/-! ## Instructions -/

/-- The byte block of an index. Without a pool of byte blocks, the strings take its place. -/
def bytesAt? (m : Module) (index : Nat) : Option (List UInt8) :=
  if hasBytesPool m.version then m.bytes[index]? else m.strings[index]?.map utf8

/-- Looks up an operand in a pool. -/
def lookup {α : Type} (pool : Pool) (get : Nat → Option α) (raw : Int32) : Except Fault α :=
  match if raw < 0 then none else get raw.toInt.toNat with
  | some a => .ok a
  | none => .error (.missing pool raw.toInt)

/-- A number below a bound, as something to look up. -/
def below? (size index : Nat) : Option Nat := if index < size then some index else none

/-- Resolves the operand at a position. -/
def resolveOperand (m : Module) (opcode : Opcode) (position : Nat) (kind : OperandKind)
    (raw : Int32) : Except Fault Operand :=
  match kind with
  | .register =>
    if raw < 0 then .error (.invalidOperand opcode position raw)
    else .ok (.register raw.toUInt32)
  | .int => (lookup .int (m.ints[·]?) raw).map .int
  | .float => (lookup .float (m.floats[·]?) raw).map .float
  | .bytes => (lookup .bytes m.bytesAt? raw).map .bytes
  | .string => (lookup .string (m.strings[·]?) raw).map .string
  | .function => (lookup .function (below? m.functionCount) raw).map .function
  | .global => (lookup .global (below? m.globals.length) raw).map .global
  | .type => (lookup .type (below? m.types.length) raw).map .type
  | .field => .ok (.field raw)
  | .offset => .ok (.offset raw)
  | .construct => .ok (.construct raw)
  | .inline => .ok (.inline raw)
  | .flag => .ok (.flag (raw != 0))

/-- Resolves operands of the given kinds from a position on, one for each kind. -/
def resolveOperands (m : Module) (opcode : Opcode) :
    (position : Nat) → List OperandKind → List Int32 → Except Fault (List Operand)
  | _, [], _ => .ok []
  | position, _ :: _, [] => .error (.missingOperand opcode position)
  | position, kind :: kinds, raw :: raws => do
    let operand ← m.resolveOperand opcode position kind raw
    let operands ← resolveOperands m opcode (position + 1) kinds raws
    return operand :: operands

theorem kind_of_resolveOperand {m : Module} {opcode : Opcode} {position : Nat}
    {kind : OperandKind} {raw : Int32} {operand : Operand}
    (h : m.resolveOperand opcode position kind raw = .ok operand) : operand.kind = kind := by
  have ofMap {α : Type} {r : Except Fault α} {f : α → Operand} (hk : ∀ a, (f a).kind = kind)
      (e : r.map f = .ok operand) : operand.kind = kind := by
    cases r with
    | error => simp [Except.map] at e
    | ok a =>
      simp only [Except.map, Except.ok.injEq] at e
      exact e ▸ hk a
  cases kind with
  | register =>
    simp only [resolveOperand] at h
    split at h
    · simp at h
    · simp only [Except.ok.injEq] at h
      exact h ▸ rfl
  | int | float | bytes | string | function | global | type => exact ofMap (fun _ => rfl) h
  | field | offset | construct | inline | flag =>
    simp only [resolveOperand, Except.ok.injEq] at h
    exact h ▸ rfl

theorem kinds_of_resolveOperands {m : Module} {opcode : Opcode} {position : Nat}
    {kinds : List OperandKind} {raws : List Int32} {operands : List Operand}
    (h : m.resolveOperands opcode position kinds raws = .ok operands) :
    operands.map (·.kind) = kinds := by
  induction kinds generalizing position raws operands with
  | nil => simp_all [resolveOperands]
  | cons kind kinds ih =>
    cases raws with
    | nil => simp [resolveOperands] at h
    | cons raw raws =>
      simp only [resolveOperands, bind, Except.bind, pure, Except.pure] at h
      split at h
      · simp at h
      · next operand hOperand =>
        split at h
        · simp at h
        · next rest hRest =>
          simp only [Except.ok.injEq] at h
          subst h
          simp [kind_of_resolveOperand hOperand, ih hRest]

/-- Resolves an instruction. -/
def resolveInstruction (m : Module) (i : Instruction) : Except Fault Op :=
  let kinds := i.opcode.opShape.kindsFor i.args.length
  match h : m.resolveOperands i.opcode 0 kinds i.args with
  | .error fault => .error fault
  | .ok operands =>
    if trailing : kinds.length = i.args.length then
      .ok ⟨i.opcode.forCount operands.length, operands, by
        have hk : operands.map (·.kind) = kinds := kinds_of_resolveOperands h
        have hl : (operands.map (·.kind)).length = i.args.length := by rw [hk, trailing]
        have fits := @Opcode.fits_forCount i.opcode (operands.map (·.kind)) (by rw [hl, hk])
        simpa using fits⟩
    else .error (.trailingOperands i.opcode kinds.length i.args.length)

/-- Resolves the code of a function record; a native has none. -/
def resolveCode (m : Module) (id : Nat) : FunctionRecord → Except GraphError (List Op)
  | .native _ => .ok []
  | .method f => f.instructions.zipIdx.mapM fun (i, position) =>
      located (.instruction id position) (m.resolveInstruction i)

end Module

/-! ## Names of methods -/

/-- A name for a function: by which type, and which name. -/
structure Naming where
  function : Nat
  name : String
  owner : Nat
  deriving DecidableEq, Repr

/-- The names in dispatch tables, in order. -/
def protoNamings (types : List GraphType) : List Naming :=
  types.zipIdx.flatMap fun (t, owner) =>
    match t.object? with
    | some layout => layout.protos.map fun p => ⟨p.function, p.name, owner⟩
    | none => []

/-- The name that a binding gives, out of the fields of its owner. -/
def bindingNaming (owner : Nat) (fields : List (Field String)) (b : Binding) :
    Except Fault Naming :=
  match fields[b.field]? with
  | some field => .ok ⟨b.function, field.name, owner⟩
  | none => .error (.missing .field (asSigned64 b.field))

/-- The names that the bindings of one type give. -/
def typeBindingNamings (types : List GraphType) (owner : Nat) (t : GraphType) :
    Except Fault (List Naming) :=
  match t.object? with
  | some layout =>
    if layout.bindings.isEmpty then .ok []
    else do
      let fields ← allFields types owner
      layout.bindings.mapM (bindingNaming owner fields)
  | none => .ok []

/-- The names of bound fields, in order. -/
def bindingNamings (types : List GraphType) : Except GraphError (List Naming) := do
  let namings ← types.zipIdx.mapM fun (t, owner) =>
    located (.type owner) (typeBindingNamings types owner t)
  return namings.flatten

/-- Gives a function the name of a dispatch entry, whatever name it has. -/
def nameByProto (functions : List Function) (n : Naming) : List Function :=
  functions.modify n.function
    (·.mapRoutine fun r => { r with name := some n.name, parent := some n.owner })

/-- Gives a function the name of a bound field, which must be its only name. -/
def nameByBinding (functions : List Function) (n : Naming) : Except GraphError (List Function) :=
  match functions[n.function]?.bind (·.routine?) with
  | some ⟨some _, _, _, _⟩ => .error ⟨none, .multipleBindings n.function⟩
  | _ => .ok (nameByProto functions n)

/-- Names all methods: by dispatch tables first, where the last entry counts, and then by bound
fields. -/
def nameMethods (types : List GraphType) (functions : List Function) :
    Except GraphError (List Function) := do
  let bindings ← bindingNamings types
  bindings.foldlM nameByBinding ((protoNamings types).foldl nameByProto functions)

/-! ## The whole program -/

/-- Gives a function its code. -/
def Function.withOps (f : Function) (ops : List Op) : Function :=
  f.mapRoutine fun r => { r with ops }

/-- Resolves a module. -/
def Module.resolve (s : Strategy) (m : Module) : Except GraphError Graph := do
  let table ← unlocated m.functionTable
  let types ← s.traverse (fun i t => located (.type i) (m.resolveType t)) m.types
  let globals ← m.globals.zipIdx.mapM fun (type, i) => located (.global i) (m.typeRef type)
  let headers ← s.traverse (fun i f => located (.function i) (m.resolveHeader f)) table
  let constants ← m.constants.zipIdx.mapM fun (c, i) =>
    located (.constant i) (m.resolveConstant c)
  let entrypoint ← located .entrypoint (m.functionRef m.entrypoint)
  let named ← nameMethods types headers
  let code ← s.traverse m.resolveCode table
  return { version := m.version, types, functions := named.zipWith Function.withOps code, globals,
           constants, entrypoint }

end HashLink
