import HashLink.Location
import HashLink.Module.Basic

/-!
# Faults of a module

A module can be read and still refer to things that it does not have. `Module.faults` lists every
such reference, in the order in which the module holds them, and a module is verified when the list is
empty. Indices of functions come first: they have to be different and to fill the index space.
-/

namespace HashLink

/-- A reference that leads nowhere, or function indices that do not form an index space. -/
inductive VerifyError where
  /-- An index outside its pool. -/
  | indexOutOfRange (location : Location) (pool : Pool) (index : Int) (size : Nat)
  /-- A register that the method does not have. -/
  | invalidRegister (location : Location) (register : Int32) (count : Nat)
  /-- A branch that leaves the method. -/
  | invalidJumpTarget (location : Location) (target : Int) (count : Nat)
  /-- Two functions with one index. -/
  | duplicateFunction (index : Nat)
  /-- A function index outside the index space. -/
  | functionIndexGap (index count : Nat)
  deriving DecidableEq, Repr

/-- The text of a fault. -/
def VerifyError.message : VerifyError → String
  | .indexOutOfRange location pool index size =>
    s!"{location.text}: {pool.name} index {index} out of range (pool size {size})"
  | .invalidRegister location register count =>
    s!"{location.text}: register {register.toInt} out of range ({count} registers)"
  | .invalidJumpTarget location target count =>
    s!"{location.text}: jump target {target} out of range ({count} instructions)"
  | .duplicateFunction index => s!"Duplicate function index {index}"
  | .functionIndexGap index count =>
    s!"Function index {index} outside the index space of {count} functions"

namespace Module

/-- The size of a pool that instructions and records can refer to. -/
def poolSize (m : Module) : Pool → Nat
  | .int => m.ints.length
  | .float => m.floats.length
  | .string => m.strings.length
  | .bytes => if hasBytesPool m.version then m.bytes.length else m.strings.length
  | .function => m.functionCount
  | .global => m.globals.length
  | .type => m.types.length
  | .debugFile => m.debugFiles.length
  | .field | .register => 0

/-- The fault of an index that a record holds, if it is one. -/
def indexFault (m : Module) (place : Location) (pool : Pool) (index : Nat) : List VerifyError :=
  if index < m.poolSize pool then []
  else [.indexOutOfRange place pool (asSigned64 index) (m.poolSize pool)]

/-- The fault of an index that an instruction or a position holds, if it is one. -/
def operandFault (m : Module) (place : Location) (pool : Pool) (index : Int32) : List VerifyError :=
  if 0 ≤ index ∧ index.toInt.toNat < m.poolSize pool then []
  else [.indexOutOfRange place pool index.toInt (m.poolSize pool)]

/-- Function indices outside the index space, and those that came before. -/
def functionIndexFaults (m : Module) : List VerifyError :=
  m.functionIndices.zipIdx.flatMap fun (index, i) =>
    if m.functionCount ≤ index then [.functionIndexGap index m.functionCount]
    else if index ∈ m.functionIndices.take i then [.duplicateFunction index]
    else []

/-- The faults of a global slot that counts from 1. -/
def slotFault (m : Module) (place : Location) (slot : Nat) : List VerifyError :=
  match globalSlot? slot with
  | some global => m.indexFault place .global global
  | none => []

/-- The faults of a list of fields. -/
def fieldFaults (m : Module) (place : Location) (fields : List (Field Nat)) : List VerifyError :=
  fields.flatMap fun f => m.indexFault place .string f.name ++ m.indexFault place .type f.type

/-- The faults of an object. -/
def objectFaults (m : Module) (place : Location) (o : ObjectDef Nat Int32 Nat) : List VerifyError :=
  m.indexFault place .string o.name ++
    (superclass? o.super).toList.flatMap (m.indexFault place .type) ++
    m.slotFault place o.global ++
    m.fieldFaults place o.fields ++
    o.protos.flatMap (fun p =>
      m.indexFault place .string p.name ++ m.indexFault place .function p.function) ++
    o.bindings.flatMap fun b => m.indexFault place .function b.function

/-- The faults of a type. -/
def typeFaults (m : Module) (place : Location) : RawType → List VerifyError
  | .atom _ => []
  | .callable _ signature =>
    signature.args.flatMap (m.indexFault place .type) ++ m.indexFault place .type signature.result
  | .object _ layout => m.objectFaults place layout
  | .wrapper _ inner => m.indexFault place .type inner
  | .virtual fields => m.fieldFaults place fields
  | .abstract name => m.indexFault place .string name
  | .enum layout =>
    m.indexFault place .string layout.name ++ m.slotFault place layout.global ++
      layout.constructs.flatMap fun c =>
        m.indexFault place .string c.name ++ c.params.flatMap (m.indexFault place .type)

/-- The faults of a native. -/
def nativeFaults (m : Module) (place : Location) (n : Native) : List VerifyError :=
  m.indexFault place .string n.lib ++ m.indexFault place .string n.name ++
    m.indexFault place .type n.type

/-- The fault of a register, in a method with `count` of them. -/
def registerFault (place : Location) (count : Nat) (register : Int32) : List VerifyError :=
  if 0 ≤ register ∧ register.toInt.toNat < count then []
  else [.invalidRegister place register count]

/-- The fault of a branch from `position`, in a method of `count` instructions. A branch is taken
from the instruction after the one that holds it. -/
def jumpFault (place : Location) (count position : Nat) (offset : Int32) : List VerifyError :=
  let target : Int := position + 1 + offset.toInt
  if 0 ≤ target ∧ target < count then [] else [.invalidJumpTarget place target count]

/-- The fault of one argument of the instruction at `position`. -/
def argFault (m : Module) (method : Method) (position : Nat) (kind : OperandKind) (arg : Int32) :
    List VerifyError :=
  let place := Location.instruction method.index position
  match kind with
  | .register => registerFault place method.registers.length arg
  | .int => m.operandFault place .int arg
  | .float => m.operandFault place .float arg
  | .bytes => m.operandFault place .bytes arg
  | .string => m.operandFault place .string arg
  | .function => m.operandFault place .function arg
  | .global => m.operandFault place .global arg
  | .type => m.operandFault place .type arg
  | .offset => jumpFault place method.instructions.length position arg
  | .field | .construct | .inline | .flag => []

/-- The faults of the instruction at `position`. -/
def instructionFaults (m : Module) (method : Method) (i : Instruction) (position : Nat) :
    List VerifyError :=
  i.args.zipIdx.flatMap fun (arg, slot) =>
    m.argFault method position (i.opcode.shape.kindAt slot) arg

/-- The faults of a method: of its header, of its code and of its positions. -/
def methodFaults (m : Module) (method : Method) : List VerifyError :=
  let place := Location.function method.index
  m.indexFault place .type method.type ++
    method.registers.flatMap (m.indexFault place .type) ++
    (method.instructions.zipIdx.flatMap fun (i, position) =>
      m.instructionFaults method i position) ++
    (method.debug.getD []).flatMap fun p => m.operandFault place .debugFile p.file

/-- The faults of a constant. Only its first field is a reference. -/
def constantFaults (m : Module) (place : Location) (c : Constant) : List VerifyError :=
  m.indexFault place .global c.global ++ c.fields.head?.toList.flatMap (m.indexFault place .string)

/-- Every fault of a module, in the order of the records. -/
def faults (m : Module) : List VerifyError :=
  m.functionIndexFaults ++
    m.indexFault .header .function m.entrypoint ++
    (m.types.zipIdx.flatMap fun (t, i) => m.typeFaults (.type i) t) ++
    (m.globals.zipIdx.flatMap fun (type, i) => m.indexFault (.global i) .type type) ++
    (m.natives.zipIdx.flatMap fun (n, i) => m.nativeFaults (.native i) n) ++
    m.methods.flatMap m.methodFaults ++
    m.constants.zipIdx.flatMap fun (c, i) => m.constantFaults (.constant i) c

/-- Accepts a module without faults, and otherwise gives its first one. -/
def verify (m : Module) : Except VerifyError Unit :=
  match m.faults with
  | [] => .ok ()
  | e :: _ => .error e

theorem verify_eq_ok_iff (m : Module) : m.verify = .ok () ↔ m.faults = [] := by
  unfold verify
  split <;> simp_all

end Module

end HashLink
