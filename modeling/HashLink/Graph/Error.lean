import HashLink.Code.OpText
import HashLink.Location
import HashLink.TypeDef.Basic

/-!
# Why a program could not be resolved or flattened

A fault says what is wrong; an error adds where, when the fault belongs to one entry of the
program.
-/

namespace HashLink

/-- What is wrong with a reference or a record. -/
inductive Fault where
  /-- An index with nothing behind it. -/
  | missing (pool : Pool) (index : Int)
  /-- An instruction with too few operands. -/
  | missingOperand (opcode : Opcode) (position : Nat)
  /-- A register below zero. -/
  | invalidOperand (opcode : Opcode) (position : Nat) (value : Int32)
  /-- An instruction with too many operands. -/
  | trailingOperands (opcode : Opcode) (expected actual : Nat)
  /-- A reference to something that the program does not have. -/
  | dangling (pool : Pool) (reference : Operand)
  /-- A type that is no object where one is needed. -/
  | unexpectedKind (type : Nat) (actual : TypeKind)
  /-- A function index outside the index space. -/
  | functionIndexGap (index count : Nat)
  /-- Two functions with one index. -/
  | duplicateFunction (index : Nat)
  /-- A method that is the value of a field, and also of another one or in a dispatch table. -/
  | multipleBindings (function : Nat)
  /-- A constant without fields. -/
  | invalidConstant (global : Nat)
  /-- Bytes that would have to be a string and are none. -/
  | bytesNotUtf8 (version : UInt8)
  /-- A type that is above itself. -/
  | superclassCycle (type : Nat)
  deriving DecidableEq, Repr

/-- The text of a reference that leads nowhere. -/
def referenceText : Operand → String
  | .register number => s!"r{number.toNat}"
  | operand => operand.text

/-- The text of a fault. -/
def Fault.message : Fault → String
  | .missing pool index => s!"{pool.name} index {index} does not exist"
  | .missingOperand opcode position => s!"{opcode.name}: missing operand {position}"
  | .invalidOperand opcode position value =>
    s!"{opcode.name}: operand {position} has invalid register {value.toInt}"
  | .trailingOperands opcode expected actual =>
    s!"{opcode.name}: expected {expected} operands, got {actual}"
  | .dangling pool reference => s!"Dangling {pool.name} reference {referenceText reference}"
  | .unexpectedKind type actual => s!"Type {type} is {actual.name}, expected object"
  | .functionIndexGap index count =>
    s!"Function index {index} outside the index space of {count} functions"
  | .duplicateFunction index => s!"Duplicate function index {index}"
  | .multipleBindings function => s!"Function {function} has multiple bindings"
  | .invalidConstant global => s!"Constant for global {global} has no string payload"
  | .bytesNotUtf8 version =>
    s!"Bytes operand is not valid UTF-8 and version {version.toNat} has no byte pool"
  | .superclassCycle type => s!"Superclass cycle through type {type}"

/-- A fault, and where it was found if it belongs to one entry. -/
structure GraphError where
  location : Option Location
  fault : Fault
  deriving DecidableEq, Repr

/-- The text of an error. -/
def GraphError.message (e : GraphError) : String :=
  match e.location with
  | some location => location.text ++ ": " ++ e.fault.message
  | none => e.fault.message

/-- Says where a fault was found. -/
def located {α : Type} (location : Location) : Except Fault α → Except GraphError α
  | .ok a => .ok a
  | .error fault => .error ⟨some location, fault⟩

/-- A fault of the program as a whole. -/
def unlocated {α : Type} : Except Fault α → Except GraphError α
  | .ok a => .ok a
  | .error fault => .error ⟨none, fault⟩

end HashLink
