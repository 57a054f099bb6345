import HashLink.Code.Opcode

/-!
# Resolved instructions

An op is an instruction whose operands stand for themselves: the integer instead of its index in a
pool, the string, the number of the function. An op has exactly the operands that its opcode
takes, in the same order; this is part of the type, so no edit of a program can make an op that has no
instruction.

Calls of a known function have six opcodes that differ only in how many arguments are passed. As
an op they are one kind of thing, and its opcode is the narrowest of the six that has room.
-/

namespace HashLink

/-- An operand that stands for itself. -/
inductive Operand where
  | register (number : UInt32)
  | int (value : Int32)
  | float (bits : UInt64)
  | bytes (value : List UInt8)
  | string (value : String)
  | function (id : Nat)
  | global (id : Nat)
  | type (id : Nat)
  | field (index : Int32)
  | offset (distance : Int32)
  | construct (index : Int32)
  | inline (value : Int32)
  | flag (value : Bool)
  deriving DecidableEq, Repr

namespace Operand

/-- The kind of an operand. -/
def kind : Operand → OperandKind
  | .register _ => .register
  | .int _ => .int
  | .float _ => .float
  | .bytes _ => .bytes
  | .string _ => .string
  | .function _ => .function
  | .global _ => .global
  | .type _ => .type
  | .field _ => .field
  | .offset _ => .offset
  | .construct _ => .construct
  | .inline _ => .inline
  | .flag _ => .flag

/-- The function that an operand names. -/
def function? : Operand → Option Nat
  | .function id => some id
  | _ => none

end Operand

/-- A value that a module keeps in a pool. -/
inductive PoolValue where
  | int (value : Int32)
  | float (bits : UInt64)
  | string (value : String)
  | bytes (value : List UInt8)
  deriving DecidableEq, Repr

/-- The value of an operand that a module keeps in a pool. -/
def Operand.poolValue? : Operand → Option PoolValue
  | .int value => some (.int value)
  | .float bits => some (.float bits)
  | .string value => some (.string value)
  | .bytes value => some (.bytes value)
  | _ => none

/-- The kinds that `n` operands of a shape have, or those they would need to have if there are too few. -/
def Shape.kindsFor (s : Shape) (n : Nat) : List OperandKind :=
  match s with
  | .exactly kinds => kinds
  | .withRegisters kinds => kinds ++ List.replicate (n - kinds.length) .register
  | .branches => .register :: .offset :: List.replicate (n - 2) .offset

namespace Opcode

/-- Calls of a known function, whatever the number of arguments, are one family. -/
def isPlainCall : Opcode → Bool
  | .call0 | .call1 | .call2 | .call3 | .call4 | .callN => true
  | _ => false

/-- The shape of the op that an opcode stands for. -/
def opShape (o : Opcode) : Shape :=
  if o.isPlainCall then callN.shape else o.shape

/-- The narrowest opcode for a number of operands. Two operands of a call are the result and the
function. -/
def forCount (o : Opcode) (operands : Nat) : Opcode :=
  if o.isPlainCall then
    match operands with
    | 2 => .call0
    | 3 => .call1
    | 4 => .call2
    | 5 => .call3
    | 6 => .call4
    | _ => .callN
  else o

/-- Whether operands of these kinds make an op of this opcode. -/
def Fits (o : Opcode) (kinds : List OperandKind) : Prop :=
  kinds = o.opShape.kindsFor kinds.length ∧ o.forCount kinds.length = o

instance (o : Opcode) (kinds : List OperandKind) : Decidable (o.Fits kinds) :=
  inferInstanceAs (Decidable (_ ∧ _))

@[simp] theorem isPlainCall_forCount (o : Opcode) (n : Nat) :
    (o.forCount n).isPlainCall = o.isPlainCall := by
  unfold forCount
  split
  · next h => rw [h]; split <;> rfl
  · rfl

@[simp] theorem opShape_forCount (o : Opcode) (n : Nat) : (o.forCount n).opShape = o.opShape := by
  by_cases h : o.isPlainCall
  · simp [opShape, h]
  · simp [forCount, h]

@[simp] theorem forCount_forCount (o : Opcode) (n : Nat) :
    (o.forCount n).forCount n = o.forCount n := by
  by_cases h : o.isPlainCall <;> simp [forCount, h]

/-- Operands of the right kinds fit the narrowest opcode. -/
theorem fits_forCount {o : Opcode} {kinds : List OperandKind}
    (h : kinds = o.opShape.kindsFor kinds.length) : (o.forCount kinds.length).Fits kinds :=
  ⟨by simpa using h, by simp⟩

end Opcode

/-- A resolved instruction. -/
structure Op where
  opcode : Opcode
  operands : List Operand
  fits : opcode.Fits (operands.map (·.kind))
  deriving DecidableEq, Repr

/-- One or several operands that belong together. -/
inductive Argument where
  | one (operand : Operand)
  | many (operands : List Operand)
  deriving DecidableEq, Repr

namespace Op

/-- The op of an opcode's family with the given operands, if they are of the right kinds. -/
def ofOperands? (o : Opcode) (operands : List Operand) : Option Op :=
  let opcode := o.forCount operands.length
  if h : opcode.Fits (operands.map (·.kind)) then some ⟨opcode, operands, h⟩ else none

/-- The load of an integer into a register. -/
def int (dst : UInt32) (value : Int32) : Op :=
  ⟨.int, [.register dst, .int value], ⟨rfl, rfl⟩⟩

/-- The function that an op refers to. -/
def function? (op : Op) : Option Nat := op.operands.findSome? (·.function?)

/-- The pooled value that an op refers to. -/
def poolValue? (op : Op) : Option PoolValue := op.operands.findSome? (·.poolValue?)

/-- The operands with lists of registers and of branches put together. -/
def arguments (op : Op) : List Argument :=
  match op.opcode.opShape with
  | .exactly _ => op.operands.map .one
  | .withRegisters kinds =>
    (op.operands.take kinds.length).map .one ++ [.many (op.operands.drop kinds.length)]
  | .branches =>
    match op.operands with
    | selector :: targets =>
      .one selector :: .many targets.dropLast :: targets.getLast?.toList.map .one
    | [] => []

/-- The name of an op, which is the same for all calls of a known function. -/
def name (op : Op) : String :=
  if op.opcode.isPlainCall then "Call" else op.opcode.name

/-- The opcodes of ops by name. -/
def opcode? (name : String) : Option Opcode :=
  if name == "Call" then some .callN
  else (Opcode.ofName? name).filter (!·.isPlainCall)

end Op

end HashLink
