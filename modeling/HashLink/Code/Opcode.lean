/-!
# Opcodes

The instruction set: one tag per opcode, and for each opcode the kinds of its operands. The kinds
decide everything else about an instruction: how many arguments it has on the wire, which of them
are indices into a pool, and what a resolved instruction holds in their place.
-/

namespace HashLink

/-- What one operand of an instruction refers to. -/
inductive OperandKind where
  /-- A register of the method. -/
  | register
  /-- An entry of the integer pool. -/
  | int
  /-- An entry of the float pool. -/
  | float
  /-- An entry of the byte pool, or of the string pool where there is no byte pool. -/
  | bytes
  /-- An entry of the string pool. -/
  | string
  /-- A function. -/
  | function
  /-- A global slot. -/
  | global
  /-- A type. -/
  | type
  /-- A field of the receiver. -/
  | field
  /-- How far a branch jumps. -/
  | offset
  /-- A constructor of an enum. -/
  | construct
  /-- A plain number. -/
  | inline
  /-- A truth value: a plain number on the wire, of which only zero is false. -/
  | flag
  deriving DecidableEq, Repr

/-- The name of an operand kind. A flag is a plain number as far as the wire is concerned. -/
def OperandKind.name : OperandKind → String
  | .register => "Reg"
  | .int => "Int"
  | .float => "Float"
  | .bytes => "Bytes"
  | .string => "String"
  | .function => "Function"
  | .global => "Global"
  | .type => "Type"
  | .field => "Field"
  | .offset => "Offset"
  | .construct => "Construct"
  | .inline | .flag => "Inline"

/-- How the operands of an opcode are laid out. -/
inductive Shape where
  /-- Exactly these operands. -/
  | exactly (kinds : List OperandKind)
  /-- These operands and then any number of registers. -/
  | withRegisters (kinds : List OperandKind)
  /-- A register to select by, any number of branches, and the branch taken otherwise. -/
  | branches
  deriving DecidableEq, Repr

namespace Shape

/-- How many operands there always are, unless the shape is a table of branches. -/
def fixed? : Shape → Option Nat
  | .exactly kinds | .withRegisters kinds => some kinds.length
  | .branches => none

/-- Whether a counted list of registers follows the fixed operands. -/
def isVariable : Shape → Bool
  | .withRegisters _ => true
  | .exactly _ | .branches => false

/-- The kind of the operand at a position. Past the listed kinds there are only registers. -/
def kindAt : Shape → Nat → OperandKind
  | .exactly kinds, position | .withRegisters kinds, position => kinds[position]?.getD .register
  | .branches, position => if position = 0 then .register else .offset

end Shape

/-- The opcodes, in the order of their tags. -/
inductive Opcode where
  -- Moves and constants
  | mov | int | float | bool | bytes | string | null
  -- Arithmetic
  | add | sub | mul | sDiv | uDiv | sMod | uMod | shl | sShr | uShr | and | or | xor | neg | not
  | incr | decr
  -- Calls
  | call0 | call1 | call2 | call3 | call4 | callN | callMethod | callThis | callClosure
  -- Closures
  | staticClosure | instanceClosure | virtualClosure
  -- Globals and fields
  | getGlobal | setGlobal | field | setField | getThis | setThis | dynGet | dynSet
  -- Jumps
  | jTrue | jFalse | jNull | jNotNull | jSLt | jSGte | jSGt | jSLte | jULt | jUGte | jNotLt
  | jNotGte | jEq | jNotEq | jAlways
  -- Conversions
  | toDyn | toSFloat | toUFloat | toInt | safeCast | uncheckedCast | toVirtual
  -- Control flow
  | label | ret | throw | rethrow | switch | nullCheck | trap | endTrap
  -- Memory
  | getI8 | getI16 | getMem | getArray | setI8 | setI16 | setMem | setArray
  -- Objects and types
  | new | arraySize | type | getType | getTypeId | ref | unref | setRef
  -- Enums
  | makeEnum | enumAlloc | enumIndex | enumField | setEnumField
  -- Everything else
  | assert | refData | refOffset | nop | prefetch | asm
  deriving DecidableEq, Repr

namespace Opcode

/-- Every opcode, in the order of the tags. -/
def all : List Opcode :=
  [.mov, .int, .float, .bool, .bytes, .string, .null, .add, .sub, .mul, .sDiv, .uDiv, .sMod,
   .uMod, .shl, .sShr, .uShr, .and, .or, .xor, .neg, .not, .incr, .decr, .call0, .call1, .call2,
   .call3, .call4, .callN, .callMethod, .callThis, .callClosure, .staticClosure,
   .instanceClosure, .virtualClosure, .getGlobal, .setGlobal, .field, .setField, .getThis,
   .setThis, .dynGet, .dynSet, .jTrue, .jFalse, .jNull, .jNotNull, .jSLt, .jSGte, .jSGt, .jSLte,
   .jULt, .jUGte, .jNotLt, .jNotGte, .jEq, .jNotEq, .jAlways, .toDyn, .toSFloat, .toUFloat,
   .toInt, .safeCast, .uncheckedCast, .toVirtual, .label, .ret, .throw, .rethrow, .switch,
   .nullCheck, .trap, .endTrap, .getI8, .getI16, .getMem, .getArray, .setI8, .setI16, .setMem,
   .setArray, .new, .arraySize, .type, .getType, .getTypeId, .ref, .unref, .setRef, .makeEnum,
   .enumAlloc, .enumIndex, .enumField, .setEnumField, .assert, .refData, .refOffset, .nop,
   .prefetch, .asm]

/-- The number that stands for an opcode on the wire. -/
def tag (o : Opcode) : Nat := o.ctorIdx

/-- The opcode of a tag. -/
def ofTag? (tag : Nat) : Option Opcode := all[tag]?

@[simp] theorem ofTag?_tag (o : Opcode) : ofTag? o.tag = some o := by
  cases o <;> rfl

theorem tag_lt (o : Opcode) : o.tag < 101 := by
  cases o <;> decide

/-- The name of an opcode. -/
def name : Opcode → String
  | .mov => "Mov"
  | .int => "Int"
  | .float => "Float"
  | .bool => "Bool"
  | .bytes => "Bytes"
  | .string => "String"
  | .null => "Null"
  | .add => "Add"
  | .sub => "Sub"
  | .mul => "Mul"
  | .sDiv => "SDiv"
  | .uDiv => "UDiv"
  | .sMod => "SMod"
  | .uMod => "UMod"
  | .shl => "Shl"
  | .sShr => "SShr"
  | .uShr => "UShr"
  | .and => "And"
  | .or => "Or"
  | .xor => "Xor"
  | .neg => "Neg"
  | .not => "Not"
  | .incr => "Incr"
  | .decr => "Decr"
  | .call0 => "Call0"
  | .call1 => "Call1"
  | .call2 => "Call2"
  | .call3 => "Call3"
  | .call4 => "Call4"
  | .callN => "CallN"
  | .callMethod => "CallMethod"
  | .callThis => "CallThis"
  | .callClosure => "CallClosure"
  | .staticClosure => "StaticClosure"
  | .instanceClosure => "InstanceClosure"
  | .virtualClosure => "VirtualClosure"
  | .getGlobal => "GetGlobal"
  | .setGlobal => "SetGlobal"
  | .field => "Field"
  | .setField => "SetField"
  | .getThis => "GetThis"
  | .setThis => "SetThis"
  | .dynGet => "DynGet"
  | .dynSet => "DynSet"
  | .jTrue => "JTrue"
  | .jFalse => "JFalse"
  | .jNull => "JNull"
  | .jNotNull => "JNotNull"
  | .jSLt => "JSLt"
  | .jSGte => "JSGte"
  | .jSGt => "JSGt"
  | .jSLte => "JSLte"
  | .jULt => "JULt"
  | .jUGte => "JUGte"
  | .jNotLt => "JNotLt"
  | .jNotGte => "JNotGte"
  | .jEq => "JEq"
  | .jNotEq => "JNotEq"
  | .jAlways => "JAlways"
  | .toDyn => "ToDyn"
  | .toSFloat => "ToSFloat"
  | .toUFloat => "ToUFloat"
  | .toInt => "ToInt"
  | .safeCast => "SafeCast"
  | .uncheckedCast => "UnsafeCast"
  | .toVirtual => "ToVirtual"
  | .label => "Label"
  | .ret => "Ret"
  | .throw => "Throw"
  | .rethrow => "Rethrow"
  | .switch => "Switch"
  | .nullCheck => "NullCheck"
  | .trap => "Trap"
  | .endTrap => "EndTrap"
  | .getI8 => "GetI8"
  | .getI16 => "GetI16"
  | .getMem => "GetMem"
  | .getArray => "GetArray"
  | .setI8 => "SetI8"
  | .setI16 => "SetI16"
  | .setMem => "SetMem"
  | .setArray => "SetArray"
  | .new => "New"
  | .arraySize => "ArraySize"
  | .type => "Type"
  | .getType => "GetType"
  | .getTypeId => "GetTID"
  | .ref => "Ref"
  | .unref => "Unref"
  | .setRef => "Setref"
  | .makeEnum => "MakeEnum"
  | .enumAlloc => "EnumAlloc"
  | .enumIndex => "EnumIndex"
  | .enumField => "EnumField"
  | .setEnumField => "SetEnumField"
  | .assert => "Assert"
  | .refData => "RefData"
  | .refOffset => "RefOffset"
  | .nop => "Nop"
  | .prefetch => "Prefetch"
  | .asm => "Asm"

/-- The opcode of a name. -/
def ofName? (name : String) : Option Opcode := all.find? (·.name == name)

/-- The layout of a call that passes `n` arguments. -/
def callShape (n : Nat) : Shape :=
  .exactly (.register :: .function :: List.replicate n .register)

/-- The layout of an opcode's operands. This is one table for four purposes, for which every opcode has
the same layout: how many operands an instruction has on the wire, of which kind each of them is for
the check of a module, what resolving makes of it, and what flattening makes of that. -/
def shape : Opcode → Shape
  | .call0 => callShape 0
  | .call1 => callShape 1
  | .call2 => callShape 2
  | .call3 => callShape 3
  | .call4 => callShape 4
  | .switch => .branches
  | .mov | .neg | .not | .toDyn | .toSFloat | .toUFloat | .toInt | .safeCast | .uncheckedCast
  | .toVirtual | .arraySize | .getType | .getTypeId | .ref | .unref | .setRef | .enumIndex
  | .refData => .exactly [.register, .register]
  | .int => .exactly [.register, .int]
  | .float => .exactly [.register, .float]
  | .bool => .exactly [.register, .flag]
  | .bytes => .exactly [.register, .bytes]
  | .string => .exactly [.register, .string]
  | .null | .incr | .decr | .ret | .throw | .rethrow | .nullCheck | .new => .exactly [.register]
  | .add | .sub | .mul | .sDiv | .uDiv | .sMod | .uMod | .shl | .sShr | .uShr | .and | .or | .xor
  | .getI8 | .getI16 | .getMem | .getArray | .setI8 | .setI16 | .setMem | .setArray | .refOffset =>
    .exactly [.register, .register, .register]
  | .callN => .withRegisters [.register, .function]
  | .callMethod | .callThis => .withRegisters [.register, .field]
  | .callClosure => .withRegisters [.register, .register]
  | .staticClosure => .exactly [.register, .function]
  | .instanceClosure => .exactly [.register, .function, .register]
  | .virtualClosure | .field => .exactly [.register, .register, .field]
  | .getGlobal => .exactly [.register, .global]
  | .setGlobal => .exactly [.global, .register]
  | .setField | .setEnumField => .exactly [.register, .field, .register]
  | .getThis => .exactly [.register, .field]
  | .setThis => .exactly [.field, .register]
  | .dynGet => .exactly [.register, .register, .string]
  | .dynSet => .exactly [.register, .string, .register]
  | .jTrue | .jFalse | .jNull | .jNotNull | .trap => .exactly [.register, .offset]
  | .jSLt | .jSGte | .jSGt | .jSLte | .jULt | .jUGte | .jNotLt | .jNotGte | .jEq | .jNotEq =>
    .exactly [.register, .register, .offset]
  | .jAlways => .exactly [.offset]
  | .label | .assert | .nop => .exactly []
  | .endTrap => .exactly [.inline]
  | .type => .exactly [.register, .type]
  | .makeEnum => .withRegisters [.register, .construct]
  | .enumAlloc => .exactly [.register, .construct]
  | .enumField => .exactly [.register, .register, .construct, .field]
  | .prefetch => .exactly [.register, .field, .inline]
  | .asm => .exactly [.inline, .inline, .register]

/-- A branch with a single target. -/
def isJump : Opcode → Bool
  | .jTrue | .jFalse | .jNull | .jNotNull | .jSLt | .jSGte | .jSGt | .jSLte | .jULt | .jUGte
  | .jNotLt | .jNotGte | .jEq | .jNotEq | .jAlways => true
  | _ => false

/-- A call of any sort. -/
def isCall : Opcode → Bool
  | .call0 | .call1 | .call2 | .call3 | .call4 | .callN | .callMethod | .callThis
  | .callClosure => true
  | _ => false

/-- An instruction after which control does not simply go on. -/
def isTerminator (o : Opcode) : Bool :=
  o.isJump || o matches .ret | .throw | .rethrow | .switch

end Opcode

end HashLink
