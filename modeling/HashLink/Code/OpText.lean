import HashLink.Code.Instruction
import HashLink.Code.Op
import HashLink.Text.Quoted
import HashLink.Text.Shortest

/-!
# The text of an instruction

Messages show an op with the names of its operands in braces, `Int` with `dst: Reg(1), value: 0`, and
a raw instruction with its bare arguments.
-/

namespace HashLink

/-- Texts in brackets. -/
def bracketed (items : List String) : String :=
  "[" ++ ", ".intercalate items ++ "]"

/-- A name with named parts in braces, or the bare name where there are no parts. -/
def recordText (name : String) (parts : List (String × String)) : String :=
  if parts.isEmpty then name
  else
    name ++ " \x7b " ++ ", ".intercalate (parts.map fun (key, text) => key ++ ": " ++ text) ++ " \x7d"

/-- The text of an operand. -/
def Operand.text : Operand → String
  | .register number => s!"Reg({number.toNat})"
  | .int value | .field value | .offset value | .construct value | .inline value =>
    toString value.toInt
  | .float bits => floatText bits
  | .bytes value => bracketed (value.map fun b => toString b.toNat)
  | .string value => quoted value
  | .function id => s!"FunctionId({id})"
  | .global id => s!"GlobalId({id})"
  | .type id => s!"TypeId({id})"
  | .flag value => if value then "true" else "false"

/-- The text of an argument. -/
def Argument.text : Argument → String
  | .one operand => operand.text
  | .many operands => bracketed (operands.map (·.text))

/-- The names of an op's arguments. -/
def Opcode.argumentNames : Opcode → List String
  | .mov | .neg | .not | .toDyn | .toSFloat | .toUFloat | .toInt | .safeCast | .uncheckedCast
  | .toVirtual | .getType | .getTypeId | .ref | .unref | .setRef | .refData => ["dst", "src"]
  | .int | .float | .bool | .bytes | .string | .enumIndex => ["dst", "value"]
  | .null | .incr | .decr | .new => ["dst"]
  | .add | .sub | .mul | .sDiv | .uDiv | .sMod | .uMod | .shl | .sShr | .uShr | .and | .or
  | .xor => ["dst", "a", "b"]
  | .call0 | .call1 | .call2 | .call3 | .call4 | .callN => ["dst", "function", "args"]
  | .callMethod | .callThis => ["dst", "field", "args"]
  | .callClosure => ["dst", "closure", "args"]
  | .staticClosure => ["dst", "function"]
  | .instanceClosure => ["dst", "function", "obj"]
  | .virtualClosure | .field => ["dst", "obj", "field"]
  | .getGlobal => ["dst", "global"]
  | .setGlobal => ["global", "src"]
  | .setField => ["obj", "field", "src"]
  | .getThis => ["dst", "field"]
  | .setThis => ["field", "src"]
  | .dynGet => ["dst", "obj", "name"]
  | .dynSet => ["obj", "name", "src"]
  | .jTrue | .jFalse | .jNull | .jNotNull | .trap => ["reg", "offset"]
  | .jSLt | .jSGte | .jSGt | .jSLte | .jULt | .jUGte | .jNotLt | .jNotGte | .jEq | .jNotEq =>
    ["a", "b", "offset"]
  | .jAlways => ["offset"]
  | .label | .assert | .nop => []
  | .ret | .throw | .rethrow | .nullCheck => ["reg"]
  | .switch => ["reg", "offsets", "default"]
  | .endTrap => ["inline"]
  | .getI8 | .getI16 | .getMem => ["dst", "bytes", "index"]
  | .getArray => ["dst", "array", "index"]
  | .setI8 | .setI16 | .setMem => ["bytes", "index", "src"]
  | .setArray => ["array", "index", "src"]
  | .arraySize => ["dst", "array"]
  | .type => ["dst", "ty"]
  | .makeEnum => ["dst", "construct", "args"]
  | .enumAlloc => ["dst", "construct"]
  | .enumField => ["dst", "value", "construct", "field"]
  | .setEnumField => ["value", "field", "src"]
  | .refOffset => ["dst", "reference", "offset"]
  | .prefetch => ["reg", "field", "mode"]
  | .asm => ["mode", "value", "reg"]

/-- The text of an op. -/
def Op.text (op : Op) : String :=
  recordText op.name (op.opcode.argumentNames.zip (op.arguments.map (·.text)))

/-- The text of a raw instruction. -/
def Instruction.text (i : Instruction) : String :=
  recordText "Instruction"
    [("opcode", i.opcode.name), ("args", bracketed (i.args.map fun a => toString a.toInt))]

/-- The text of something that may be missing. -/
def optionText {α : Type} (text : α → String) : Option α → String
  | some a => "Some(" ++ text a ++ ")"
  | none => "None"

end HashLink
