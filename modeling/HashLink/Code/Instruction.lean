import HashLink.Code.Opcode
import HashLink.Wire.Varint

/-!
# Raw instructions

An instruction is an opcode and a flat list of numbers. On the wire the tag of the opcode comes
first; lists of registers and tables of branches carry a count, which the argument list leaves out
because it is determined by the length. A table of branches is flat too: the selector, the branches,
and last the branch taken otherwise.
-/

namespace HashLink

/-- An opcode with its arguments as numbers. -/
structure Instruction where
  opcode : Opcode
  args : List Int32
  deriving DecidableEq, Repr

namespace Instruction

/-- The arguments of an instruction, under the layout of its opcode. -/
def writeArgs (opcode : Opcode) (args : List Int32) : Output :=
  let missing (expected : Nat) : Output :=
    .fail (.missingArguments opcode.name expected args.length)
  match opcode.shape with
  | .exactly kinds =>
    if args.length = kinds.length then .each args Output.varint else missing kinds.length
  | .withRegisters kinds =>
    if args.length < kinds.length then missing kinds.length
    else
      let registers := args.drop kinds.length
      .each (args.take kinds.length) Output.varint ++ Output.index registers.length ++
        .each registers Output.varint
  | .branches =>
    match args with
    | selector :: target :: targets =>
      let offsets := (target :: targets).dropLast
      Output.varint selector ++ Output.index offsets.length ++ .each offsets Output.varint ++
        Output.varint ((target :: targets).getLast (List.cons_ne_nil _ _))
    | _ => missing 2

/-- An instruction on the wire. -/
def write (i : Instruction) : Output :=
  Output.varint (Int32.ofNat i.opcode.tag) ++ writeArgs i.opcode i.args

/-- Reads arguments under a layout. -/
def readArgs : Shape → Reader (List Int32)
  | .exactly kinds => Reader.times kinds.length Reader.varint
  | .withRegisters kinds => do
    let fixed ← Reader.times kinds.length Reader.varint
    let registers ← Reader.counted Reader.varint
    return fixed ++ registers
  | .branches => do
    let selector ← Reader.varint
    let offsets ← Reader.counted Reader.varint
    let otherwise ← Reader.varint
    return selector :: offsets ++ [otherwise]

/-- Reads an instruction. -/
def read : Reader Instruction := do
  let offset ← Reader.position
  let tag ← Reader.varint
  let opcode? := if tag < 0 then none else Opcode.ofTag? tag.toInt.toNat
  match opcode? with
  | some opcode => return ⟨opcode, ← readArgs opcode.shape⟩
  | none => throw (.invalidOpcode tag offset)

end Instruction

end HashLink
