/-!
# What can go wrong on the wire

Reading and writing fail for different reasons, so they have different errors. An error names its
cause; the wording is in one function per type. Offsets count bytes from the start of the input.

A reader or writer may also break, when a number leaves its range. That stops it like an error and is
kept with the errors, but nobody gets to handle it.
-/

namespace HashLink

/-- A count seen as a signed 64-bit number, which is how out-of-range counts are reported. -/
def asSigned64 (n : Nat) : Int :=
  Int.bmod n 0x10000000000000000

/-- An end that the program does not provide for. Nothing that called the part that broke goes on: the
program ends there, or the patch that was running. -/
inductive Panic where
  /-- A sum leaves the range of its numbers. -/
  | addition
  /-- A difference leaves the range of its numbers. -/
  | subtraction
  deriving DecidableEq, Repr

/-- Why reading stopped. -/
inductive DecodeError where
  /-- The input ended where more was needed. -/
  | unexpectedEnd (offset : Nat)
  /-- A string is not well-formed UTF-8. -/
  | invalidUtf8 (offset : Nat)
  /-- A count or index is below zero. -/
  | negativeIndex (value : Int32) (offset : Nat)
  /-- A pool declares a size below zero. -/
  | invalidPoolSize (size : Int32) (offset : Nat)
  /-- An entry does not lie inside the payload of its pool. -/
  | poolEntryOutOfBounds (index start stop size : Nat)
  /-- No kind of type has this tag. -/
  | unknownTypeKind (tag : UInt8) (offset : Nat)
  /-- No opcode has this tag. -/
  | invalidOpcode (tag : Int32) (offset : Nat)
  /-- More elements are announced than bytes are left. -/
  | countExceedsInput (count remaining offset : Nat)
  /-- A run of debug positions goes past the last instruction. -/
  | debugOverrun (expected decoded : Nat)
  /-- The reader broke. -/
  | panicked (cause : Panic)
  deriving DecidableEq, Repr

/-- Why writing stopped. -/
inductive EncodeError where
  /-- The value has no variable-length form. -/
  | varIntOutOfRange (value : Int)
  /-- A pool payload does not fit its 4-byte size field. -/
  | poolTooLarge (size : Nat)
  /-- A source file index has no file record. -/
  | debugFileOutOfRange (file : Int32)
  /-- A line has no line record. -/
  | debugLineOutOfRange (line : Int32)
  /-- An instruction does not have the arguments that its opcode takes. -/
  | missingArguments (opcode : String) (expected actual : Nat)
  /-- The writer broke. -/
  | panicked (cause : Panic)
  deriving DecidableEq, Repr

/-- The text of a panic. -/
def Panic.message : Panic → String
  | .addition => "attempt to add with overflow"
  | .subtraction => "attempt to subtract with overflow"

/-- The text of a reading error. -/
def DecodeError.message : DecodeError → String
  | .unexpectedEnd offset => s!"Unexpected end of bytecode at offset {offset}"
  | .invalidUtf8 offset => s!"Invalid UTF-8 string at offset {offset}"
  | .negativeIndex value offset =>
    s!"Negative count or index {value.toInt} at offset {offset}"
  | .invalidPoolSize size offset => s!"Invalid pool size {size.toInt} at offset {offset}"
  | .poolEntryOutOfBounds index start stop size =>
    s!"Pool entry {index} out of bounds (start {start}, end {stop}, size {size})"
  | .unknownTypeKind tag offset => s!"Unknown type kind {tag.toNat} at offset {offset}"
  | .invalidOpcode tag offset => s!"Invalid opcode {tag.toInt} at offset {offset}"
  | .countExceedsInput count remaining offset =>
    s!"Count {count} at offset {offset} exceeds the {remaining} bytes left"
  | .debugOverrun expected decoded =>
    s!"Debug positions overrun: expected {expected}, decoded {decoded}"
  | .panicked cause => cause.message

/-- The text of a writing error. -/
def EncodeError.message : EncodeError → String
  | .varIntOutOfRange value => s!"Value {value} out of range for a variable-length integer"
  | .poolTooLarge size => s!"Pool payload of {size} bytes is too large"
  | .debugFileOutOfRange file => s!"Debug file index {file.toInt} out of range"
  | .debugLineOutOfRange line => s!"Debug line {line.toInt} out of range"
  | .missingArguments opcode expected actual =>
    s!"Opcode {opcode} needs at least {expected} arguments, got {actual}"
  | .panicked cause => cause.message

end HashLink
