import HashLink.Wire.Error

/-!
# Why a module could not be loaded or saved
-/

namespace HashLink

/-- A refusal of the file system: its explanation and its number, if it has one. -/
structure FileError where
  reason : String
  code : Option Nat
  deriving DecidableEq, Repr

namespace FileError

/-- Nothing has this path. -/
def notFound : FileError := ⟨"No such file or directory", some 2⟩

/-- The path goes through something that is no folder. -/
def notADirectory : FileError := ⟨"Not a directory", some 20⟩

/-- The path names a folder. -/
def isDirectory : FileError := ⟨"Is a directory", some 21⟩

/-- The device takes nothing more. -/
def noSpace : FileError := ⟨"No space left on device", some 28⟩

/-- The path, or a name in it, is too long. -/
def nameTooLong : FileError := ⟨"File name too long", some 36⟩

/-- The path holds a zero character. No system is asked about such a path. -/
def zeroInPath : FileError := ⟨"file name contained an unexpected NUL byte", none⟩

/-- The text of a refusal. -/
def message (e : FileError) : String :=
  match e.code with
  | some code => s!"{e.reason} (os error {code})"
  | none => e.reason

end FileError

/-- Why loading or saving a module failed. -/
inductive ModuleError where
  /-- The bytes are no module. -/
  | decode (cause : DecodeError)
  /-- The module has no bytes. -/
  | encode (cause : EncodeError)
  /-- The file could not be read or written. -/
  | file (cause : FileError)
  /-- The file does not start with the marker. -/
  | invalidMagic (found : List UInt8)
  /-- The version is not one that can be read. -/
  | unsupportedVersion (version : UInt8)
  /-- The version has no place for byte blocks. -/
  | bytesPoolUnsupported (version : UInt8)
  /-- The number of positions is not that of the instructions. -/
  | debugInfoMismatch (function positions instructions : Nat)
  deriving DecidableEq, Repr

namespace ModuleError

/-- The text of the error that this one wraps. -/
def cause? : ModuleError → Option String
  | .decode cause => some cause.message
  | .encode cause => some cause.message
  | .file cause => some cause.message
  | _ => none

/-- The text of a module error. -/
def message : ModuleError → String
  | .decode cause => "Decode error: " ++ cause.message
  | .encode cause => "Encode error: " ++ cause.message
  | .file cause => "I/O error: " ++ cause.message
  | .invalidMagic found =>
    let bytes := ", ".intercalate (found.map fun b => toString b.toNat)
    s!"Invalid magic number: expected HLB, got [{bytes}]"
  | .unsupportedVersion version => s!"Unsupported version: {version.toNat} (supported: 4..=5)"
  | .bytesPoolUnsupported version => s!"Version {version.toNat} modules cannot carry a byte pool"
  | .debugInfoMismatch function positions instructions =>
    s!"Function {function}: {positions} debug positions for {instructions} instructions"

end ModuleError

end HashLink
