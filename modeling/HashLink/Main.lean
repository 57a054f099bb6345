import HashLink.CommandLine.Run
import HashLink.Patch.InfiniteJumps

/-!
# The program

Reads the arguments and the files, and shows what the run says. Everything is decided in
`HashLink.CommandLine.Run`.
-/

namespace HashLink

/-- The refusal that a system means by a number and a text. Some parts of a system negate the
number; `text` is for numbers without a text here. -/
def FileError.ofSystemCode (code : UInt32) (text : String) : FileError :=
  let number := if code < 0x80000000 then code.toNat else (0 - code).toNat
  let known := [FileError.notFound, .notADirectory, .isDirectory, .noSpace, .nameTooLong]
  (known.find? fun e => e.code == some number).getD ⟨text, some number⟩

/-- A refusal of the real file system. -/
def FileError.ofSystem : IO.Error → FileError
  | .noFileOrDirectory _ code text | .inappropriateType _ code text
  | .invalidArgument _ code text | .permissionDenied _ code text
  | .resourceExhausted _ code text | .otherError code text => .ofSystemCode code text
  | e => ⟨toString e, none⟩

/-- The content of a file. -/
def readBytes (path : String) : IO (Except FileError (List UInt8)) := do
  try
    return .ok (← IO.FS.readBinFile path).toList
  catch e => return .error (.ofSystem e)

/-- Creates or replaces a file. -/
def writeBytes (path : String) (bytes : List UInt8) : IO (Except FileError Unit) := do
  try
    IO.FS.writeBinFile path ⟨bytes.toArray⟩
    return .ok ()
  catch e => return .error (.ofSystem e)

/-! ## Libraries -/

/-- Whether some bytes stand together somewhere in others. -/
def occursIn (part : List UInt8) : List UInt8 → Bool
  | [] => part.isEmpty
  | b :: rest => part.isPrefixOf (b :: rest) || occursIn part rest

/-- The library in a file. No foreign code is called from here, but the patch for infinite jumps is
known: a file is its library if it starts like one and holds the names of the constructor and of the
patch. -/
def PatchLibrary.ofBytes (bytes : List UInt8) : Except String PatchLibrary :=
  let marker := [0x7F, 0x45, 0x4C, 0x46]
  let names := [constructorExport, InfiniteJumps.patch.info.name]
  if marker.isPrefixOf bytes && names.all fun name => occursIn (utf8 name) bytes then
    .ok ⟨.ok patchInterface, .ok (some InfiniteJumps.patch)⟩
  else .error "not the library of a known patch"

/-- Opens the library at a path. A bare name stands for a library of the system, and none of those
has a patch. -/
def openLibrary (path : String) : IO (Except String PatchLibrary) := do
  if path.contains '/' then
    match ← readBytes path with
    | .ok bytes => return PatchLibrary.ofBytes bytes
    | .error e => return .error e.message
  return .error "not a path"

/-! ## The run -/

/-- The machine that the work is divided for. Nothing that a run shows or writes depends on it, so the
system is not asked. -/
def machine : Cores := ⟨8, by decide⟩

/-- A run on the real file system. -/
def runOptions (o : Options) : IO RunReport := do
  let environment : Environment := {
    noColor := (← IO.getEnv "NO_COLOR").isSome
    term := ← IO.getEnv "TERM"
    cores := machine }
  let patches ← o.patches.mapM fun path => do
    let library ← openLibrary path
    return (path, DynamicLoader.load (fun _ => library) path)
  let d := draft machine o (← readBytes o.input) patches
  let written ← match d.result with
    | .ok bytes => writeBytes o.output bytes
    | .error _ => pure (.ok ())
  return d.report (isColored environment o.color) o.output written

/-- A line of the log as text. -/
def LogLine.render (l : LogLine) : String := s!"{l.level.name} {l.text} patch={l.source}"

/-- How the program is called. -/
def usage : String :=
  "Usage: hlpatch [-r] [-p LIB]... [-s] [-v] [--color auto|always|never] INPUT OUTPUT"

end HashLink

open HashLink in
/-- Runs the program. -/
def main (args : List String) : IO UInt32 := do
  let report ← match Request.ofArguments args with
    | .run options => runOptions options
    | .version => pure versionReport
    | .misuse => do
      IO.eprintln usage
      pure misuseReport
  IO.print report.output
  for line in report.log do IO.eprintln line.render
  if let some line := report.error then IO.eprintln line
  return UInt32.ofNat report.exit
