import HashLink.Module.Error

/-!
# Paths

A path is read before the file system is asked anything: where it starts, which steps it takes, and
whether it insists on a folder by ending in a slash. A slash that follows another one says nothing.
-/

namespace HashLink

/-- One step along a path. -/
inductive PathStep where
  /-- Stay in the folder. -/
  | stay
  /-- Go to the folder that this one is in. -/
  | up
  /-- Go to what has this name. -/
  | down (name : String)
  deriving DecidableEq, Repr

/-- A path: whether it starts at the root, its steps, and whether it ends in a slash. -/
structure Path where
  fromRoot : Bool
  steps : List PathStep
  asFolder : Bool
  deriving DecidableEq, Repr

/-- The most bytes that a name may have. -/
def maxNameBytes : Nat := 255

/-- The most bytes that a path may have. -/
def maxPathBytes : Nat := 4095

/-- The parts of a text between its slashes, of which some may be empty. -/
def slashParts : List Char → List (List Char)
  | [] => [[]]
  | '/' :: rest => [] :: slashParts rest
  | c :: rest =>
    match slashParts rest with
    | part :: parts => (c :: part) :: parts
    | [] => [[c]]

/-- The step that a part of a path stands for. -/
def PathStep.ofPart? : List Char → Option PathStep
  | [] => none
  | ['.'] => some .stay
  | ['.', '.'] => some .up
  | name => some (.down (String.ofList name))

/-- Reads a path. -/
def Path.ofString (text : String) : Except FileError Path :=
  let chars := text.toList
  if chars.contains '\x00' then .error .zeroInPath
  else if chars.isEmpty then .error .notFound
  else if maxPathBytes < text.utf8ByteSize then .error .nameTooLong
  else .ok {
    fromRoot := chars.head? = some '/'
    steps := (slashParts chars).filterMap PathStep.ofPart?
    asFolder := chars.getLast? = some '/' }

end HashLink
