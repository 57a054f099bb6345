/-!
# Arguments

`[-r|--raw] [-p|--patch LIB]... [-s|--sequential] [-v|--verbose] [--color auto|always|never] INPUT OUTPUT`

Short flags may be written together, a value may follow its option directly or after `=`, and `--` ends
the options. Every flag and the colour may be given once. Arguments are read from left to right, and
the first one that decides the matter does: a request for the version, or a mistake.
-/

namespace HashLink

/-- When to colour the output. -/
inductive ColorChoice where
  | auto | always | never
  deriving DecidableEq, Repr

/-- The choice of a name. -/
def ColorChoice.ofName? : String → Option ColorChoice
  | "auto" => some .auto
  | "always" => some .always
  | "never" => some .never
  | _ => none

/-- What has been read of the arguments. -/
structure ArgumentState where
  raw : Bool := false
  sequential : Bool := false
  verbose : Bool := false
  color : Option ColorChoice := none
  patches : List String := []
  paths : List String := []
  deriving DecidableEq, Repr

/-- What a run is asked to do. -/
structure Options where
  raw : Bool
  sequential : Bool
  verbose : Bool
  color : ColorChoice
  patches : List String
  input : String
  output : String
  deriving DecidableEq, Repr

/-- What the arguments ask for. -/
inductive Request where
  /-- Patch a file. -/
  | run (options : Options)
  /-- Say which version this is. -/
  | version
  /-- The arguments make no sense. -/
  | misuse
  deriving DecidableEq, Repr

/-- A flag, which takes no value. -/
inductive Flag where
  | raw | sequential | verbose | version
  deriving DecidableEq, Repr

/-- An option, which takes a value. -/
inductive Setting where
  | patch | color
  deriving DecidableEq, Repr

/-- What an option name stands for. -/
inductive Switch where
  | flag (flag : Flag)
  | setting (setting : Setting)
  deriving DecidableEq, Repr

namespace Switch

/-- The option of a letter. -/
def ofLetter? : Char → Option Switch
  | 'r' => some (.flag .raw)
  | 's' => some (.flag .sequential)
  | 'v' => some (.flag .verbose)
  | 'V' => some (.flag .version)
  | 'p' => some (.setting .patch)
  | _ => none

/-- The option of a word. -/
def ofWord? : String → Option Switch
  | "raw" => some (.flag .raw)
  | "sequential" => some (.flag .sequential)
  | "verbose" => some (.flag .verbose)
  | "version" => some (.flag .version)
  | "patch" => some (.setting .patch)
  | "color" => some (.setting .color)
  | _ => none

end Switch

namespace ArgumentState

/-- Reading either goes on or is decided. -/
abbrev Step := Except Request ArgumentState

/-- Takes a flag, which must be new. -/
def flag (s : ArgumentState) : Flag → Step
  | .raw => if s.raw then throw .misuse else return { s with raw := true }
  | .sequential => if s.sequential then throw .misuse else return { s with sequential := true }
  | .verbose => if s.verbose then throw .misuse else return { s with verbose := true }
  | .version => throw .version

/-- Takes the value of an option. A path is not empty. -/
def setting (s : ArgumentState) (value : String) : Setting → Step
  | .patch => if value.isEmpty then throw .misuse else return { s with patches := s.patches ++ [value] }
  | .color =>
    match s.color, ColorChoice.ofName? value with
    | none, some choice => return { s with color := some choice }
    | _, _ => throw .misuse

/-- Takes the path of the input or of the output. -/
def path (s : ArgumentState) (value : String) : Step :=
  if value.isEmpty ∨ 2 ≤ s.paths.length then throw .misuse
  else return { s with paths := s.paths ++ [value] }

/-- Takes letters that are written together. An option takes the rest as its value, without an
equals sign in front; if nothing is left, the next argument is its value. -/
def letters (s : ArgumentState) : List Char → Except Request (ArgumentState × Option Setting)
  | [] => return (s, none)
  | c :: rest =>
    match Switch.ofLetter? c with
    | some (.flag f) => do letters (← s.flag f) rest
    | some (.setting o) =>
      match rest with
      | [] => return (s, some o)
      | '=' :: value => return (← s.setting (String.ofList value) o, none)
      | value => return (← s.setting (String.ofList value) o, none)
    | none => throw .misuse

/-- Takes an option that is a word, with a value after an equals sign or none. -/
def word (s : ArgumentState) (name : String) (value : Option String) :
    Except Request (ArgumentState × Option Setting) :=
  match Switch.ofWord? name, value with
  | some (.flag f), none => return (← s.flag f, none)
  | some (.setting o), some value => return (← s.setting value o, none)
  | some (.setting o), none => return (s, some o)
  | _, _ => throw .misuse

/-- Splits a word at its first equals sign. -/
def splitValue (chars : List Char) : String × Option String :=
  let name := chars.takeWhile (· != '=')
  let value := match chars.dropWhile (· != '=') with
    | _ :: value => some (String.ofList value)
    | [] => none
  (String.ofList name, value)

/-- Takes one argument that may be an option. -/
def argument (s : ArgumentState) (arg : String) : Except Request (ArgumentState × Option Setting) :=
  match arg.toList with
  | '-' :: '-' :: chars =>
    let (name, value) := splitValue chars
    s.word name value
  | '-' :: c :: rest => s.letters (c :: rest)
  | _ => return (← s.path arg, none)

/-- Takes all arguments. An option that waits for its value gets the next argument, unless that
looks like an option itself. -/
def arguments (s : ArgumentState) (waiting : Option Setting) : List String → Step
  | [] => if waiting.isSome then throw .misuse else return s
  | arg :: rest =>
    if arg = "--" then
      if waiting.isSome then throw .misuse else rest.foldlM path s
    else
      match waiting with
      | some o =>
        if arg.startsWith "-" ∧ arg ≠ "-" then throw .misuse
        else do arguments (← s.setting arg o) none rest
      | none => do
        let (s, waiting) ← s.argument arg
        arguments s waiting rest

/-- What the arguments ask for once they are all read: both paths must be there. -/
def finish (s : ArgumentState) : Request :=
  match s.paths with
  | [input, output] =>
    .run { raw := s.raw, sequential := s.sequential, verbose := s.verbose,
           color := s.color.getD .auto, patches := s.patches, input, output }
  | _ => .misuse

end ArgumentState

/-- What a list of arguments asks for. -/
def Request.ofArguments (args : List String) : Request :=
  match ArgumentState.arguments {} none args with
  | .ok s => s.finish
  | .error request => request

end HashLink
