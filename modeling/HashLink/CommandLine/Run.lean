import HashLink.CommandLine.Arguments
import HashLink.Graph.Flatten
import HashLink.Graph.Resolve
import HashLink.Module.Verify
import HashLink.Patch.Library
import HashLink.Patch.Runner
import HashLink.Storage.FileTree

/-!
# A run of the command line

A run reads a module, resolves it, applies the patches and writes the result. In raw mode the
edited module is checked and written as it is; otherwise the edited graph is flattened. The run is
described apart from its effects: `draft` does everything up to the bytes that are to be written, and
`Draft.report` says what is shown once they have or have not been. What the run finds around it is
given: the files, the dynamic loader, the variables of the environment and the cores of the machine.
-/

namespace HashLink

/-! ## What is shown -/

/-- A line of the status output. -/
inductive StatusLine where
  | title (text : String)
  | success (text : String)
  | warning (text : String)
  | detail (text : String)
  deriving DecidableEq, Repr

/-- The start of an escape sequence. -/
def escape (code : String) : String := "\x1b[" ++ code ++ "m"

/-- A bold line in a colour, or a plain one. -/
def styledLine (colored : Bool) (color text : String) : String :=
  if colored then escape "0" ++ escape "1" ++ escape color ++ text ++ "\n" ++ escape "0"
  else text ++ "\n"

/-- A status line as text. -/
def StatusLine.render (colored : Bool) : StatusLine → String
  | .title text => styledLine colored "36" text
  | .success text => styledLine colored "32" text
  | .warning text => styledLine colored "33" text
  | .detail text => "  " ++ text ++ "\n"

/-- The line about an error. -/
def errorLine (colored : Bool) (text : String) : String :=
  if colored then
    escape "0" ++ escape "1" ++ escape "37" ++ escape "41" ++ " ERROR " ++ escape "0" ++ " " ++ text
  else " ERROR  " ++ text

/-- The surroundings of a run: the variables that the output depends on, and the machine. -/
structure Environment where
  noColor : Bool
  term : Option String
  cores : Cores
  deriving DecidableEq, Repr

/-- Whether the output is coloured. -/
def isColored (e : Environment) (choice : ColorChoice) : Bool :=
  !e.noColor &&
    match choice with
    | .always => true
    | .never => false
    | .auto => e.term.any (· != "dumb")

/-! ## Why a run fails -/

/-- What a run was doing when it failed, and why. -/
inductive RunError where
  | read (path : String) (cause : ModuleError)
  | resolve (cause : GraphError)
  | verify (cause : VerifyError)
  | flatten (cause : GraphError)
  | write (path : String) (cause : ModuleError)
  deriving DecidableEq, Repr

/-- The text of a run error: what was being done, the error, and the error inside it again. -/
def RunError.message (e : RunError) : String :=
  let ofModule (context : String) (cause : ModuleError) :=
    ": ".intercalate (context :: cause.message :: cause.cause?.toList)
  let ofGraph (context : String) (cause : GraphError) :=
    ": ".intercalate
      (context :: cause.message :: (cause.location.map fun _ => cause.fault.message).toList)
  match e with
  | .read path cause => ofModule ("cannot read " ++ path) cause
  | .resolve cause => ofGraph "cannot resolve bytecode" cause
  | .verify cause => "patched bytecode is inconsistent: " ++ cause.message
  | .flatten cause => ofGraph "cannot construct patched bytecode" cause
  | .write path cause => ofModule ("cannot write " ++ path) cause

/-- How a run fails. -/
inductive RunFailure where
  /-- It ends with an error, about which it has a line. -/
  | error
  /-- It panics. -/
  | panic
  deriving DecidableEq, Repr

/-- The exit status of a failure. -/
def RunFailure.exitStatus : RunFailure → Nat
  | .error => 1
  | .panic => 101

/-- How a run fails that cannot load or save a module. -/
def ModuleError.failure : ModuleError → RunFailure
  | .decode (.panicked _) | .encode (.panicked _) => .panic
  | _ => .error

/-- How a run fails that stops like this. -/
def RunError.failure : RunError → RunFailure
  | .read _ cause | .write _ cause => cause.failure
  | .resolve _ | .verify _ | .flatten _ => .error

/-! ## The run -/

/-- A run up to the last step: the lines shown so far, what was logged about the patches, and the
bytes to write. -/
structure Draft where
  lines : List StatusLine
  log : List LogLine
  result : Except RunError (List UInt8)

namespace Draft

/-- Puts a line in front. -/
def after (line : StatusLine) (d : Draft) : Draft := { d with lines := line :: d.lines }

/-- Ends with an error. -/
def failed (e : RunError) : Draft := ⟨[], [], .error e⟩

end Draft

/-- The mode that the options ask for. -/
def Options.mode (o : Options) : PatchMode := if o.raw then .raw else .resolved

/-- The strategy that the options ask for on a machine. -/
def Options.strategy (o : Options) (cores : Cores) : Strategy :=
  if o.sequential then .sequential else .parallel 0 cores

/-- The patches of a run: their paths, and what was loaded from there. -/
abbrev LoadedPatches := List (String × Except PatchError Patch)

/-- What applying patches comes to: the lines shown, what is logged, and the program. -/
structure Patching where
  lines : List StatusLine
  log : List LogLine
  program : Program

/-- Applies what was loaded from a path. -/
def applyFrom (mode : PatchMode) (p : Program) (path : String) :
    Except PatchError Patch → Patching
  | .error e => ⟨[.warning "Patch has not been applied"], [⟨.error, path, e.message⟩], p⟩
  | .ok patch =>
    let one := p.apply mode ⟨path, patch⟩
    let (complaint, remark) := match one.outcome with
      | .applied => ([], [])
      | .reported errors => ([], [⟨.warning, path, s!"patch reported errors errors={errors}"⟩])
      | .rolledBack e => ([.warning ("Patch has not been applied: " ++ e.message)], [])
    ⟨.detail patch.info.text :: complaint, one.log ++ remark, one.program⟩

/-- Applies the patches of a run. -/
def applyLoaded (mode : PatchMode) (p : Program) : LoadedPatches → Patching
  | [] => ⟨[], [], p⟩
  | (path, loaded) :: rest =>
    let one := applyFrom mode p path loaded
    let more := applyLoaded mode one.program rest
    ⟨.title ("Applying patch " ++ path) :: one.lines ++ more.lines, one.log ++ more.log, more.program⟩

/-- The bytes of a module that goes to a path. -/
def encodeFor (path : String) (m : Module) : Except RunError (List UInt8) :=
  match m.encode with
  | .ok bytes => .ok bytes
  | .error e => .error (.write path e)

/-- The last part of a run, once the patches are applied. -/
def conclude (cores : Cores) (o : Options) (p : Program) : Draft :=
  match o.mode with
  | .raw =>
    match p.module.verify with
    | .error e => .failed (.verify e)
    | .ok () => ⟨[], [], encodeFor o.output p.module⟩
  | .resolved => .after (.title "Constructing patched bytecode")
    (match p.graph.flatten (o.strategy cores) with
    | .error e => .failed (.flatten e)
    | .ok m => ⟨[], [], encodeFor o.output m⟩)

/-- A run on the content of the input file, up to the bytes that go to the output file. -/
def draft (cores : Cores) (o : Options) (input : Except FileError (List UInt8))
    (patches : LoadedPatches) : Draft :=
  let loaded : Except ModuleError Module := match input with
    | .error e => .error (.file e)
    | .ok bytes => Module.decode bytes
  .after (.title "Reading bytecode")
    (match loaded with
    | .error e => .failed (.read o.input e)
    | .ok m => .after (.title "Parsing bytecode")
      (match m.resolve (o.strategy cores) with
      | .error e => .failed (.resolve e)
      | .ok g =>
        let patched := applyLoaded o.mode ⟨m, g⟩ patches
        let rest := conclude cores o patched.program
        { rest with lines := patched.lines ++ rest.lines, log := patched.log ++ rest.log }))

/-- What a run shows and logs, and how it ends: with a line about the error, if it is one. -/
structure RunReport where
  exit : Nat
  output : String
  log : List LogLine
  error : Option String
  deriving DecidableEq, Repr

/-- The report of a run, given what became of writing the bytes. -/
def Draft.report (d : Draft) (colored : Bool) (outputPath : String)
    (written : Except FileError Unit) : RunReport :=
  let shown (lines : List StatusLine) := String.join (lines.map (·.render colored))
  let failure (e : RunError) : RunReport :=
    { exit := e.failure.exitStatus, output := shown d.lines, log := d.log,
      error := match e.failure with
        | .error => some (errorLine colored e.message)
        | .panic => none }
  match d.result with
  | .error e => failure e
  | .ok _ =>
    match written with
    | .error e => failure (.write outputPath (.file e))
    | .ok () =>
      let last := StatusLine.success ("Patched bytecode written to " ++ outputPath)
      ⟨0, shown (d.lines ++ [last]), d.log, none⟩

/-- The answer to a request for the version. -/
def versionReport : RunReport := ⟨0, "hlpatch 0.1.0\n", [], none⟩

/-- The answer to arguments that make no sense. -/
def misuseReport : RunReport := ⟨2, "", [], none⟩

/-! ## A run on a tree of files -/

/-- The patches that the options ask for. -/
def Options.loadPatches (o : Options) (loader : DynamicLoader) : LoadedPatches :=
  o.patches.map fun path => (path, loader.load path)

namespace FileTree

variable (t : FileTree) (loader : DynamicLoader) (e : Environment)

/-- A run whose files are in a tree. -/
def run (o : Options) : RunReport × FileTree :=
  let colored := isColored e o.color
  let d := draft e.cores o (t.read o.input) (o.loadPatches loader)
  match d.result with
  | .error _ => (d.report colored o.output (.ok ()), t)
  | .ok bytes =>
    match t.write o.output bytes with
    | .error e => (d.report colored o.output (.error e), t)
    | .ok t => (d.report colored o.output (.ok ()), t)

/-- Does what the arguments ask for. -/
def execute (args : List String) : RunReport × FileTree :=
  match Request.ofArguments args with
  | .run options => t.run loader e options
  | .version => (versionReport, t)
  | .misuse => (misuseReport, t)

end FileTree

end HashLink
