import HashLink.Patch.Basic

/-!
# Running patches

Patches run one after another on the same program, each on what the ones before it left. A patch that
does not finish leaves the program as it found it.
-/

namespace HashLink

/-- A program in both of its forms. -/
structure Program where
  module : Module
  graph : Graph
  deriving DecidableEq, Repr

/-- What became of a patch. -/
inductive PatchOutcome where
  /-- It finished and reported no problem. -/
  | applied
  /-- It finished and reported problems. -/
  | reported (errors : Nat)
  /-- It did not finish, and its edits are gone. -/
  | rolledBack (error : PatchError)
  deriving DecidableEq, Repr

/-- Whether the edits of a patch were kept. -/
def PatchOutcome.isKept : PatchOutcome → Bool
  | .rolledBack _ => false
  | .applied | .reported _ => true

/-- How important a line of the log is. -/
inductive Level where
  | info | warning | error
  deriving DecidableEq, Repr

/-- The name of a level. -/
def Level.name : Level → String
  | .info => "INFO"
  | .warning => "WARN"
  | .error => "ERROR"

/-- A line of the log: how important it is, which patch it is about, and what it says. -/
structure LogLine where
  level : Level
  source : String
  text : String
  deriving DecidableEq, Repr

/-- A message of a patch as a line of the log. -/
def Message.toLine (source : String) : Message → LogLine
  | .info text => ⟨.info, source, text⟩
  | .error text => ⟨.error, source, text⟩

/-- A patch and where it comes from. -/
structure SourcedPatch where
  source : String
  patch : Patch

/-- What applying one patch does. -/
structure Application where
  program : Program
  outcome : PatchOutcome
  log : List LogLine

namespace PatchRun

variable {σ : Type}

/-- The form that is kept after a run that started from `before`. -/
def kept (r : PatchRun σ Unit) (before : σ) : σ :=
  match r.result with
  | .ok () => r.state
  | .error _ => before

/-- What became of the patch. -/
def outcome (r : PatchRun σ Unit) : PatchOutcome :=
  match r.result with
  | .error e => .rolledBack e
  | .ok () =>
    match Message.errorCount r.messages with
    | 0 => .applied
    | errors => .reported errors

/-- The log of a run: who runs, what it said, and why it did not finish. -/
def log (r : PatchRun σ Unit) (source : String) (info : PatchInfo) : List LogLine :=
  let ending :=
    match r.result with
    | .ok () => []
    | .error e =>
      [⟨.error, source, e.message⟩, ⟨.warning, source, "patch has not been applied"⟩]
  ⟨.info, source, info.text⟩ :: r.messages.map (·.toLine source) ++ ending

end PatchRun

/-- Applies one patch to a program. -/
def Program.apply (mode : PatchMode) (p : Program) (s : SourcedPatch) : Application :=
  match mode with
  | .raw =>
    let run := s.patch.raw p.graph p.module
    ⟨{ p with module := run.kept p.module }, run.outcome, run.log s.source s.patch.info⟩
  | .resolved =>
    let run := s.patch.resolved p.module p.graph
    ⟨{ p with graph := run.kept p.graph }, run.outcome, run.log s.source s.patch.info⟩

/-- What applying a list of patches does: the program in the end, what became of each patch, and
the log. -/
structure PatchReport where
  program : Program
  outcomes : List (String × PatchOutcome)
  log : List LogLine

/-- How many patches did not finish. -/
def PatchReport.rolledBack (r : PatchReport) : Nat :=
  r.outcomes.countP fun (_, outcome) => !outcome.isKept

/-- Applies patches in order. -/
def Program.applyAll (mode : PatchMode) (p : Program) : List SourcedPatch → PatchReport
  | [] => ⟨p, [], []⟩
  | s :: rest =>
    let one := p.apply mode s
    let more := one.program.applyAll mode rest
    ⟨more.program, (s.source, one.outcome) :: more.outcomes, one.log ++ more.log⟩

end HashLink
