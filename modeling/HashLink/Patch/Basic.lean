import HashLink.Graph.Basic
import HashLink.Module.Basic
import HashLink.Module.Error

/-!
# Patches

A patch edits a program in one of its two forms: the module (raw) or the graph (resolved). While it
runs it may send messages, and it may stop early, either because it gives up or because it breaks. A
patch that knows only one of the forms says so when it is asked for the other.
-/

namespace HashLink

/-- Which form of a program patches edit. -/
inductive PatchMode where
  | raw | resolved
  deriving DecidableEq, Repr

/-- The name of a mode. -/
def PatchMode.name : PatchMode → String
  | .raw => "raw"
  | .resolved => "resolved"

/-- What a patch says about itself. -/
structure PatchInfo where
  name : String
  author : String
  version : String
  deriving DecidableEq, Repr

/-- One line about a patch. -/
def PatchInfo.text (i : PatchInfo) : String :=
  i.name ++ " " ++ i.version ++ " by " ++ i.author

/-- A message of a patch. -/
inductive Message where
  | info (text : String)
  | error (text : String)
  deriving DecidableEq, Repr

namespace Message

/-- Whether a message reports a problem. -/
def isError : Message → Bool
  | .error _ => true
  | .info _ => false

/-- How many problems a list of messages reports. -/
def errorCount (messages : List Message) : Nat := messages.countP isError

/-- One line about the messages so far. -/
def summary (messages : List Message) : String :=
  s!"PatchLogger \x7b errors: {errorCount messages}, .. \x7d"

end Message

/-- Why a patch did not finish. -/
inductive PatchError where
  /-- The patch gave up. -/
  | failed (reason : String)
  /-- The patch broke. -/
  | panicked (reason : String)
  /-- A lookup in the graph failed. -/
  | graph (cause : GraphError)
  /-- Loading or saving a module failed. -/
  | module (cause : ModuleError)
  /-- The library of the patch could not be loaded. -/
  | load (path reason : String)
  deriving DecidableEq, Repr

/-- The text of a patch error. -/
def PatchError.message : PatchError → String
  | .failed reason => reason
  | .panicked reason => "patch panicked: " ++ reason
  | .graph cause => cause.message
  | .module cause => cause.message
  | .load path reason => s!"cannot load patch library {path}: {reason}"

/-- How a run of a patch ended: what it said, the form it leaves behind, and a result unless it
stopped early. -/
structure PatchRun (σ α : Type) where
  messages : List Message
  state : σ
  result : Except PatchError α

/-- A step of a patch that edits a `σ`. -/
def PatchM (σ α : Type) : Type := σ → PatchRun σ α

namespace PatchM

variable {σ α β : Type}

/-- Does nothing. -/
protected def pure (a : α) : PatchM σ α := fun s => ⟨[], s, .ok a⟩

/-- One step after another, unless the first one stopped. -/
protected def bind (x : PatchM σ α) (f : α → PatchM σ β) : PatchM σ β := fun s =>
  let first := x s
  match first.result with
  | .error e => ⟨first.messages, first.state, .error e⟩
  | .ok a =>
    let second := f a first.state
    ⟨first.messages ++ second.messages, second.state, second.result⟩

instance : Monad (PatchM σ) where
  pure := PatchM.pure
  bind := PatchM.bind

/-- Stops early. -/
def stop (e : PatchError) : PatchM σ α := fun s => ⟨[], s, .error e⟩

/-- Gives up. -/
def fail (reason : String) : PatchM σ α := stop (.failed reason)

/-- Breaks, with a text unless there is none to show. -/
def panic (reason : Option String) : PatchM σ α :=
  stop (.panicked (reason.getD "unknown panic payload"))

/-- Sends a message. -/
def say (message : Message) : PatchM σ Unit := fun s => ⟨[message], s, .ok ()⟩

/-- The form that is edited. -/
def get : PatchM σ σ := fun s => ⟨[], s, .ok s⟩

/-- Changes the form that is edited. -/
def set (s : σ) : PatchM σ Unit := fun _ => ⟨[], s, .ok ()⟩

end PatchM

/-- A patch. In raw mode it may look at the graph, in resolved mode at the module. -/
structure Patch where
  info : PatchInfo
  raw : Graph → PatchM Module Unit :=
    fun _ => .say (.error "This patch cannot be applied to raw bytecode")
  resolved : Module → PatchM Graph Unit :=
    fun _ => .say (.error "This patch cannot be applied to resolved bytecode")

end HashLink
