import HashLink.Module.Edit
import HashLink.Patch.Basic

/-!
# Infinite jumps

A player may jump in mid-air as long as a counter allows it, and `get_airJumps` reads the counter with
a field load at position 2. This patch makes the method report zero by loading the constant 0 there
instead.
-/

namespace HashLink.InfiniteJumps

/-- The method that reads the counter. -/
def getter : String := "get_airJumps"

/-- Where the method loads the counter. -/
def counterLoad : Nat := 2

/-- The first method with the name. -/
def findGetter? (g : Graph) : Option Nat :=
  g.methodIds.find? fun id => (g.routine? id).bind (·.name) == some getter

/-- Runs a step on the method, or reports that there is none. -/
def withGetter {σ : Type} (g : Graph) (step : Nat → PatchM σ Unit) : PatchM σ Unit :=
  match findGetter? g with
  | some id => step id
  | none => .say (.error (getter ++ " not found"))

/-- Gives up because something else stands where the counter should be loaded. -/
def unexpected {σ : Type} (found : String) : PatchM σ Unit :=
  .fail s!"expected a field load at {counterLoad} in {getter}, found {found}"

/-- Gives up because the function has no code. -/
def notAMethod {σ : Type} (id : Nat) : PatchM σ Unit :=
  .fail s!"function {id} is not a method"

/-- The register that an op loads a field into, if it is a field load. -/
def fieldLoad? (op : Op) : Option UInt32 :=
  match op.opcode, op.operands with
  | .field, .register dst :: _ => some dst
  | _, _ => none

/-- The edit of the graph. -/
def resolved : PatchM Graph Unit := do
  let g ← PatchM.get
  withGetter g fun id =>
    match g.routine? id with
    | none => notAMethod id
    | some routine =>
      let found := routine.ops[counterLoad]?
      match found.bind fieldLoad? with
      | none => unexpected (optionText Op.text found)
      | some dst => do
        PatchM.set (g.updateRoutine id fun r =>
          { r with ops := r.ops.set counterLoad (Op.int dst 0) })
        PatchM.say (.info (getter ++ " now returns 0"))

/-- The register argument of a raw instruction, if it is a field load. -/
def rawFieldLoad? (i : Instruction) : Option Int32 :=
  if i.opcode = .field then i.args.head? else none

/-- The index of zero in a pool of integers, and the pool with a zero in it. -/
def zeroIn (ints : List Int32) : Nat × List Int32 :=
  match ints.idxOf? 0 with
  | some index => (index, ints)
  | none => (ints.length, ints ++ [0])

/-- The edit of the module. The pool has its zero before the method is looked up: a step that gives up
after that relies on the runner to take the zero back. -/
def raw (g : Graph) : PatchM Module Unit :=
  withGetter g fun id => do
    let m ← PatchM.get
    let (index, ints) := zeroIn m.ints
    PatchM.set { m with ints }
    match m.findMethod? id with
    | none => notAMethod id
    | some method =>
      let found := method.instructions[counterLoad]?
      match found.bind rawFieldLoad? with
      | none => unexpected (optionText Instruction.text found)
      | some dst => do
        let load : Instruction := ⟨.int, [dst, Int32.ofNat index]⟩
        PatchM.set ({ m with ints }.updateMethod id fun f =>
          { f with instructions := f.instructions.set counterLoad load })
        PatchM.say (.info s!"{getter} now returns int #{index}")

/-- The patch. -/
def patch : Patch where
  info := ⟨"Infinite Jumps", "hlpatch", "1.0"⟩
  raw := raw
  resolved := fun _ => resolved

end HashLink.InfiniteJumps
