import HashLink.Module.Basic

/-!
# Editing the instructions of a method

An edit of the instruction list takes the debug table along: a new instruction gets the position of
the one it pushes back, and a removed one takes its position with it. A table that has another length
than the instruction list is kept as it is where it has no entry for the place.
-/

namespace HashLink

/-- An instruction position that a method does not have. -/
inductive RangeError where
  /-- Insertion behind the end. -/
  | insertion (index length : Nat)
  /-- Removal where there is nothing. -/
  | removal (index length : Nat)
  deriving DecidableEq, Repr

/-- The text of a position error. -/
def RangeError.message : RangeError → String
  | .insertion index length =>
    s!"insertion index (is {index}) should be <= len (is {length})"
  | .removal index length => s!"removal index (is {index}) should be < len (is {length})"

namespace Method

/-- The position for an instruction inserted at `index`: that of the instruction there, or else of
the one before it, or else the start of the first file. -/
def positionFor (debug : List Position) (index : Nat) : Position :=
  let before := if index = 0 then none else debug[index - 1]?
  (debug[index]? <|> before).getD ⟨0, 0⟩

/-- Inserts an instruction. There is no place behind the end, and a method that is asked for one is left
as it is. -/
def insert (m : Method) (index : Nat) (i : Instruction) : Method × Except RangeError Unit :=
  if index ≤ m.instructions.length then
    ({ m with
      instructions := m.instructions.insertIdx index i
      debug := m.debug.map fun debug =>
        debug.insertIdx (min index debug.length) (positionFor debug index) }, .ok ())
  else (m, .error (.insertion index m.instructions.length))

/-- Removes an instruction. The debug entry at its place goes in any case, also when there is no
such instruction. -/
def remove (m : Method) (index : Nat) : Method × Except RangeError Instruction :=
  let m := { m with debug := m.debug.map (·.eraseIdx index) }
  match m.instructions[index]? with
  | some i => ({ m with instructions := m.instructions.eraseIdx index }, .ok i)
  | none => (m, .error (.removal index m.instructions.length))

/-- Replaces an instruction, with the same position. -/
def set? (m : Method) (index : Nat) (i : Instruction) : Option Method :=
  if index < m.instructions.length then
    some { m with instructions := m.instructions.set index i }
  else none

end Method

/-- Changes the first method with a function index. -/
def Module.updateMethod (m : Module) (index : Nat) (f : Method → Method) : Module :=
  { m with methods := m.methods.modify (m.methods.findIdx (·.index == index)) f }

/-- Replaces the first method with a function index. -/
def Module.setMethod (m : Module) (index : Nat) (f : Method) : Module :=
  m.updateMethod index fun _ => f

end HashLink
