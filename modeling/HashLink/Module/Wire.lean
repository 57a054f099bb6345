import HashLink.Module.Basic
import HashLink.Module.Error
import HashLink.TypeDef.Wire

/-!
# Modules on the wire

The marker, the version, the debug flag, the sizes of all pools and the entry point; then the pools
in the same order, with the list of debug files after the byte blocks. Versions below 5 have no byte
blocks and no count for them. Methods carry debug tables exactly when the flag is set; a table that
is absent is written as an empty one.
-/

namespace HashLink

/-- The first three bytes of a module. -/
def moduleMagic : List UInt8 := [0x48, 0x4C, 0x42]

/-- The versions that can be read. -/
def isSupported (version : UInt8) : Bool := 4 ≤ version && version ≤ 5

/-- What writing a module does. -/
abbrev ModuleOutput := Emission ModuleError UInt8

/-! ## Writing -/

namespace Output

/-- A native. -/
def native (n : Native) : Output :=
  index n.lib ++ index n.name ++ index n.type ++ index n.index

/-- A constant. -/
def constant (c : Constant) : Output :=
  index c.global ++ indices c.fields

/-- The part of a method that does not depend on debug information. -/
def methodCode (m : Method) : Output :=
  index m.type ++ index m.index ++ index m.registers.length ++ index m.instructions.length ++
    .each m.registers index ++ .each m.instructions Instruction.write

/-- The variables of a method. -/
def assigns (as : List VarAssign) : Output :=
  index as.length ++ .each as fun a => index a.name ++ varint a.position

/-- The sizes of the pools and the entry point. -/
def counts (m : Module) : Output :=
  index m.ints.length ++ index m.floats.length ++ index m.strings.length ++
    (if hasBytesPool m.version then index m.bytes.length else .empty) ++
    index m.types.length ++ index m.globals.length ++ index m.natives.length ++
    index m.methods.length ++ index m.constants.length ++ index m.entrypoint

/-- The pools of values. -/
def valuePools (m : Module) : Output :=
  .each m.ints int32 ++ .each m.floats float64 ++ stringPool m.strings ++
    (if hasBytesPool m.version then bytesPool m.bytes else .empty) ++
    (if m.hasDebug then index m.debugFiles.length ++ stringPool m.debugFiles else .empty)

/-- Everything before the methods. -/
def beforeMethods (m : Module) : Output :=
  .ofList (moduleMagic ++ [m.version, if m.hasDebug then 1 else 0]) ++
    counts m ++ valuePools m ++ .each m.types typeDef ++ .each m.globals index ++
    .each m.natives native

end Output

namespace ModuleOutput

/-- Output under the rules of the wire alone. -/
def ofOutput (o : Output) : ModuleOutput := o.mapError .encode

/-- A method. Its positions have to be as many as its instructions. -/
def method (hasDebug : Bool) (m : Method) : ModuleOutput :=
  let positions := m.debug.getD []
  let tables : ModuleOutput :=
    if positions.length = m.instructions.length then
      ofOutput (Output.positions positions ++ Output.assigns (m.assigns.getD []))
    else
      .fail (.debugInfoMismatch m.index positions.length m.instructions.length)
  ofOutput (Output.methodCode m) ++ if hasDebug then tables else .empty

/-- A module whose version has a place for all its pools. -/
def body (m : Module) : ModuleOutput :=
  ofOutput (Output.beforeMethods m) ++ .each m.methods (method m.hasDebug) ++
    ofOutput (.each m.constants Output.constant)

end ModuleOutput

/-- The bytes of a module. -/
def Module.encode (m : Module) : Except ModuleError (List UInt8) :=
  if hasBytesPool m.version ∨ m.bytes = [] then (ModuleOutput.body m).toExcept
  else .error (.bytesPoolUnsupported m.version)

/-! ## Reading -/

namespace Reader

/-- Reads a native. -/
def native : Reader Native := do
  let lib ← index
  let name ← index
  let type ← index
  let function ← index
  return ⟨lib, name, type, function⟩

/-- Reads a constant. -/
def constant : Reader Constant := do
  let global ← index
  let fields ← counted index
  return ⟨global, fields⟩

/-- Reads a variable. -/
def varAssign : Reader VarAssign := do
  let name ← index
  let position ← varint
  return ⟨name, position⟩

/-- Reads a method. -/
def method (hasDebug : Bool) : Reader Method := do
  let type ← index
  let function ← index
  let registerCount ← count
  let instructionCount ← count
  let registers ← times registerCount index
  let instructions ← times instructionCount Instruction.read
  if hasDebug then
    let debug ← positions instructionCount
    let assigns ← counted varAssign
    return ⟨type, function, registers, instructions, some debug, some assigns⟩
  else
    return ⟨type, function, registers, instructions, none, none⟩

/-- Reads what follows the debug flag. -/
def moduleBody (version : UInt8) (hasDebug : Bool) : Reader Module := do
  let intCount ← count
  let floatCount ← count
  let stringCount ← count
  let bytesCount ← if hasBytesPool version then count else pure 0
  let typeCount ← count
  let globalCount ← count
  let nativeCount ← count
  let methodCount ← count
  let constantCount ← count
  let entrypoint ← index
  let ints ← times intCount int32
  let floats ← times floatCount float64
  let strings ← stringPool stringCount
  let bytes ← if hasBytesPool version then bytesPool bytesCount else pure []
  let debugFiles ← if hasDebug then do stringPool (← count) else pure []
  let types ← times typeCount typeDef
  let globals ← times globalCount index
  let natives ← times nativeCount native
  let methods ← times methodCount (method hasDebug)
  let constants ← times constantCount constant
  return { version, hasDebug, ints, floats, strings, bytes, debugFiles, types, globals, natives,
           methods, constants, entrypoint }

end Reader

/-- A reader that can also refuse the marker or the version. -/
abbrev ModuleReader := EStateM ModuleError Cursor

namespace ModuleReader

/-- A reader of the wire format as part of reading a module. -/
def ofReader {α : Type} (r : Reader α) : ModuleReader α := fun c =>
  match r c with
  | .ok a c => .ok a c
  | .error e c => .error (.decode e) c

/-- Reads a module. -/
def read : ModuleReader Module := do
  let magic ← ofReader (Reader.take 3)
  if magic ≠ moduleMagic then throw (.invalidMagic magic)
  let version ← ofReader Reader.byte
  if !isSupported version then throw (.unsupportedVersion version)
  let hasDebug ← ofReader Reader.byte
  ofReader (Reader.moduleBody version (hasDebug != 0))

end ModuleReader

/-- The module that some bytes start with; what follows it does not matter. -/
def Module.decode (bytes : List UInt8) : Except ModuleError Module :=
  match ModuleReader.read (.ofBytes bytes) with
  | .ok m _ => .ok m
  | .error e _ => .error e

end HashLink
