import HashLink.Wire.Error

/-!
# Places and pools

Errors about references say where the reference stands and which pool it points into.
-/

namespace HashLink

/-- A part of a program that can hold references. -/
inductive Location where
  | header
  | entrypoint
  | type (index : Nat)
  | global (index : Nat)
  | native (index : Nat)
  | function (index : Nat)
  | instruction (function position : Nat)
  | constant (index : Nat)
  deriving DecidableEq, Repr

/-- The text of a place. -/
def Location.text : Location → String
  | .header => "header"
  | .entrypoint => "entry point"
  | .type index => s!"type {index}"
  | .global index => s!"global {index}"
  | .native index => s!"native {index}"
  | .function index => s!"function {index}"
  | .instruction owner position => s!"function {owner} instruction {position}"
  | .constant index => s!"constant {index}"

/-- What a reference points into. -/
inductive Pool where
  | int | float | string | bytes | function | global | type | field | register | debugFile
  deriving DecidableEq, Repr

/-- The name of a pool. -/
def Pool.name : Pool → String
  | .int => "int"
  | .float => "float"
  | .string => "string"
  | .bytes => "bytes"
  | .function => "function"
  | .global => "global"
  | .type => "type"
  | .field => "field"
  | .register => "register"
  | .debugFile => "debug file"

end HashLink
