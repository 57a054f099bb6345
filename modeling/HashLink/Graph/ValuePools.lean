import HashLink.Graph.Basic
import HashLink.Module.Basic

/-!
# The pools of a flattened program

A flattened program keeps every value once, where it is first mentioned. Names come first: those
of types, then of natives, then the values of constants. The values that instructions mention follow
in the order of the code.
-/

namespace HashLink

/-- Adds a value to a pool that does not hold it yet. -/
def intern {α : Type} [DecidableEq α] (pool : List α) (value : α) : List α :=
  if value ∈ pool then pool else pool ++ [value]

/-- The strings that a type mentions. -/
def typeNames : GraphType → List String
  | .object _ layout =>
    layout.name :: layout.fields.map (·.name) ++ layout.protos.map (·.name)
  | .virtual fields => fields.map (·.name)
  | .abstract name => [name]
  | .enum layout => layout.name :: layout.constructs.map (·.name)
  | .atom _ | .callable _ _ | .wrapper _ _ => []

/-- The strings that a function mentions outside its code. -/
def Function.names (f : Function) : List String :=
  match f.body with
  | .native lib name => [lib, name]
  | .method _ => []

namespace Graph

/-- Every string that is mentioned outside the code, in order. -/
def names (g : Graph) : List String :=
  g.types.flatMap typeNames ++ g.functions.flatMap (·.names) ++ g.constants.map (·.value)

/-- The pool of those strings. -/
def namePool (g : Graph) : List String := g.names.foldl intern []

end Graph

/-- The pools of values. -/
structure ValuePools where
  ints : List Int32 := []
  floats : List UInt64 := []
  strings : List String := []
  bytes : List (List UInt8) := []
  deriving DecidableEq, Repr

namespace ValuePools

/-- Adds a value to its pool. A version without a pool of byte blocks keeps them as strings. -/
def add (version : UInt8) (pools : ValuePools) : PoolValue → Except Fault ValuePools
  | .int value => .ok { pools with ints := intern pools.ints value }
  | .float bits => .ok { pools with floats := intern pools.floats bits }
  | .string value => .ok { pools with strings := intern pools.strings value }
  | .bytes value =>
    if hasBytesPool version then .ok { pools with bytes := intern pools.bytes value }
    else
      match ofUtf8? value with
      | some text => .ok { pools with strings := intern pools.strings text }
      | none => .error (.bytesNotUtf8 version)

/-- Adds the values of one function. -/
def addAll (version : UInt8) (pools : ValuePools) (values : List PoolValue) :
    Except Fault ValuePools :=
  values.foldlM (add version) pools

end ValuePools

/-- The values that the code of a function mentions. -/
def Function.poolValues (f : Function) : List PoolValue :=
  match f.routine? with
  | some r => r.ops.filterMap (·.poolValue?)
  | none => []

end HashLink
