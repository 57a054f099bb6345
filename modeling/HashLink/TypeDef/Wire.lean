import HashLink.TypeDef.Basic
import HashLink.Wire.Varint

/-!
# Type descriptors on the wire

A byte for the kind and then the parts of the kind. Lists have their count in front of them, except
that an object announces its three lists together before the first one starts.
-/

namespace HashLink

namespace Output

/-- A list of indices with its count. -/
def indices (xs : List Nat) : Output := index xs.length ++ .each xs index

/-- Fields without a count. -/
def fields (fs : List (Field Nat)) : Output :=
  .each fs fun f => index f.name ++ index f.type

/-- Dispatch entries without a count. -/
def protos (ps : List (Proto Nat)) : Output :=
  .each ps fun p => index p.name ++ index p.function ++ varint p.slot

/-- Bindings without a count. -/
def bindings (bs : List Binding) : Output :=
  .each bs fun b => index b.field ++ index b.function

/-- The layout of an object. -/
def objectDef (o : ObjectDef Nat Int32 Nat) : Output :=
  index o.name ++ varint o.super ++ index o.global ++
    index o.fields.length ++ index o.protos.length ++ index o.bindings.length ++
    fields o.fields ++ protos o.protos ++ bindings o.bindings

/-- The layout of an enum. -/
def enumDef (e : EnumDef Nat Nat) : Output :=
  index e.name ++ index e.global ++ index e.constructs.length ++
    .each e.constructs fun c => index c.name ++ indices c.params

/-- The parts of a descriptor. -/
def typeParts : RawType → Output
  | .atom _ => .empty
  | .callable _ signature => indices signature.args ++ index signature.result
  | .object _ layout => objectDef layout
  | .wrapper _ inner => index inner
  | .virtual fs => index fs.length ++ fields fs
  | .abstract name => index name
  | .enum layout => enumDef layout

/-- A descriptor. -/
def typeDef (t : RawType) : Output :=
  .ofList [UInt8.ofNat t.kind.tag] ++ typeParts t

end Output

namespace Reader

/-- Reads a signature. -/
def signature : Reader Signature := do
  let args ← counted index
  let result ← index
  return ⟨args, result⟩

/-- Reads a field. -/
def field : Reader (Field Nat) := do
  let name ← index
  let type ← index
  return ⟨name, type⟩

/-- Reads a dispatch entry. -/
def proto : Reader (Proto Nat) := do
  let name ← index
  let function ← index
  let slot ← varint
  return ⟨name, function, slot⟩

/-- Reads a binding. -/
def binding : Reader Binding := do
  let field ← index
  let function ← index
  return ⟨field, function⟩

/-- Reads the layout of an object. -/
def objectDef : Reader (ObjectDef Nat Int32 Nat) := do
  let name ← index
  let super ← varint
  let global ← index
  let fieldCount ← count
  let protoCount ← count
  let bindingCount ← count
  let fields ← times fieldCount field
  let protos ← times protoCount proto
  let bindings ← times bindingCount binding
  return { name, super, global, fields, protos, bindings }

/-- Reads a constructor of an enum. -/
def construct : Reader (Construct Nat) := do
  let name ← index
  let params ← counted index
  return ⟨name, params⟩

/-- Reads the layout of an enum. -/
def enumDef : Reader (EnumDef Nat Nat) := do
  let name ← index
  let global ← index
  let constructs ← counted construct
  return { name, global, constructs }

/-- Reads the parts of a descriptor of the given kind. -/
def typeParts : TypeKind → Reader RawType
  | .atom kind => return .atom kind
  | .callable kind => return .callable kind (← signature)
  | .object kind => return .object kind (← objectDef)
  | .wrapper kind => return .wrapper kind (← index)
  | .virtual => return .virtual (← counted field)
  | .abstract => return .abstract (← index)
  | .enum => return .enum (← enumDef)

/-- Reads a descriptor. -/
def typeDef : Reader RawType := do
  let offset ← position
  let tag ← byte
  match TypeKind.ofTag? tag.toNat with
  | some kind => typeParts kind
  | none => throw (.unknownTypeKind tag offset)

end Reader

end HashLink
