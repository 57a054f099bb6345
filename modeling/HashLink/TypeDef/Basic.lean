/-!
# Type descriptors

A descriptor names other things: strings, types, functions and global slots. A stored module
names them by index; a resolved program holds the strings themselves and says plainly when there is no
superclass or no global. Both are the same descriptors, so the type is one, over what stands for
a name, for a superclass and for a global slot.

Kinds that carry the same data are one constructor: functions and methods, objects and structs, and the
three wrappers around another type.
-/

namespace HashLink

/-- Types without parts. -/
inductive AtomKind where
  | void | u8 | u16 | i32 | i64 | f32 | f64 | bool | bytes | dyn | array | type | dynObj
  deriving DecidableEq, Repr

/-- Types with a signature. -/
inductive CallableKind where
  | function | method
  deriving DecidableEq, Repr

/-- Types with fields and a dispatch table. -/
inductive ObjectKind where
  | object | struct
  deriving DecidableEq, Repr

/-- Types around one other type. -/
inductive WrapperKind where
  | ref | null | packed
  deriving DecidableEq, Repr

/-- The kind of a type. -/
inductive TypeKind where
  | atom (kind : AtomKind)
  | callable (kind : CallableKind)
  | object (kind : ObjectKind)
  | wrapper (kind : WrapperKind)
  | virtual
  | abstract
  | enum
  deriving DecidableEq, Repr

namespace TypeKind

/-- Every kind, in the order of the tags. -/
def all : List TypeKind :=
  [.atom .void, .atom .u8, .atom .u16, .atom .i32, .atom .i64, .atom .f32, .atom .f64, .atom .bool,
   .atom .bytes, .atom .dyn, .callable .function, .object .object, .atom .array, .atom .type,
   .wrapper .ref, .virtual, .atom .dynObj, .abstract, .enum, .wrapper .null, .callable .method,
   .object .struct, .wrapper .packed]

/-- The byte that stands for a kind on the wire. -/
def tag (k : TypeKind) : Nat := all.idxOf k

/-- The kind of a tag. -/
def ofTag? (tag : Nat) : Option TypeKind := all[tag]?

@[simp] theorem ofTag?_tag (k : TypeKind) : ofTag? k.tag = some k := by
  cases k with
  | atom a => cases a <;> rfl
  | callable c => cases c <;> rfl
  | object o => cases o <;> rfl
  | wrapper w => cases w <;> rfl
  | virtual | abstract | enum => rfl

/-- The name of a kind. -/
def name : TypeKind → String
  | .atom .void => "Void"
  | .atom .u8 => "U8"
  | .atom .u16 => "U16"
  | .atom .i32 => "I32"
  | .atom .i64 => "I64"
  | .atom .f32 => "F32"
  | .atom .f64 => "F64"
  | .atom .bool => "Bool"
  | .atom .bytes => "Bytes"
  | .atom .dyn => "Dyn"
  | .atom .array => "Array"
  | .atom .type => "Type"
  | .atom .dynObj => "DynObj"
  | .callable .function => "Fun"
  | .callable .method => "Method"
  | .object .object => "Obj"
  | .object .struct => "Struct"
  | .wrapper .ref => "Ref"
  | .wrapper .null => "Null"
  | .wrapper .packed => "Packed"
  | .virtual => "Virtual"
  | .abstract => "Abstract"
  | .enum => "Enum"

/-- The kind of a name. -/
def ofName? (name : String) : Option TypeKind := all.find? (·.name == name)

end TypeKind

/-- Argument types and the result type. -/
structure Signature where
  args : List Nat
  result : Nat
  deriving DecidableEq, Repr

/-- A field: its name and its type. -/
structure Field (ν : Type) where
  name : ν
  type : Nat
  deriving DecidableEq, Repr

/-- An entry of a dispatch table: a named function, and its slot if it can be overridden. -/
structure Proto (ν : Type) where
  name : ν
  function : Nat
  slot : Int32
  deriving DecidableEq, Repr

/-- A field whose value is a function. The field counts from the first inherited one. -/
structure Binding where
  field : Nat
  function : Nat
  deriving DecidableEq, Repr

/-- An object or a struct; `ν` stands for names, `σ` for a superclass and `γ` for a global slot. -/
structure ObjectDef (ν σ γ : Type) where
  name : ν
  super : σ
  global : γ
  fields : List (Field ν)
  protos : List (Proto ν)
  bindings : List Binding
  deriving DecidableEq, Repr

/-- A constructor of an enum: its name and the types of its parameters. -/
structure Construct (ν : Type) where
  name : ν
  params : List Nat
  deriving DecidableEq, Repr

/-- An enum. -/
structure EnumDef (ν γ : Type) where
  name : ν
  global : γ
  constructs : List (Construct ν)
  deriving DecidableEq, Repr

/-- A type descriptor. -/
inductive TypeDef (ν σ γ : Type) where
  | atom (kind : AtomKind)
  | callable (kind : CallableKind) (signature : Signature)
  | object (kind : ObjectKind) (layout : ObjectDef ν σ γ)
  | wrapper (kind : WrapperKind) (inner : Nat)
  | virtual (fields : List (Field ν))
  | abstract (name : ν)
  | enum (layout : EnumDef ν γ)
  deriving DecidableEq, Repr

namespace TypeDef

variable {ν σ γ : Type}

/-- The kind of a descriptor. -/
def kind : TypeDef ν σ γ → TypeKind
  | .atom kind => .atom kind
  | .callable kind _ => .callable kind
  | .object kind _ => .object kind
  | .wrapper kind _ => .wrapper kind
  | .virtual _ => .virtual
  | .abstract _ => .abstract
  | .enum _ => .enum

/-- The layout of an object or a struct. -/
def object? : TypeDef ν σ γ → Option (ObjectDef ν σ γ)
  | .object _ layout => some layout
  | _ => none

/-- The signature of a function or a method. -/
def signature? : TypeDef ν σ γ → Option Signature
  | .callable _ signature => some signature
  | _ => none

/-- The global slot of a type that can have one. -/
def global? : TypeDef ν σ γ → Option γ
  | .object _ layout => some layout.global
  | .enum layout => some layout.global
  | _ => none

/-- The name of a type that has one. -/
def name? : TypeDef ν σ γ → Option ν
  | .object _ layout => some layout.name
  | .abstract name => some name
  | .enum layout => some layout.name
  | _ => none

end TypeDef

/-! ## Stored descriptors -/

/-- A descriptor as a module stores it: names are string indices, a negative superclass is none, and
global slots count from 1, with 0 for none. -/
abbrev RawType := TypeDef Nat Int32 Nat

/-- The superclass that a stored number stands for. -/
def superclass? (super : Int32) : Option Nat :=
  if super < 0 then none else some super.toInt.toNat

/-- The global that a stored slot stands for. -/
def globalSlot? : Nat → Option Nat
  | 0 => none
  | slot + 1 => some slot

end HashLink
