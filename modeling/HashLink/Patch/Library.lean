import HashLink.Patch.Basic

/-!
# Patch libraries

A patch comes in a library, which the dynamic loader of the system opens. The loader is not part of
this program, so what it answers for a path is a parameter here. An open library has two exports: one
tells which interface the library was made for, the other one makes the patch.
-/

namespace HashLink

/-- The version of the interface between this program and its patches. -/
def patchInterface : UInt32 := 1

/-- The name of the export that tells the interface of a library. -/
def interfaceExport : String := "hlpatch_abi_version"

/-- The name of the export that makes the patch. -/
def constructorExport : String := "hlpatch_create_patch"

/-- An open library: what its exports give when they are called, or why the loader does not find
them. A constructor may give nothing. -/
structure PatchLibrary where
  interface : Except String UInt32
  construct : Except String (Option Patch)

/-- A dynamic loader: the library at a path, or why it cannot be opened. -/
abbrev DynamicLoader := String → Except String PatchLibrary

/-- Why there is no patch from a library. -/
inductive LoadError where
  /-- The loader rejects the file. -/
  | cannotOpen (reason : String)
  /-- The library has no export of this name. -/
  | missingExport (symbol reason : String)
  /-- The library was made for another interface. -/
  | otherInterface (found expected : UInt32)
  /-- The constructor gives nothing. -/
  | noPatch (symbol : String)
  /-- The path holds a zero character. No loader is asked about such a path. -/
  | unusablePath (path : String)
  deriving DecidableEq, Repr

/-- The text of a load error. -/
def LoadError.message : LoadError → String
  | .cannotOpen reason => "cannot open library: " ++ reason
  | .missingExport symbol reason => s!"missing export {symbol}: {reason}"
  | .otherInterface found expected =>
    s!"plugin interface version {found.toNat}, expected {expected.toNat}"
  | .noPatch symbol => symbol ++ " returned null"
  | .unusablePath path => "unusable path " ++ path

namespace DynamicLoader

/-- Has the library at a path make its patch. -/
def construct (loader : DynamicLoader) (path : String) : Except LoadError Patch :=
  if '\x00' ∈ path.toList then .error (.unusablePath path)
  else do
    let library ← (loader path).mapError .cannotOpen
    let found ← library.interface.mapError (.missingExport interfaceExport)
    if found ≠ patchInterface then .error (.otherInterface found patchInterface)
    else
      match ← library.construct.mapError (.missingExport constructorExport) with
      | some patch => .ok patch
      | none => .error (.noPatch constructorExport)

/-- Loads the patch at a path. -/
def load (loader : DynamicLoader) (path : String) : Except PatchError Patch :=
  (loader.construct path).mapError fun e => .load path e.message

end DynamicLoader

end HashLink
