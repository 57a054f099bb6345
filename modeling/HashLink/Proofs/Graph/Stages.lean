import HashLink.Proofs.Graph.References

/-!
# The stages of resolving and flattening

Both directions go through the parts of a program one after another, and each of them succeeds
exactly when every stage does. How the work is shared out and where an error would have been
located is gone from the conditions.
-/

namespace HashLink

/-! ## Functions in parts -/

/-- A function without its code and without the name that a type gives it. -/
def Function.header (f : Function) : Function :=
  f.mapRoutine fun r => { name := none, parent := none, registers := r.registers, ops := [] }

/-- The code of a function; a native has none. -/
def Function.ops (f : Function) : List Op :=
  match f.routine? with
  | some r => r.ops
  | none => []

/-- The instructions of a function record; a native has none. -/
def FunctionRecord.instructions : FunctionRecord → List Instruction
  | .native _ => []
  | .method f => f.instructions

theorem Module.resolveCode_eq_ok_iff {m : Module} {id : Nat} {r : FunctionRecord} {ops : List Op} :
    m.resolveCode id r = .ok ops ↔ r.instructions.mapM m.resolveInstruction = .ok ops := by
  cases r with
  | native n => simp [resolveCode, FunctionRecord.instructions]
  | method f => exact mapM_located_eq_ok_iff

theorem Inventory.flattenMethod_method_eq_ok_iff {has : Inventory} {p : ValuePools} {index : Nat}
    {type : Nat} {r : Routine} {method : Option Method} :
    has.flattenMethod p index ⟨type, .method r⟩ = .ok method ↔
      ∃ instructions, r.ops.mapM (has.flattenOp p) = .ok instructions ∧ type < has.types ∧
        (∀ t ∈ r.registers, t < has.types) ∧
        method = some { type, index, registers := r.registers, instructions,
                        debug := some (List.replicate instructions.length ⟨0, 0⟩),
                        assigns := some [] } := by
  simp only [flattenMethod, bind_eq_ok_iff, mapM_located_eq_ok_iff, located_eq_ok_iff,
    typeRef_eq_ok_iff, typeRefs_eq_ok_iff, pure_eq_ok, Except.ok.injEq]
  constructor
  · rintro ⟨instructions, hops, _, ⟨htype, rfl⟩, _, ⟨hregisters, rfl⟩, rfl⟩
    exact ⟨instructions, hops, htype, hregisters, rfl⟩
  · rintro ⟨instructions, hops, htype, hregisters, rfl⟩
    exact ⟨instructions, hops, _, ⟨htype, rfl⟩, _, ⟨hregisters, rfl⟩, rfl⟩

/-! ## Flattening -/

/-- The parts that a graph is flattened to, one after another. -/
structure Graph.FlattenStages (g : Graph) (m : Module) (ns : List (Option Native))
    (p : ValuePools) (fs : List (Option Method)) : Prop where
  types : g.types.mapM g.inventory.flattenType = .ok m.types
  globals : ∀ type ∈ g.globals, type < g.types.length
  natives : (g.functions.zipIdx.mapM fun (f, i) => g.inventory.flattenNative i f) = .ok ns
  constants : g.constants.mapM g.inventory.flattenConstant = .ok m.constants
  pools : g.inventory.valuePools (g.functions.map Function.poolValues) = .ok p
  methods : (g.functions.zipIdx.mapM fun (f, i) => g.inventory.flattenMethod p i f) = .ok fs
  entrypoint : g.entrypoint < g.functions.length
  module_eq : m = { version := g.version, hasDebug := true, ints := p.ints, floats := p.floats,
                    strings := p.strings, bytes := p.bytes, debugFiles := [placeholderFile],
                    types := m.types, globals := g.globals, natives := ns.filterMap id,
                    methods := fs.filterMap id, constants := m.constants,
                    entrypoint := g.entrypoint }

/-- The search for values cannot fail. -/
theorem Graph.traverse_poolValues (s : Strategy) (g : Graph) :
    s.traverse (fun _ f => (.ok f.poolValues : Except GraphError _)) g.functions =
      .ok (g.functions.map Function.poolValues) := by
  rw [Strategy.traverse_eq_mapM]
  exact (mapM_zipIdx_eq_ok_iff (f := fun _ f => .ok (Function.poolValues f))
    (g := fun f => (.ok f.poolValues : Except GraphError _)) fun _ _ _ => Iff.rfl).mpr
    List.mapM_pure

/-- **A graph can be flattened exactly when every part of it can.** -/
theorem Graph.flatten_eq_ok_iff {s : Strategy} {g : Graph} {m : Module} :
    g.flatten s = .ok m ↔ ∃ natives p methods, g.FlattenStages m natives p methods := by
  have hnatives (natives : List (Option Native)) :
      (g.functions.zipIdx.mapM fun (f, i) =>
        located (.function i) (g.inventory.flattenNative i f)) = .ok natives ↔
      (g.functions.zipIdx.mapM fun (f, i) => g.inventory.flattenNative i f) = .ok natives :=
    mapM_eq_ok_congr fun _ _ => located_eq_ok_iff
  unfold Graph.flatten
  simp only [traverse_poolValues]
  simp only [bind_eq_ok_iff, mapM_located_eq_ok_iff, located_eq_ok_iff, hnatives,
    Inventory.typeRefs_eq_ok_iff, Inventory.functionRef_eq_ok_iff, Strategy.traverse_eq_mapM,
    pure_eq_ok, Except.ok.injEq]
  constructor
  · intro h
    obtain ⟨types, htypes, _, ⟨hglobals, rfl⟩, natives, hnatives, constants, hconstants, _, rfl, p, hp,
      methods, hmethods, _, ⟨hentry, rfl⟩, rfl⟩ := h
    exact ⟨natives, p, methods, htypes, hglobals, hnatives, hconstants, hp, hmethods, hentry, rfl⟩
  · intro h
    obtain ⟨natives, p, methods, htypes, hglobals, hnatives, hconstants, hp, hmethods, hentry, hm⟩ := h
    exact ⟨_, htypes, _, ⟨hglobals, rfl⟩, natives, hnatives, _, hconstants, _, rfl, p, hp, methods,
      hmethods, _, ⟨hentry, rfl⟩, hm.symm⟩

/-! ## Resolving -/

theorem Module.traverse_resolveCode_eq_ok_iff {s : Strategy} {m : Module}
    {table : List FunctionRecord} {code : List (List Op)} :
    s.traverse m.resolveCode table = .ok code ↔
      (table.mapM fun r => r.instructions.mapM m.resolveInstruction) = .ok code := by
  rw [Strategy.traverse_eq_mapM]
  exact mapM_zipIdx_eq_ok_iff fun _ _ _ => resolveCode_eq_ok_iff

/-- The parts that a module is resolved to, one after another. -/
structure Module.ResolveStages (m : Module) (g : Graph) (rs : List FunctionRecord)
    (hs fs : List Function) (ops : List (List Op)) : Prop where
  table : m.functionTable = .ok rs
  types : m.types.mapM m.resolveType = .ok g.types
  globals : ∀ type ∈ m.globals, type < m.types.length
  headers : rs.mapM m.resolveHeader = .ok hs
  constants : m.constants.mapM m.resolveConstant = .ok g.constants
  entrypoint : m.entrypoint < m.functionCount
  named : nameMethods g.types hs = .ok fs
  code : (rs.mapM fun r => r.instructions.mapM m.resolveInstruction) = .ok ops
  version_eq : g.version = m.version
  globals_eq : g.globals = m.globals
  entrypoint_eq : g.entrypoint = m.entrypoint
  functions_eq : g.functions = fs.zipWith Function.withOps ops

/-- **A module can be resolved exactly when every part of it can.** -/
theorem Module.resolve_eq_ok_iff {s : Strategy} {m : Module} {g : Graph} :
    m.resolve s = .ok g ↔ ∃ table headers named code, m.ResolveStages g table headers named code := by
  unfold Module.resolve
  simp only [bind_eq_ok_iff, unlocated_eq_ok_iff, Strategy.traverse_eq_ok_iff,
    mapM_located_eq_ok_iff, located_eq_ok_iff, typeRefs_eq_ok_iff, functionRef_eq_ok_iff,
    traverse_resolveCode_eq_ok_iff, pure_eq_ok, Except.ok.injEq]
  constructor
  · intro h
    obtain ⟨table, htable, types, htypes, _, ⟨hglobals, rfl⟩, headers, hheaders, constants, hconstants, _,
      ⟨hentry, rfl⟩, named, hnamed, code, hcode, rfl⟩ := h
    exact ⟨table, headers, named, code, htable, htypes, hglobals, hheaders, hconstants, hentry, hnamed,
      hcode, rfl, rfl, rfl, rfl⟩
  · intro h
    obtain ⟨version, types, functions, globals, constants, entrypoint⟩ := g
    obtain ⟨table, headers, named, code, htable, htypes, hglobals, hheaders, hconstants, hentry, hnamed,
      hcode, rfl, rfl, rfl, rfl⟩ := h
    exact ⟨table, htable, types, htypes, _, ⟨hglobals, rfl⟩, headers, hheaders, constants,
      hconstants, _, ⟨hentry, rfl⟩, named, hnamed, code, hcode, rfl⟩

end HashLink
