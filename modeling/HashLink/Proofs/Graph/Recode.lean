import HashLink.Proofs.Graph.SingleEdit
import HashLink.Proofs.Module.RoundTrip

/-!
# Modules that differ in their code

Two modules have the same declarations, and the code of the second is an edit of the code of the
first, method by method. Then their graphs differ by the edit alone (`Module.Preserves.resolve`): types,
constants and headers resolve alike, so methods get the same names, and the code is what the edit makes
of it. The second module may have more in its pools of values, since a pool that grows at its end leaves
every index where it was. More may resolve then than before, but what did resolve still gives the same
(`Keeps`).

The uses are a module and its form on the wire, where the edit does nothing, a module in which one
instruction was replaced, and one to which entries were added that nothing refers to.
-/

namespace HashLink

/-! ## Steps that keep what they give -/

/-- Where the first step succeeds, the second one gives the same. -/
def Keeps {ε α : Type} (x y : Except ε α) : Prop := ∀ a, x = .ok a → y = .ok a

section Keeps

variable {ε α β : Type}

theorem Keeps.of_eq {x y : Except ε α} (h : y = x) : Keeps x y := fun _ hx => h.trans hx

theorem Keeps.bind {x y : Except ε α} {f g : α → Except ε β} (h : Keeps x y)
    (hnext : ∀ a, Keeps (f a) (g a)) : Keeps (x >>= f) (y >>= g) := by
  intro b hb
  obtain ⟨a, ha, hb⟩ := bind_eq_ok_iff.mp hb
  exact bind_eq_ok_iff.mpr ⟨a, h a ha, hnext a b hb⟩

/-- A last step that cannot fail changes nothing. -/
theorem Keeps.andReturn {x y : Except ε α} (h : Keeps x y) (f : α → β) :
    Keeps (do return f (← x)) (do return f (← y)) :=
  h.bind fun _ => .of_eq rfl

theorem Keeps.mapM {f g : α → Except ε β} (h : ∀ a, Keeps (f a) (g a)) (xs : List α) :
    Keeps (xs.mapM f) (xs.mapM g) := by
  intro ys hys
  rw [mapM_eq_ok_iff] at hys ⊢
  exact hys.imp fun a b hab => h a b hab

end Keeps

/-! ## What stays -/

/-- An index that leads to an entry still does when the pool has grown. -/
theorem getElem?_of_isPrefix {α : Type} {pool more : List α} (h : pool <+: more) {i : Nat} {a : α}
    (ha : pool[i]? = some a) : more[i]? = some a := by
  obtain ⟨rest, rfl⟩ := h
  rw [List.getElem?_append_left (List.getElem?_eq_some_iff.mp ha).1, ha]

/-- A graph with the code of every method edited. The edit is told the number of the method. -/
def Graph.recode (edit : Nat → List Op → List Op) (g : Graph) : Graph :=
  { g with
    functions := g.functions.mapIdx fun i f => f.mapRoutine fun r => { r with ops := edit i r.ops } }

/-- A module with the declarations of another one. Its code may be different, and it may have more
values at the ends of its pools. -/
structure Module.Preserves (m m' : Module) : Prop where
  version : m'.version = m.version
  ints : m.ints <+: m'.ints
  floats : m.floats <+: m'.floats
  strings : m.strings <+: m'.strings
  bytes : m.bytes <+: m'.bytes
  types : m'.types = m.types
  globals : m'.globals = m.globals
  natives : m'.natives = m.natives
  methods : m'.methods.length = m.methods.length
  constants : m'.constants = m.constants
  entrypoint : m'.entrypoint = m.entrypoint

/-- A method whose code is an edit of the code of another one. -/
structure Module.Recodes (m m' : Module) (edit : Nat → List Op → List Op) (f f' : Method) : Prop where
  type : f'.type = f.type
  index : f'.index = f.index
  registers : f'.registers = f.registers
  code : ∀ ops, f.instructions.mapM m.resolveInstruction = .ok ops →
    f'.instructions.mapM m'.resolveInstruction = .ok (edit f.index ops)

namespace Module.Preserves

variable {m m' : Module} {edit : Nat → List Op → List Op}

/-! ## Declarations -/

theorem functionCount (h : m.Preserves m') : m'.functionCount = m.functionCount := by
  rw [Module.functionCount, Module.functionCount, h.natives, h.methods]

theorem stringRef (h : m.Preserves m') (i : Nat) : Keeps (m.stringRef i) (m'.stringRef i) := by
  intro name hname
  rw [stringRef_eq_ok_iff] at hname ⊢
  exact getElem?_of_isPrefix h.strings hname

theorem typeRef (h : m.Preserves m') : m'.typeRef = m.typeRef := by
  funext i
  rw [Module.typeRef, Module.typeRef, h.types]

theorem functionRef (h : m.Preserves m') : m'.functionRef = m.functionRef := by
  funext i
  rw [Module.functionRef, Module.functionRef, h.functionCount]

theorem globalRef (h : m.Preserves m') : m'.globalRef = m.globalRef := by
  funext i
  rw [Module.globalRef, Module.globalRef, h.globals]

theorem slotRef (h : m.Preserves m') : m'.slotRef = m.slotRef := by
  funext slot
  rw [Module.slotRef, Module.slotRef, h.globalRef]

theorem resolveField (h : m.Preserves m') (f : Field Nat) :
    Keeps (m.resolveField f) (m'.resolveField f) := by
  rw [Module.resolveField, Module.resolveField, h.typeRef]
  exact (h.stringRef f.name).bind fun name => .of_eq rfl

theorem resolveProto (h : m.Preserves m') (p : Proto Nat) :
    Keeps (m.resolveProto p) (m'.resolveProto p) := by
  rw [Module.resolveProto, Module.resolveProto, h.functionRef]
  exact (h.stringRef p.name).bind fun name => .of_eq rfl

theorem resolveObject (h : m.Preserves m') (o : ObjectDef Nat Int32 Nat) :
    Keeps (m.resolveObject o) (m'.resolveObject o) := by
  have hbinding : m'.resolveBinding = m.resolveBinding := by
    funext b
    rw [Module.resolveBinding, Module.resolveBinding, h.functionRef]
  have hsuper : m'.superRef = m.superRef := by
    funext super
    rw [Module.superRef, Module.superRef, h.typeRef]
  rw [Module.resolveObject, Module.resolveObject, hbinding, hsuper, h.slotRef]
  refine (Keeps.mapM h.resolveProto o.protos).bind fun protos => ?_
  refine Keeps.bind (.of_eq rfl) fun bindings => ?_
  refine (h.stringRef o.name).bind fun name => ?_
  refine Keeps.bind (.of_eq rfl) fun super => Keeps.bind (.of_eq rfl) fun global => ?_
  exact (Keeps.mapM h.resolveField o.fields).andReturn _

theorem resolveConstruct (h : m.Preserves m') (c : Construct Nat) :
    Keeps (m.resolveConstruct c) (m'.resolveConstruct c) := by
  rw [Module.resolveConstruct, Module.resolveConstruct, h.typeRef]
  exact (h.stringRef c.name).bind fun name => .of_eq rfl

theorem resolveType (h : m.Preserves m') (t : RawType) :
    Keeps (m.resolveType t) (m'.resolveType t) := by
  cases t with
  | atom kind => exact .of_eq rfl
  | callable kind signature =>
      rw [Module.resolveType, Module.resolveType, h.typeRef]
      exact .of_eq rfl
  | object kind layout => exact (h.resolveObject layout).andReturn (TypeDef.object kind)
  | wrapper kind inner =>
      rw [Module.resolveType, Module.resolveType, h.typeRef]
      exact .of_eq rfl
  | virtual fields => exact (Keeps.mapM h.resolveField fields).andReturn TypeDef.virtual
  | abstract name => exact (h.stringRef name).andReturn TypeDef.abstract
  | enum layout =>
      rw [Module.resolveType, Module.resolveType, h.slotRef]
      refine (h.stringRef layout.name).bind fun name => Keeps.bind (.of_eq rfl) fun global => ?_
      exact (Keeps.mapM h.resolveConstruct layout.constructs).andReturn _

theorem resolveConstant (h : m.Preserves m') (c : Constant) :
    Keeps (m.resolveConstant c) (m'.resolveConstant c) := by
  rw [Module.resolveConstant, Module.resolveConstant, h.globalRef]
  split
  · exact .of_eq rfl
  · next payload _ _ =>
    exact Keeps.bind (.of_eq rfl) fun global => (h.stringRef payload).andReturn _

/-! ## Code -/

/-- An index that stands for something still stands for it. -/
theorem denotes (h : m.Preserves m') {raw : Int32} {o : Operand} (hraw : m.Denotes raw o) :
    m'.Denotes raw o := by
  cases o with
  | int value => exact ⟨hraw.1, getElem?_of_isPrefix h.ints hraw.2⟩
  | float bits => exact ⟨hraw.1, getElem?_of_isPrefix h.floats hraw.2⟩
  | string value => exact ⟨hraw.1, getElem?_of_isPrefix h.strings hraw.2⟩
  | bytes value =>
      obtain ⟨hneg, hvalue⟩ := hraw
      refine ⟨hneg, ?_⟩
      unfold bytesAt? at hvalue ⊢
      rw [h.version]
      split at hvalue
      · next hpool =>
        rw [if_pos hpool]
        exact getElem?_of_isPrefix h.bytes hvalue
      · next hpool =>
        obtain ⟨text, htext, rfl⟩ := Option.map_eq_some_iff.mp hvalue
        rw [if_neg hpool, getElem?_of_isPrefix h.strings htext]
        rfl
  | function id =>
      rw [Module.Denotes, h.functionCount]
      exact hraw
  | global id =>
      rw [Module.Denotes, h.globals]
      exact hraw
  | type id =>
      rw [Module.Denotes, h.types]
      exact hraw
  | register | field | offset | construct | inline | flag => exact hraw

theorem resolveInstruction (h : m.Preserves m') (i : Instruction) :
    Keeps (m.resolveInstruction i) (m'.resolveInstruction i) := by
  intro op hop
  obtain ⟨hopcode, hkinds, hargs⟩ := resolveInstruction_eq_ok_iff.mp hop
  exact resolveInstruction_eq_ok_iff.mpr ⟨hopcode, hkinds, hargs.imp fun _ _ => h.denotes⟩

theorem resolveInstructions (h : m.Preserves m') (is : List Instruction) :
    Keeps (is.mapM m.resolveInstruction) (is.mapM m'.resolveInstruction) :=
  Keeps.mapM h.resolveInstruction is

/-! ## Functions -/

/-- What resolving needs to know of a record and of the one that takes its place. -/
structure Replaces (m m' : Module) (edit : Nat → List Op → List Op) (r r' : FunctionRecord) :
    Prop where
  index : r'.index = r.index
  header : Keeps (m.resolveHeader r) (m'.resolveHeader r')
  code : ∀ ops, r.instructions.mapM m.resolveInstruction = .ok ops →
    r'.instructions.mapM m'.resolveInstruction = .ok (edit r.index ops)

theorem replaces (h : m.Preserves m') (hnil : ∀ i, edit i [] = [])
    (hmethods : List.Forall₂ (m.Recodes m' edit) m.methods m'.methods) :
    List.Forall₂ (Replaces m m' edit) m.functionRecords m'.functionRecords := by
  refine List.rel_append ?_ ?_
  · rw [h.natives, List.forall₂_map_left_iff, List.forall₂_map_right_iff, List.forall₂_same]
    intro n _
    refine ⟨rfl, ?_, fun ops hops => ?_⟩
    · rw [Module.resolveHeader, Module.resolveHeader, h.typeRef]
      refine Keeps.bind (.of_eq rfl) fun type => (h.stringRef n.lib).bind fun lib => ?_
      exact (h.stringRef n.name).andReturn _
    · obtain rfl : [] = ops := Except.ok.inj hops
      rw [hnil]
      rfl
  · rw [List.forall₂_map_left_iff, List.forall₂_map_right_iff]
    refine hmethods.imp fun f f' hf => ⟨hf.index, .of_eq ?_, hf.code⟩
    simp only [Module.resolveHeader, h.typeRef, hf.type, hf.registers]

/-- The function table has the new records in the places of the old ones. -/
theorem exists_functionTable (h : m.Preserves m')
    (hrecords : List.Forall₂ (Replaces m m' edit) m.functionRecords m'.functionRecords)
    {table : List FunctionRecord} (htable : m.functionTable = .ok table) :
    ∃ table', m'.functionTable = .ok table' ∧ List.Forall₂ (Replaces m m' edit) table table' := by
  obtain ⟨hperm, hrange⟩ := functionTable_spec htable
  obtain ⟨table', hreplaces, hperm'⟩ := List.perm_comp_forall₂ hperm hrecords
  refine ⟨table', functionTable_eq_ok_iff.mpr ⟨hperm', ?_⟩, hreplaces⟩
  rw [h.functionCount, ← hrange]
  clear hperm hperm' hrange htable
  induction hreplaces with
  | nil => rfl
  | cons hr _ ih => rw [List.map_cons, List.map_cons, hr.index, ih]

theorem forall₂_headers {table table' : List FunctionRecord} {headers : List Function}
    (hreplaces : List.Forall₂ (Replaces m m' edit) table table')
    (hheaders : List.Forall₂ (fun r f => m.resolveHeader r = .ok f) table headers) :
    List.Forall₂ (fun r f => m'.resolveHeader r = .ok f) table' headers := by
  induction hreplaces generalizing headers with
  | nil =>
      cases hheaders
      exact .nil
  | cons hr _ ih =>
      cases hheaders with
      | cons hheader hrest => exact .cons (hr.header _ hheader) (ih hrest)

/-- The code of the new records, which are at their indices. -/
theorem forall₂_code {table table' : List FunctionRecord} {code : List (List Op)} {n : Nat}
    (hrange : table.map (·.index) = List.range n)
    (hreplaces : List.Forall₂ (Replaces m m' edit) table table')
    (hcode : List.Forall₂ (fun r ops => r.instructions.mapM m.resolveInstruction = .ok ops) table
      code) :
    List.Forall₂ (fun r ops => r.instructions.mapM m'.resolveInstruction = .ok ops) table'
      (code.mapIdx edit) := by
  obtain ⟨hlength, hreplaces⟩ := List.forall₂_iff_get.mp hreplaces
  obtain ⟨hlength', hcode⟩ := List.forall₂_iff_get.mp hcode
  refine List.forall₂_iff_get.mpr ⟨by rw [List.length_mapIdx, ← hlength, hlength'], ?_⟩
  intro i hi hi'
  have hi₀ : i < table.length := hlength ▸ hi
  have hindex := (map_index_eq_range_iff.mp hrange).2 i _ (List.getElem?_eq_getElem hi₀)
  have hresolved := (hreplaces i hi₀ hi).code _ (hcode i hi₀ (hlength' ▸ hi₀))
  simp only [List.get_eq_getElem, List.getElem_mapIdx, hindex] at hresolved ⊢
  exact hresolved

theorem mapIdx_zipWith_withOps (named : List Function) (code : List (List Op)) :
    ((named.zipWith Function.withOps code).mapIdx fun i f =>
        f.mapRoutine fun r => { r with ops := edit i r.ops }) =
      named.zipWith Function.withOps (code.mapIdx edit) := by
  refine List.ext_getElem? fun i => ?_
  rw [List.getElem?_mapIdx, List.getElem?_zipWith, List.getElem?_zipWith, List.getElem?_mapIdx]
  cases hf : named[i]? with
  | none => rfl
  | some f =>
      cases code[i]? with
      | none => rfl
      | some ops => obtain ⟨type, _ | _⟩ := f <;> rfl

/-- **Modules with the same declarations have graphs that differ in the code.** -/
theorem resolve (h : m.Preserves m') (hnil : ∀ i, edit i [] = [])
    (hmethods : List.Forall₂ (m.Recodes m' edit) m.methods m'.methods) {s s' : Strategy} {g : Graph}
    (hg : m.resolve s = .ok g) : m'.resolve s' = .ok (g.recode edit) := by
  obtain ⟨table, headers, named, code, stages⟩ := resolve_eq_ok_iff.mp hg
  obtain ⟨table', htable', hreplaces⟩ := h.exists_functionTable (h.replaces hnil hmethods) stages.table
  have hrange := (functionTable_spec stages.table).2
  refine resolve_eq_ok_iff.mpr ⟨table', headers, named, code.mapIdx edit, ?_⟩
  exact {
    table := htable'
    types := by rw [h.types]; exact Keeps.mapM h.resolveType _ _ stages.types
    globals := by rw [h.globals, h.types]; exact stages.globals
    headers := mapM_eq_ok_iff.mpr (forall₂_headers hreplaces (mapM_eq_ok_iff.mp stages.headers))
    constants := by rw [h.constants]; exact Keeps.mapM h.resolveConstant _ _ stages.constants
    entrypoint := by rw [h.entrypoint, h.functionCount]; exact stages.entrypoint
    named := stages.named
    code := mapM_eq_ok_iff.mpr (forall₂_code hrange hreplaces (mapM_eq_ok_iff.mp stages.code))
    version_eq := by rw [h.version]; exact stages.version_eq
    globals_eq := by rw [h.globals]; exact stages.globals_eq
    entrypoint_eq := by rw [h.entrypoint]; exact stages.entrypoint_eq
    functions_eq := by
      rw [Graph.recode, stages.functions_eq]
      exact mapIdx_zipWith_withOps named code }

end Module.Preserves

/-! ## Edits -/

theorem Function.mapRoutine_id (f : Function) : f.mapRoutine (fun r => r) = f := by
  obtain ⟨type, _ | _⟩ := f <;> rfl

namespace Graph

theorem recode_none (g : Graph) : g.recode (fun _ ops => ops) = g := by
  have hfunctions : (g.functions.mapIdx fun _ f => f.mapRoutine fun r => r) = g.functions := by
    refine List.ext_getElem? fun i => ?_
    simp [Function.mapRoutine_id]
  rw [recode, hfunctions]

theorem recode_set (g : Graph) (f p : Nat) (op : Op) :
    g.recode (fun i ops => if i = f then ops.set p op else ops) = g.setOp f p op := by
  have hfunctions : (g.functions.mapIdx fun i fn => fn.mapRoutine fun r =>
      { r with ops := if i = f then r.ops.set p op else r.ops }) =
      g.functions.modify f (·.mapRoutine fun r => { r with ops := r.ops.set p op }) := by
    refine List.ext_getElem? fun i => ?_
    rw [List.getElem?_mapIdx, List.getElem?_modify]
    by_cases hi : f = i
    · simp [hi]
    · simp [hi, Ne.symm hi, Function.mapRoutine_id]
  rw [recode, hfunctions]
  rfl

end Graph

/-- **What a module reads back as has the same graph.** -/
theorem Module.resolve_normal {m : Module} {s s' : Strategy} {g : Graph} (h : m.resolve s = .ok g) :
    m.normal.resolve s' = .ok g := by
  have hpreserves : m.Preserves m.normal :=
    ⟨rfl, List.prefix_refl _, List.prefix_refl _, List.prefix_refl _, List.prefix_refl _, rfl, rfl, rfl,
      List.length_map _, rfl, rfl⟩
  rw [← g.recode_none]
  refine hpreserves.resolve (fun _ => rfl) ?_ h
  rw [Module.normal, List.forall₂_map_right_iff, List.forall₂_same]
  intro f _
  have hnormal : (f.normal m.hasDebug).type = f.type ∧ (f.normal m.hasDebug).index = f.index ∧
      (f.normal m.hasDebug).registers = f.registers ∧
      (f.normal m.hasDebug).instructions = f.instructions := by
    unfold Method.normal
    split <;> exact ⟨rfl, rfl, rfl, rfl⟩
  obtain ⟨htype, hindex, hregisters, hcode⟩ := hnormal
  refine ⟨htype, hindex, hregisters, fun ops hops => ?_⟩
  rw [hcode]
  exact hpreserves.resolveInstructions _ ops hops

end HashLink
