import HashLink.Proofs.Graph.FunctionTable
import HashLink.Proofs.Graph.Naming
import HashLink.Proofs.Graph.Pools
import HashLink.Proofs.Graph.Stages

/-!
# Flattened programs resolve

Whatever flattening makes of a part of a graph, the part is what resolving makes of that. This
holds against any module that has as many types, functions and globals as the graph and starts its
pool of strings with the names (`Carries`), and for code also has its pools (`CarriesValues`).
Nothing is asked of the graph but that flattening succeeded: a number that resolving would reject
has been rejected before.

What resolving adds on its own are the names of methods. So a flattened graph comes back up to
those, or naming fails.
-/

namespace HashLink

/-- A module against which the references of a graph can be resolved. -/
structure Module.Carries (m : Module) (has : Inventory) : Prop where
  types : m.types.length = has.types
  functions : m.functionCount = has.functions
  globals : m.globals.length = has.globals
  names : has.names <+: m.strings

namespace Module.Carries

variable {m : Module} {has : Inventory}

/-! ## References -/

theorem typeRef (hm : m.Carries has) {id i : Nat} (h : has.typeRef id = .ok i) :
    m.typeRef i = .ok id := by
  obtain ⟨hlt, rfl⟩ := Inventory.typeRef_eq_ok_iff.mp h
  exact typeRef_eq_ok_iff.mpr ⟨hm.types ▸ hlt, rfl⟩

theorem functionRef (hm : m.Carries has) {id i : Nat} (h : has.functionRef id = .ok i) :
    m.functionRef i = .ok id := by
  obtain ⟨hlt, rfl⟩ := Inventory.functionRef_eq_ok_iff.mp h
  exact functionRef_eq_ok_iff.mpr ⟨hm.functions ▸ hlt, rfl⟩

theorem globalRef (hm : m.Carries has) {id i : Nat} (h : has.globalRef id = .ok i) :
    m.globalRef i = .ok id := by
  obtain ⟨hlt, rfl⟩ := Inventory.globalRef_eq_ok_iff.mp h
  exact globalRef_eq_ok_iff.mpr ⟨hm.globals ▸ hlt, rfl⟩

theorem slotRef (hm : m.Carries has) {global : Option Nat} {slot : Nat}
    (h : has.slotRef global = .ok slot) : m.slotRef slot = .ok global := by
  simpa [hm.globals] using h

theorem superRef (hm : m.Carries has) {type : Option Nat} {super : Int32}
    (h : has.superRef type = .ok super) : m.superRef super = .ok type := by
  simpa [hm.types] using Inventory.superRef_eq_ok h

theorem nameRef (hm : m.Carries has) {name : String} (h : name ∈ has.names) :
    m.stringRef (has.nameRef name) = .ok name := by
  obtain ⟨values, hstrings⟩ := hm.names
  have hlt : has.names.idxOf name < has.names.length := List.idxOf_lt_length_of_mem h
  rw [stringRef_eq_ok_iff, Inventory.nameRef, ← hstrings, List.getElem?_append_left hlt,
    List.getElem?_eq_getElem hlt, List.getElem_idxOf]

/-! ## Types and headers -/

theorem typeRefs (hm : m.Carries has) {ids is : List Nat} (h : ids.mapM has.typeRef = .ok is) :
    is.mapM m.typeRef = .ok ids := by
  obtain ⟨hlt, rfl⟩ := Inventory.typeRefs_eq_ok_iff.mp h
  exact typeRefs_eq_ok_iff.mpr ⟨hm.types ▸ hlt, rfl⟩

theorem resolveField (hm : m.Carries has) {f : Field String} {f' : Field Nat}
    (hname : f.name ∈ has.names) (h : has.flattenField f = .ok f') : m.resolveField f' = .ok f := by
  obtain ⟨type, htype, h⟩ := bind_eq_ok_iff.mp h
  obtain rfl := Except.ok.inj h
  simp only [Module.resolveField, hm.nameRef hname, hm.typeRef htype, ok_bind, pure_eq_ok]

theorem resolveFields (hm : m.Carries has) {fs : List (Field String)} {fs' : List (Field Nat)}
    (hnames : ∀ f ∈ fs, f.name ∈ has.names) (h : fs.mapM has.flattenField = .ok fs') :
    fs'.mapM m.resolveField = .ok fs := by
  simpa using mapM_undo (k := id) h fun f hf f' hf' => hm.resolveField (hnames f hf) hf'

theorem resolveProto (hm : m.Carries has) {p : Proto String} {p' : Proto Nat}
    (hname : p.name ∈ has.names) (h : has.flattenProto p = .ok p') : m.resolveProto p' = .ok p := by
  obtain ⟨function, hfunction, h⟩ := bind_eq_ok_iff.mp h
  obtain rfl := Except.ok.inj h
  simp only [Module.resolveProto, hm.nameRef hname, hm.functionRef hfunction, ok_bind, pure_eq_ok]

theorem resolveBinding (hm : m.Carries has) {b b' : Binding} (h : has.flattenBinding b = .ok b') :
    m.resolveBinding b' = .ok b := by
  obtain ⟨function, hfunction, h⟩ := bind_eq_ok_iff.mp h
  obtain rfl := Except.ok.inj h
  simp only [Module.resolveBinding, hm.functionRef hfunction, ok_bind, pure_eq_ok]

theorem resolveObject (hm : m.Carries has) {kind : ObjectKind}
    {o : ObjectDef String (Option Nat) (Option Nat)} {o' : ObjectDef Nat Int32 Nat}
    (hnames : typeNames (.object kind o) ⊆ has.names) (h : has.flattenObject o = .ok o') :
    m.resolveObject o' = .ok o := by
  obtain ⟨super, hsuper, h⟩ := bind_eq_ok_iff.mp h
  obtain ⟨global, hglobal, h⟩ := bind_eq_ok_iff.mp h
  obtain ⟨fields, hfields, h⟩ := bind_eq_ok_iff.mp h
  obtain ⟨protos, hprotos, h⟩ := bind_eq_ok_iff.mp h
  obtain ⟨bindings, hbindings, h⟩ := bind_eq_ok_iff.mp h
  obtain rfl := Except.ok.inj h
  have hname : o.name ∈ has.names := hnames (by simp [typeNames])
  have hfields' := hm.resolveFields (fun f hf => hnames (by
    simp only [typeNames, List.mem_append, List.mem_cons, List.mem_map]
    exact .inl (.inr ⟨f, hf, rfl⟩))) hfields
  have hprotos' := mapM_undo (k := id) hprotos fun p hp p' hp' => hm.resolveProto (hnames (by
    simp only [typeNames, List.mem_append, List.mem_cons, List.mem_map]
    exact .inr ⟨p, hp, rfl⟩)) hp'
  have hbindings' := mapM_undo (k := id) hbindings fun b _ b' hb' => hm.resolveBinding hb'
  rw [List.map_id] at hprotos' hbindings'
  simp only [Module.resolveObject, hprotos', hbindings', hm.nameRef hname, hm.superRef hsuper,
    hm.slotRef hglobal, hfields', ok_bind, pure_eq_ok]

theorem resolveConstruct (hm : m.Carries has) {c : Construct String} {c' : Construct Nat}
    (hname : c.name ∈ has.names) (h : has.flattenConstruct c = .ok c') :
    m.resolveConstruct c' = .ok c := by
  obtain ⟨params, hparams, h⟩ := bind_eq_ok_iff.mp h
  obtain rfl := Except.ok.inj h
  simp only [Module.resolveConstruct, hm.nameRef hname, hm.typeRefs hparams, ok_bind, pure_eq_ok]

/-- **A flattened type resolves to the type.** -/
theorem resolveType (hm : m.Carries has) {t : GraphType} {t' : RawType}
    (hnames : typeNames t ⊆ has.names) (h : has.flattenType t = .ok t') :
    m.resolveType t' = .ok t := by
  cases t with
  | atom kind =>
      obtain rfl := Except.ok.inj h
      rfl
  | callable kind signature =>
      obtain ⟨args, hargs, h⟩ := bind_eq_ok_iff.mp h
      obtain ⟨result, hresult, h⟩ := bind_eq_ok_iff.mp h
      obtain rfl := Except.ok.inj h
      simp only [Module.resolveType, hm.typeRefs hargs, hm.typeRef hresult, ok_bind, pure_eq_ok]
  | object kind layout =>
      obtain ⟨layout', hlayout, h⟩ := bind_eq_ok_iff.mp h
      obtain rfl := Except.ok.inj h
      simp only [Module.resolveType, hm.resolveObject hnames hlayout, ok_bind, pure_eq_ok]
  | wrapper kind inner =>
      obtain ⟨inner', hinner, h⟩ := bind_eq_ok_iff.mp h
      obtain rfl := Except.ok.inj h
      simp only [Module.resolveType, hm.typeRef hinner, ok_bind, pure_eq_ok]
  | virtual fields =>
      obtain ⟨fields', hfields, h⟩ := bind_eq_ok_iff.mp h
      obtain rfl := Except.ok.inj h
      have hfields' := hm.resolveFields (fun f hf => hnames (List.mem_map_of_mem hf)) hfields
      simp only [Module.resolveType, hfields', ok_bind, pure_eq_ok]
  | abstract name =>
      obtain rfl := Except.ok.inj h
      have hname : name ∈ has.names := hnames (by simp [typeNames])
      simp only [Module.resolveType, hm.nameRef hname, ok_bind, pure_eq_ok]
  | enum layout =>
      obtain ⟨global, hglobal, h⟩ := bind_eq_ok_iff.mp h
      obtain ⟨constructs, hconstructs, h⟩ := bind_eq_ok_iff.mp h
      obtain rfl := Except.ok.inj h
      have hname : layout.name ∈ has.names := hnames (by simp [typeNames])
      have hconstructs' := mapM_undo (k := id) hconstructs fun c hc c' hc' =>
        hm.resolveConstruct (hnames (List.mem_cons_of_mem _ (List.mem_map_of_mem hc))) hc'
      rw [List.map_id] at hconstructs'
      simp only [Module.resolveType, hm.nameRef hname, hm.slotRef hglobal, hconstructs', ok_bind,
        pure_eq_ok]

theorem resolveConstant (hm : m.Carries has) {c : StringConstant} {c' : Constant}
    (hname : c.value ∈ has.names) (h : has.flattenConstant c = .ok c') :
    m.resolveConstant c' = .ok c := by
  obtain ⟨global, hglobal, h⟩ := bind_eq_ok_iff.mp h
  obtain rfl := Except.ok.inj h
  simp only [Module.resolveConstant, hm.globalRef hglobal, hm.nameRef hname, ok_bind, pure_eq_ok]

end Module.Carries

/-! ## Code -/

/-- A module with the pools that the code of a graph was flattened into. -/
structure Module.CarriesValues (m : Module) (has : Inventory) (p : ValuePools) : Prop
    extends m.Carries has where
  version : m.version = has.version
  ints : m.ints = p.ints
  floats : m.floats = p.floats
  strings : m.strings = p.strings
  bytes : m.bytes = p.bytes

namespace Module.CarriesValues

variable {m : Module} {has : Inventory} {p : ValuePools}

theorem getElem?_of_idxOf? {α : Type} [BEq α] [LawfulBEq α] {pool : List α} {value : α} {i : Nat}
    (h : pool.idxOf? value = some i) : pool[i]? = some value := by
  obtain ⟨hlt, hi, _⟩ := List.idxOf?_eq_some_iff.mp h
  rw [List.getElem?_eq_getElem hlt, hi]

theorem bytesAt? (hm : m.CarriesValues has p) {value : List UInt8} {i : Nat}
    (h : has.bytesIndex? p value = some i) : m.bytesAt? i = some value := by
  unfold Inventory.bytesIndex? at h
  unfold Module.bytesAt?
  rw [hm.version, hm.bytes, hm.strings]
  split
  · next hb =>
    rw [if_pos hb] at h
    exact getElem?_of_idxOf? h
  · next hb =>
    rw [if_neg hb] at h
    obtain ⟨text, htext, hi⟩ := Option.bind_eq_some_iff.mp h
    rw [getElem?_of_idxOf? hi, Option.map_some, utf8_of_ofUtf8? htext]

/-- **A flattened operand stands for the operand.** -/
theorem denotes (hm : m.CarriesValues has p) {operand : Operand} {raw : Int32}
    (h : has.flattenOperand p operand = .ok raw) : m.Denotes raw operand := by
  -- an index that became an operand is the index that the operand is looked up by
  have index {pool : Pool} {operand : Operand} {index : Option Nat}
      (h : Inventory.operandIndex pool operand index = .ok raw) :
      ∃ i, index = some i ∧ ¬raw < 0 ∧ raw.toInt.toNat = i := by
    obtain ⟨i, hi, hlt, rfl⟩ := Inventory.operandIndex_eq_ok_iff.mp h
    exact ⟨i, hi, ofNat_not_neg hlt, by rw [toInt_ofNat_of_lt hlt, Int.toNat_natCast]⟩
  have number {pool : Pool} {operand : Operand} {size id : Nat}
      (h : Inventory.operandIndex pool operand (if id < size then some id else none) = .ok raw) :
      ¬raw < 0 ∧ raw.toInt.toNat < size ∧ raw.toInt.toNat = id := by
    obtain ⟨i, hi, hneg, rfl⟩ := index h
    obtain ⟨hlt, rfl⟩ : id < size ∧ id = raw.toInt.toNat := by simpa using hi
    exact ⟨hneg, hlt, rfl⟩
  cases operand with
  | register number =>
      obtain ⟨i, hi, hlt, rfl⟩ := Inventory.operandIndex_eq_ok_iff.mp h
      obtain rfl := Option.some.inj hi
      refine ⟨ofNat_not_neg hlt, ?_⟩
      exact UInt32.ofNat_toNat
  | int value =>
      obtain ⟨i, hi, hneg, rfl⟩ := index h
      exact ⟨hneg, hm.ints ▸ getElem?_of_idxOf? hi⟩
  | float bits =>
      obtain ⟨i, hi, hneg, rfl⟩ := index h
      exact ⟨hneg, hm.floats ▸ getElem?_of_idxOf? hi⟩
  | bytes value =>
      obtain ⟨i, hi, hneg, rfl⟩ := index h
      exact ⟨hneg, hm.bytesAt? hi⟩
  | string value =>
      obtain ⟨i, hi, hneg, rfl⟩ := index h
      exact ⟨hneg, hm.strings ▸ getElem?_of_idxOf? hi⟩
  | function id =>
      have hn := number h
      rwa [← hm.functions] at hn
  | global id =>
      have hn := number h
      rwa [← hm.globals] at hn
  | type id =>
      have hn := number h
      rwa [← hm.types] at hn
  | field value | offset value | construct value | inline value => exact (Except.ok.inj h).symm
  | flag value =>
      obtain rfl := Except.ok.inj h
      cases value <;> rfl

/-- **A flattened op resolves to the op.** -/
theorem resolveInstruction (hm : m.CarriesValues has p) {op : Op} {i : Instruction}
    (h : has.flattenOp p op = .ok i) : m.resolveInstruction i = .ok op := by
  obtain ⟨args, hargs, h⟩ := bind_eq_ok_iff.mp h
  obtain rfl := Except.ok.inj h
  have hden : List.Forall₂ m.Denotes args op.operands :=
    ((mapM_eq_ok_iff.mp hargs).imp fun _ _ => hm.denotes).flip
  obtain ⟨hkinds, hopcode⟩ := op.fits
  rw [List.length_map] at hkinds hopcode
  rw [Module.resolveInstruction_eq_ok_iff]
  exact ⟨by rw [hden.length_eq, hopcode], by rw [hden.length_eq]; exact hkinds, hden⟩

end Module.CarriesValues

/-! ## Functions -/

/-- The record that a function with an index is flattened to. -/
inductive Inventory.Flattens (has : Inventory) (p : ValuePools) :
    Function × Nat → FunctionRecord → Prop
  | native {type index : Nat} {lib name : String} (typed : type < has.types) :
      Flattens has p (⟨type, .native lib name⟩, index)
        (.native { lib := has.nameRef lib, name := has.nameRef name, type, index })
  | method {type index : Nat} {r : Routine} {instructions : List Instruction}
      (code : r.ops.mapM (has.flattenOp p) = .ok instructions) (typed : type < has.types)
      (registers : ∀ t ∈ r.registers, t < has.types) :
      Flattens has p (⟨type, .method r⟩, index)
        (.method { type, index, registers := r.registers, instructions,
                   debug := some (List.replicate instructions.length ⟨0, 0⟩), assigns := some [] })

namespace Inventory

variable {has : Inventory} {p : ValuePools}

/-- Natives and methods are flattened apart, and together they are the records of all functions. -/
theorem exists_flattens {functions : List Function} {k : Nat} {natives : List (Option Native)}
    {methods : List (Option Method)}
    (hnatives : ((functions.zipIdx k).mapM fun (f, i) => has.flattenNative i f) = .ok natives)
    (hmethods : ((functions.zipIdx k).mapM fun (f, i) => has.flattenMethod p i f) = .ok methods) :
    ∃ table : List FunctionRecord,
      table.Perm ((natives.filterMap id).map .native ++ (methods.filterMap id).map .method) ∧
        List.Forall₂ (has.Flattens p) (functions.zipIdx k) table := by
  rw [mapM_eq_ok_iff] at hnatives hmethods
  induction functions generalizing k natives methods with
  | nil =>
      cases hnatives
      cases hmethods
      exact ⟨[], by simp, .nil⟩
  | cons f functions ih =>
      rw [List.zipIdx_cons] at hnatives hmethods ⊢
      obtain _ | ⟨hnative, hnatives⟩ := hnatives
      obtain _ | ⟨hmethod, hmethods⟩ := hmethods
      obtain ⟨table, hperm, hflat⟩ := ih hnatives hmethods
      obtain ⟨type, body⟩ := f
      cases body with
      | native lib name =>
          obtain ⟨_, htype, h⟩ := bind_eq_ok_iff.mp hnative
          obtain ⟨typed, rfl⟩ := typeRef_eq_ok_iff.mp htype
          obtain rfl := Except.ok.inj h
          obtain rfl := Except.ok.inj hmethod
          exact ⟨_ :: table, hperm.cons _, .cons (.native typed) hflat⟩
      | method r =>
          obtain ⟨_, hcode, htype, hregisters, rfl⟩ := flattenMethod_method_eq_ok_iff.mp hmethod
          obtain rfl := Except.ok.inj hnative
          -- the record of a method comes after those of all natives
          exact ⟨_ :: table, (hperm.cons _).trans List.perm_middle.symm,
            .cons (.method hcode htype hregisters) hflat⟩

theorem map_index_of_flattens {functions : List Function} {table : List FunctionRecord}
    (h : List.Forall₂ (has.Flattens p) functions.zipIdx table) :
    table.map (·.index) = List.range functions.length := by
  have hindex : functions.zipIdx.map Prod.snd = table.map (·.index) := by
    rw [← List.forall₂_eq_eq_eq, List.forall₂_map_left_iff, List.forall₂_map_right_iff]
    exact h.imp fun f r hr => by cases hr <;> rfl
  rw [← hindex, List.zipIdx_map_snd, List.range_eq_range']

end Inventory

/-- A flattened function resolves to its type, its native name and its registers. -/
theorem Module.Carries.resolveHeader {m : Module} {has : Inventory} {p : ValuePools}
    (hm : m.Carries has) {f : Function × Nat} {r : FunctionRecord} (hnames : f.1.names ⊆ has.names)
    (h : has.Flattens p f r) : m.resolveHeader r = .ok f.1.header := by
  cases h with
  | @native type index lib name typed =>
      have htype := typeRef_eq_ok_iff.mpr ⟨hm.types ▸ typed, rfl⟩
      have hlib : lib ∈ has.names := hnames (by simp [Function.names])
      have hname : name ∈ has.names := hnames (by simp [Function.names])
      simp only [Module.resolveHeader, htype, hm.nameRef hlib, hm.nameRef hname, ok_bind, pure_eq_ok]
      rfl
  | method code typed registers =>
      have htype := typeRef_eq_ok_iff.mpr ⟨hm.types ▸ typed, rfl⟩
      have hregisters := typeRefs_eq_ok_iff.mpr ⟨hm.types ▸ registers, rfl⟩
      simp only [Module.resolveHeader, htype, hregisters, ok_bind, pure_eq_ok]
      rfl

/-- A flattened function resolves to its code. -/
theorem Module.CarriesValues.resolveInstructions {m : Module} {has : Inventory} {p : ValuePools}
    (hm : m.CarriesValues has p) {f : Function × Nat} {r : FunctionRecord}
    (h : has.Flattens p f r) : r.instructions.mapM m.resolveInstruction = .ok f.1.ops := by
  cases h with
  | native typed => rfl
  | @method type index r instructions code typed registers =>
      have hops := mapM_undo (k := id) code fun op _ i hi => hm.resolveInstruction hi
      rw [List.map_id] at hops
      exact hops

/-! ## Programs -/

theorem Function.withOps_header (f : Function) : f.header.anonymous.withOps f.ops = f.anonymous := by
  obtain ⟨type, body⟩ := f
  cases body <;> rfl

theorem map_anonymous_zipWith (functions : List Function) (code : List (List Op)) :
    (functions.zipWith Function.withOps code).map Function.anonymous =
      (functions.map Function.anonymous).zipWith Function.withOps code := by
  rw [List.map_zipWith, List.zipWith_map_left]
  exact congrArg (List.zipWith · functions code)
    (funext fun f => funext fun ops => f.anonymous_withOps ops)

/-- A graph without the names that types give to methods. -/
def Graph.anonymous (g : Graph) : Graph :=
  { g with functions := g.functions.map Function.anonymous }

namespace Graph

/-- What a flattened graph is made of, function by function. -/
theorem flatten_spec {s : Strategy} {g : Graph} {m : Module} (h : g.flatten s = .ok m) :
    ∃ (p : ValuePools) (table : List FunctionRecord),
      m.CarriesValues g.inventory p ∧ m.functionTable = .ok table ∧
        List.Forall₂ (g.inventory.Flattens p) g.functions.zipIdx table := by
  obtain ⟨natives, p, methods, stages⟩ := flatten_eq_ok_iff.mp h
  obtain ⟨table, hperm, hflat⟩ := Inventory.exists_flattens stages.natives stages.methods
  have hrecords : m.functionRecords =
      (natives.filterMap id).map .native ++ (methods.filterMap id).map .method := by
    rw [stages.module_eq]
    rfl
  rw [← hrecords] at hperm
  -- one record for each function, in the order of the functions, so the table is full
  have hlength : table.length = g.functions.length := by
    rw [← hflat.length_eq, List.length_zipIdx]
  have hcount : m.functionCount = g.functions.length := by
    rw [← Module.length_functionRecords, ← hperm.length_eq, hlength]
  refine ⟨p, table, ⟨⟨?_, hcount, ?_, ?_⟩, ?_, ?_, ?_, ?_, ?_⟩, ?_, hflat⟩
  · exact (mapM_eq_ok_iff.mp stages.types).length_eq.symm
  · rw [stages.module_eq]
    rfl
  · rw [stages.module_eq]
    exact (Inventory.valuePools_spec stages.pools).1
  · rw [stages.module_eq]
    rfl
  · rw [stages.module_eq]
  · rw [stages.module_eq]
  · rw [stages.module_eq]
  · rw [stages.module_eq]
  · refine Module.functionTable_eq_ok_iff.mpr ⟨hperm, ?_⟩
    rw [Inventory.map_index_of_flattens hflat, hcount]

theorem typeNames_subset {g : Graph} {t : GraphType} (h : t ∈ g.types) :
    typeNames t ⊆ g.inventory.names := by
  intro name hname
  refine mem_namePool.mpr (List.mem_append_left _ (List.mem_append_left _ ?_))
  exact List.mem_flatMap.mpr ⟨t, h, hname⟩

theorem functionNames_subset {g : Graph} {f : Function} (h : f ∈ g.functions) :
    f.names ⊆ g.inventory.names := by
  intro name hname
  refine mem_namePool.mpr (List.mem_append_left _ (List.mem_append_right _ ?_))
  exact List.mem_flatMap.mpr ⟨f, h, hname⟩

theorem constantValue_mem {g : Graph} {c : StringConstant} (h : c ∈ g.constants) :
    c.value ∈ g.inventory.names :=
  mem_namePool.mpr (List.mem_append_right _ (List.mem_map_of_mem h))

/-- **A flattened graph resolves to the graph as soon as its methods can be named.** -/
theorem resolve_of_flatten {s s' : Strategy} {g : Graph} {m : Module} (h : g.flatten s = .ok m) :
    m.resolve s' = do
      let named ← nameMethods g.types (g.functions.map Function.header)
      return { g with
        functions := named.zipWith Function.withOps (g.functions.map Function.ops) } := by
  obtain ⟨p, table, hm, htable, hflat⟩ := flatten_spec h
  obtain ⟨_, _, _, stages⟩ := flatten_eq_ok_iff.mp h
  have hglobals : m.globals = g.globals := by rw [stages.module_eq]
  have hentry : m.entrypoint = g.entrypoint := by rw [stages.module_eq]
  have htypes' : m.types.mapM m.resolveType = .ok g.types := by
    simpa using mapM_undo (k := id) stages.types fun t ht t' ht' =>
      hm.resolveType (typeNames_subset ht) ht'
  have hglobals' : g.globals.mapM m.typeRef = .ok g.globals :=
    Module.typeRefs_eq_ok_iff.mpr ⟨hm.types ▸ stages.globals, rfl⟩
  have hheaders : table.mapM m.resolveHeader = .ok (g.functions.map Function.header) :=
    mapM_of_forall₂_zipIdx hflat fun f hf _ _ hr => hm.resolveHeader (functionNames_subset hf) hr
  have hconstants' : m.constants.mapM m.resolveConstant = .ok g.constants := by
    simpa using mapM_undo (k := id) stages.constants fun c hc c' hc' =>
      hm.resolveConstant (constantValue_mem hc) hc'
  have hentry' : m.functionRef g.entrypoint = .ok g.entrypoint :=
    Module.functionRef_eq_ok_iff.mpr ⟨hm.functions ▸ stages.entrypoint, rfl⟩
  have hcode : (table.mapM fun r => r.instructions.mapM m.resolveInstruction) =
      .ok (g.functions.map Function.ops) :=
    mapM_of_forall₂_zipIdx hflat fun _ _ _ _ hr => hm.resolveInstructions hr
  simp only [Module.resolve, unlocated_eq_ok_iff.mpr htable, hglobals, hentry, hm.version,
    Strategy.traverse_eq_ok_iff.mpr htypes', mapM_located_eq_ok_iff.mpr hglobals',
    Strategy.traverse_eq_ok_iff.mpr hheaders, mapM_located_eq_ok_iff.mpr hconstants',
    located_eq_ok_iff.mpr hentry', Module.traverse_resolveCode_eq_ok_iff.mpr hcode, ok_bind,
    pure_eq_ok]
  rfl

/-- Flattening leaves no superclass that is not there. -/
theorem supersExist_of_flatten {s : Strategy} {g : Graph} {m : Module} (h : g.flatten s = .ok m) :
    SupersExist g.types := by
  obtain ⟨_, _, _, stages⟩ := flatten_eq_ok_iff.mp h
  intro t ht layout hlayout up hup
  obtain ⟨t', _, ht'⟩ := exists_of_mem_mapM stages.types ht
  cases t with
  | object kind layout' =>
      obtain rfl : layout' = layout := Option.some.inj hlayout
      obtain ⟨o, ho, _⟩ := bind_eq_ok_iff.mp ht'
      obtain ⟨super, hsuper, _⟩ := bind_eq_ok_iff.mp ho
      exact (Inventory.superRef_eq_ok hsuper).2 up hup
  | atom | callable | wrapper | virtual | abstract | enum => cases hlayout

end Graph

/-- **A flattened graph comes back up to the names of its methods, or a binding is at fault.** -/
theorem Graph.resolve_flatten {s s' : Strategy} {g : Graph} {m : Module} (h : g.flatten s = .ok m) :
    (∃ g', m.resolve s' = .ok g' ∧ g'.anonymous = g.anonymous) ∨
      ∃ e, m.resolve s' = .error e ∧ e.IsBinding := by
  rw [resolve_of_flatten h]
  cases hnamed : nameMethods g.types (g.functions.map Function.header) with
  | error e => exact .inr ⟨e, rfl, nameMethods_error (supersExist_of_flatten h) hnamed⟩
  | ok named =>
      refine .inl ⟨_, rfl, ?_⟩
      simp only [Graph.anonymous, map_anonymous_zipWith, map_anonymous_nameMethods hnamed,
        List.map_map, List.zipWith_map, List.zipWith_self]
      exact congrArg (Graph.mk _ _ · _ _ _) (List.map_congr_left fun f _ => f.withOps_header)

/-- A graph that no file holds: of an unknown version, with bytes that are no text, the last
register that has a number, and a method whose name is out of date. -/
def patchedGraph : Graph :=
  { version := 200,
    types := [.atom .i32,
              .object .object
                { name := "A", super := none, global := some 0, fields := [⟨"f", 0⟩],
                  protos := [⟨"p", 1, -1⟩], bindings := [⟨0, 0⟩] }],
    functions := [⟨1, .method { name := some "old", parent := some 7, registers := [0, 0],
                                ops := [.int 1 5, ⟨.bytes, [.register 0x7FFFFFFF, .bytes [255]],
                                                   ⟨rfl, rfl⟩⟩] }⟩,
                  ⟨0, .native "std" "A"⟩],
    globals := [0], constants := [⟨0, "f"⟩], entrypoint := 1 }

theorem resolve_flatten_patchedGraph :
    ∃ m, patchedGraph.flatten .sequential = .ok m ∧
      ∀ s, ∃ g', m.resolve s = .ok g' ∧ g'.anonymous = patchedGraph.anonymous := by
  refine ⟨_, rfl, fun s => ?_⟩
  have hflat : patchedGraph.flatten .sequential = .ok _ := rfl
  obtain hback | ⟨e, hfail, _⟩ := Graph.resolve_flatten hflat
  · exact hback
  · -- the only binding is to a field that is there, of a method that has no other name
    rw [Graph.resolve_of_flatten (s := .sequential) (g := patchedGraph) rfl] at hfail
    cases hfail

end HashLink
