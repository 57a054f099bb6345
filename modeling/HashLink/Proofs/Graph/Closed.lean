import HashLink.Proofs.Graph.PoolContents

/-!
# Which graphs can be flattened

An edit can leave a number behind that leads nowhere. Flattening finds it, wherever it stands: a
graph can be flattened exactly when every number in it leads somewhere, every register has a number
that an instruction can hold, and every byte block can be kept (`Graph.Closed`).

The values of the code are not among the conditions. They are in the pools because the pools were
made from them, so as long as there are not too many of them, none is ever missing.

Flattening is a long sequence of checks. Each of them succeeds exactly under a condition and fails
in an expected way, and a sequence of such checks is one again (`Checks`); so the theorem is put
together along the definitions.
-/

namespace HashLink

/-! ## Checks -/

section Checks

variable {ε α β : Type}

/-- Succeeds exactly under a condition, and fails only with errors that are expected. -/
def Checks (expected : ε → Prop) (x : Except ε α) (condition : Prop) : Prop :=
  match x with
  | .ok _ => condition
  | .error e => ¬condition ∧ expected e

variable {expected : ε → Prop} {x : Except ε α} {C D : Prop}

theorem Checks.exists_iff (h : Checks expected x C) : (∃ a, x = .ok a) ↔ C := by
  cases x with
  | ok a => exact iff_of_true ⟨a, rfl⟩ h
  | error e => exact iff_of_false (by simp) h.1

theorem Checks.error (h : Checks expected x C) {e : ε} (he : x = .error e) : expected e := by
  subst he
  exact h.2

theorem Checks.congr (h : Checks expected x C) (hCD : C ↔ D) : Checks expected x D := by
  rwa [propext hCD] at h

theorem checks_ok (a : α) : Checks expected (.ok a) True := trivial

/-- One check after another. The second may depend on what the first one gave, but not its
condition. -/
theorem Checks.bind {f : α → Except ε β} (h : Checks expected x C)
    (hf : ∀ a, x = .ok a → Checks expected (f a) D) : Checks expected (x >>= f) (C ∧ D) := by
  cases x with
  | ok a => exact (hf a rfl).congr ⟨fun hD => ⟨h, hD⟩, And.right⟩
  | error e => exact ⟨fun hCD => h.1 hCD.1, h.2⟩

/-- The last check of a sequence, whose result is put to use. -/
theorem Checks.map {f : α → β} (h : Checks expected x C) :
    Checks expected (x >>= fun a => pure (f a)) C :=
  (h.bind fun a _ => checks_ok (f a)).congr (iff_of_eq (and_true C))

theorem Checks.mapM {f : α → Except ε β} {C : α → Prop} {xs : List α}
    (h : ∀ x ∈ xs, Checks expected (f x) (C x)) :
    Checks expected (xs.mapM f) (∀ x ∈ xs, C x) := by
  induction xs with
  | nil => exact (checks_ok []).congr (by simp)
  | cons x xs ih =>
      rw [List.forall_mem_cons] at h
      rw [List.mapM_cons]
      exact (h.1.bind fun y _ => (ih h.2).map).congr List.forall_mem_cons.symm

theorem Checks.foldlM {f : β → α → Except ε β} {C : α → Prop} {xs : List α} {b : β}
    (h : ∀ b, ∀ x ∈ xs, Checks expected (f b x) (C x)) :
    Checks expected (xs.foldlM f b) (∀ x ∈ xs, C x) := by
  induction xs generalizing b with
  | nil => exact (checks_ok b).congr (by simp)
  | cons x xs ih =>
      rw [List.foldlM_cons]
      refine ((h b x List.mem_cons_self).bind fun b' _ => ih ?_).congr List.forall_mem_cons.symm
      exact fun b x' hx' => h b x' (List.mem_cons_of_mem x hx')

theorem forall_mem_zipIdx {C : α → Prop} {xs : List α} :
    (∀ x ∈ xs.zipIdx, C x.1) ↔ ∀ x ∈ xs, C x := by
  constructor
  · intro hall x hx
    obtain ⟨i, hi⟩ := List.mem_iff_getElem?.mp hx
    exact hall (x, i) (List.mem_zipIdx_iff_getElem?.mpr hi)
  · exact fun hall x hx => hall x.1 (List.fst_mem_of_mem_zipIdx hx)

/-- A traversal of entries with their numbers, where the numbers do not matter. -/
theorem Checks.mapM_zipIdx {f : α × Nat → Except ε β} {C : α → Prop} {xs : List α}
    (h : ∀ x ∈ xs, ∀ i, Checks expected (f (x, i)) (C x)) :
    Checks expected (xs.zipIdx.mapM f) (∀ x ∈ xs, C x) :=
  (Checks.mapM (C := fun x => C x.1) fun x hx =>
    h x.1 (List.fst_mem_of_mem_zipIdx hx) x.2).congr forall_mem_zipIdx

end Checks

theorem Checks.located {α : Type} {expected : Fault → Prop} {x : Except Fault α} {C : Prop}
    (h : Checks expected x C) (place : Location) :
    Checks (fun e : GraphError => expected e.fault) (located place x) C := by
  cases x with
  | ok a => exact h
  | error fault => exact h

/-! ## Numbers that lead somewhere -/

namespace TypeDef

/-- The types that a type of a graph refers to. -/
def typeIds : GraphType → List Nat
  | .callable _ signature => signature.args ++ [signature.result]
  | .object _ layout => layout.super.toList ++ layout.fields.map (·.type)
  | .wrapper _ inner => [inner]
  | .virtual fields => fields.map (·.type)
  | .enum layout => layout.constructs.flatMap (·.params)
  | .atom _ | .abstract _ => []

/-- The functions that a type of a graph refers to. -/
def functionIds : GraphType → List Nat
  | .object _ layout => layout.protos.map (·.function) ++ layout.bindings.map (·.function)
  | _ => []

/-- The globals that a type of a graph refers to. -/
def globalIds : GraphType → List Nat
  | .object _ layout => layout.global.toList
  | .enum layout => layout.global.toList
  | _ => []

end TypeDef

/-- The types of the registers of a function; a native has none. -/
def Function.registers (f : Function) : List Nat :=
  match f.routine? with
  | some r => r.registers
  | none => []

/-- What a type of a graph refers to is there. -/
structure Inventory.Closes (has : Inventory) (t : GraphType) : Prop where
  types : ∀ id ∈ t.typeIds, id < has.types
  functions : ∀ id ∈ t.functionIds, id < has.functions
  globals : ∀ id ∈ t.globalIds, id < has.globals

/-- What an operand refers to is there, and there is a place to keep the operand. -/
def Inventory.Covers (has : Inventory) : Operand → Prop
  | .register number => number.toNat < int32Limit
  | .function id => id < has.functions
  | .global id => id < has.globals
  | .type id => id < has.types
  | .bytes value => hasBytesPool has.version = true ∨ (ofUtf8? value).isSome = true
  | _ => True

/-- Every number in a graph leads somewhere. -/
structure Graph.Closed (g : Graph) : Prop where
  types : ∀ t ∈ g.types, g.inventory.Closes t
  globals : ∀ type ∈ g.globals, type < g.types.length
  functions : ∀ f ∈ g.functions, f.type < g.types.length
  registers : ∀ f ∈ g.functions, ∀ type ∈ f.registers, type < g.types.length
  constants : ∀ c ∈ g.constants, c.global < g.globals.length
  operands : ∀ o ∈ g.operands, g.inventory.Covers o
  entrypoint : g.entrypoint < g.functions.length

/-- Everything that instructions number is few enough to be numbered. -/
structure Graph.Moderate (g : Graph) : Prop where
  types : g.types.length ≤ int32Limit
  functions : g.functions.length ≤ int32Limit
  globals : g.globals.length ≤ int32Limit
  ints : g.ints.eraseDups.length ≤ int32Limit
  floats : g.floats.eraseDups.length ≤ int32Limit
  texts : g.texts.eraseDups.length ≤ int32Limit
  blocks : g.blocks.eraseDups.length ≤ int32Limit

/-- A fault that an edit can cause: a number or a register that leads nowhere, or bytes that cannot
be kept. A value that is missing from its pool is none of them. -/
def Fault.isStray : Fault → Bool
  | .dangling .type _ | .dangling .function _ | .dangling .global _ | .dangling .register _ => true
  | .bytesNotUtf8 _ => true
  | _ => false

namespace Inventory

variable {has : Inventory}

/-- A check of a part of a graph. -/
abbrev Requires {α : Type} (x : Except Fault α) (condition : Prop) : Prop :=
  Checks (fun fault => fault.isStray = true) x condition

/-! ### References -/

theorem requires_typeRef (id : Nat) : Requires (has.typeRef id) (id < has.types) := by
  unfold typeRef
  split
  · next h => exact h
  · next h => exact ⟨h, rfl⟩

theorem requires_functionRef (id : Nat) : Requires (has.functionRef id) (id < has.functions) := by
  unfold functionRef
  split
  · next h => exact h
  · next h => exact ⟨h, rfl⟩

theorem requires_globalRef (id : Nat) : Requires (has.globalRef id) (id < has.globals) := by
  unfold globalRef
  split
  · next h => exact h
  · next h => exact ⟨h, rfl⟩

theorem requires_slotRef (global : Option Nat) :
    Requires (has.slotRef global) (∀ id ∈ global.toList, id < has.globals) := by
  cases global with
  | none => exact (checks_ok 0).congr (by simp)
  | some id => exact (requires_globalRef id).map.congr (by simp)

theorem requires_superRef (hfew : has.types ≤ int32Limit) (super : Option Nat) :
    Requires (has.superRef super) (∀ id ∈ super.toList, id < has.types) := by
  cases super with
  | none => exact (checks_ok (-1)).congr (by simp)
  | some id =>
      -- a type that exists is one whose number fits
      refine ((requires_typeRef id).bind fun i hi => ?_).congr (D := ∀ id' ∈ [id], id' < has.types)
        (by simp : id < has.types ∧ True ↔ _)
      obtain ⟨hlt, rfl⟩ := typeRef_eq_ok_iff.mp hi
      rw [if_pos (Nat.lt_of_lt_of_le hlt hfew)]
      exact checks_ok _

theorem requires_typeRefs (ids : List Nat) :
    Requires (ids.mapM has.typeRef) (∀ id ∈ ids, id < has.types) :=
  Checks.mapM fun id _ => requires_typeRef id

/-! ### Types and headers -/

theorem requires_flattenFields (fields : List (Field String)) :
    Requires (fields.mapM has.flattenField) (∀ f ∈ fields, f.type < has.types) :=
  Checks.mapM fun f _ => (requires_typeRef f.type).map

theorem requires_flattenObject (hfew : has.types ≤ int32Limit) (kind : ObjectKind)
    (o : ObjectDef String (Option Nat) (Option Nat)) :
    Requires (has.flattenObject o) (has.Closes (.object kind o)) := by
  have hprotos : Requires (o.protos.mapM has.flattenProto)
      (∀ p ∈ o.protos, p.function < has.functions) :=
    Checks.mapM fun p _ => (requires_functionRef p.function).map
  have hbindings : Requires (o.bindings.mapM has.flattenBinding)
      (∀ b ∈ o.bindings, b.function < has.functions) :=
    Checks.mapM fun b _ => (requires_functionRef b.function).map
  refine ((requires_superRef hfew o.super).bind fun _ _ => (requires_slotRef o.global).bind
    fun _ _ => (requires_flattenFields o.fields).bind fun _ _ => hprotos.bind fun _ _ =>
    hbindings.map).congr ?_
  constructor
  · rintro ⟨hsuper, hglobal, hfields, hprotos, hbindings⟩
    refine ⟨List.forall_mem_append.mpr ⟨hsuper, List.forall_mem_map.mpr hfields⟩, ?_, hglobal⟩
    exact List.forall_mem_append.mpr
      ⟨List.forall_mem_map.mpr hprotos, List.forall_mem_map.mpr hbindings⟩
  · rintro ⟨htypes, hfunctions, hglobals⟩
    obtain ⟨hsuper, hfields⟩ := List.forall_mem_append.mp htypes
    obtain ⟨hprotos, hbindings⟩ := List.forall_mem_append.mp hfunctions
    exact ⟨hsuper, hglobals, List.forall_mem_map.mp hfields, List.forall_mem_map.mp hprotos,
      List.forall_mem_map.mp hbindings⟩

/-- A type with nothing but references to types. -/
theorem closes_iff {t : GraphType} (hfunctions : t.functionIds = []) (hglobals : t.globalIds = []) :
    has.Closes t ↔ ∀ id ∈ t.typeIds, id < has.types :=
  ⟨fun h => h.types, fun h => ⟨h, by simp [hfunctions], by simp [hglobals]⟩⟩

/-- **A type can be flattened exactly when everything it refers to is there.** -/
theorem requires_flattenType (hfew : has.types ≤ int32Limit) (t : GraphType) :
    Requires (has.flattenType t) (has.Closes t) := by
  cases t with
  | atom kind =>
      exact (checks_ok _).congr ((closes_iff rfl rfl).trans (by simp [TypeDef.typeIds])).symm
  | callable kind signature =>
      refine ((requires_typeRefs signature.args).bind fun _ _ =>
        (requires_typeRef signature.result).map).congr ?_
      rw [closes_iff rfl rfl, TypeDef.typeIds, List.forall_mem_append, List.forall_mem_singleton]
  | object kind layout => exact (requires_flattenObject hfew kind layout).map
  | wrapper kind inner =>
      exact (requires_typeRef inner).map.congr
        ((closes_iff rfl rfl).trans List.forall_mem_singleton).symm
  | virtual fields =>
      exact (requires_flattenFields fields).map.congr
        ((closes_iff rfl rfl).trans List.forall_mem_map).symm
  | abstract name =>
      exact (checks_ok _).congr ((closes_iff rfl rfl).trans (by simp [TypeDef.typeIds])).symm
  | enum layout =>
      have hconstructs : Requires (layout.constructs.mapM has.flattenConstruct)
          (∀ c ∈ layout.constructs, ∀ id ∈ c.params, id < has.types) :=
        Checks.mapM fun c _ => (requires_typeRefs c.params).map
      refine ((requires_slotRef layout.global).bind fun _ _ => hconstructs.map).congr ?_
      constructor
      · rintro ⟨hglobal, hparams⟩
        exact ⟨List.forall_mem_flatMap.mpr hparams, by simp [TypeDef.functionIds], hglobal⟩
      · rintro ⟨htypes, _, hglobal⟩
        exact ⟨hglobal, List.forall_mem_flatMap.mp htypes⟩

theorem requires_flattenNative (index : Nat) (f : Function) :
    Requires (has.flattenNative index f) (f.routine? = none → f.type < has.types) := by
  obtain ⟨type, body⟩ := f
  cases body with
  | native lib name => exact (requires_typeRef type).map.congr (by simp [Function.routine?])
  | method r => exact (checks_ok none).congr (by simp [Function.routine?])

theorem requires_flattenConstant (c : StringConstant) :
    Requires (has.flattenConstant c) (c.global < has.globals) :=
  (requires_globalRef c.global).map

/-! ### Code -/

theorem requires_valuePools (values : List (List PoolValue)) :
    Checks (fun e : GraphError => e.fault.isStray = true) (has.valuePools values)
      (∀ vs ∈ values, ∀ value ∈ vs, value.Storable has.version) := by
  have hadd (p : ValuePools) (value : PoolValue) :
      Requires (p.add has.version value) (value.Storable has.version) := by
    by_cases h : value.Storable has.version
    · rw [ValuePools.add_of_storable h]
      exact h
    · rw [ValuePools.add_of_not_storable h]
      exact ⟨h, rfl⟩
  have haddAll (p : ValuePools) (vs : List PoolValue) :
      Requires (p.addAll has.version vs) (∀ value ∈ vs, value.Storable has.version) :=
    Checks.foldlM fun p value _ => hadd p value
  exact (Checks.foldlM fun p x _ => (haddAll p x.1).located (.function x.2)).congr forall_mem_zipIdx

theorem requires_operandIndex {pool : Pool} {operand : Operand} {index : Option Nat}
    (hstray : (Fault.dangling pool operand).isStray = true) :
    Requires (operandIndex pool operand index) (∃ i, index = some i ∧ i < int32Limit) := by
  unfold operandIndex
  split
  · next i hi =>
    obtain ⟨rfl, hlt⟩ := Option.filter_eq_some_iff.mp hi
    exact ⟨i, rfl, by simpa using hlt⟩
  · next hi =>
    refine ⟨?_, hstray⟩
    rintro ⟨i, rfl, hlt⟩
    simp at hi
    omega

/-- Something that is numbered from the first one on. -/
theorem requires_number {pool : Pool} {operand : Operand} {size : Nat} (hfew : size ≤ int32Limit)
    (hstray : (Fault.dangling pool operand).isStray = true) (id : Nat) :
    Requires (operandIndex pool operand (if id < size then some id else none)) (id < size) := by
  refine (requires_operandIndex hstray).congr ?_
  by_cases h : id < size
  · simp [h, Nat.lt_of_lt_of_le h hfew]
  · simp [h]

/-- A value of a pool has an index. -/
theorem exists_operandIndex {α : Type} [BEq α] [LawfulBEq α] {values : List α} {value : α}
    (pool : Pool) (operand : Operand) (h : value ∈ values) (hfew : values.length ≤ int32Limit) :
    ∃ raw, operandIndex pool operand (values.idxOf? value) = .ok raw := by
  obtain ⟨i, hi, hlt⟩ := exists_idxOf? h
  exact ⟨_, operandIndex_eq_ok_iff.mpr ⟨i, hi, Nat.lt_of_lt_of_le hlt hfew, rfl⟩⟩

end Inventory

namespace Graph

open Inventory

/-- A stage of flattening a graph, which says where it fails. -/
abbrev Stage {α : Type} (x : Except GraphError α) (condition : Prop) : Prop :=
  Checks (fun e => e.fault.isStray = true) x condition

/-- Every value of the code can be kept. -/
def Keeps (g : Graph) : Prop :=
  ∀ o ∈ g.operands, ∀ value, o.poolValue? = some value → value.Storable g.version

/-- The operands, the type and the registers of a method are there. -/
def Runs (g : Graph) (f : Function) : Prop :=
  (∀ op ∈ f.ops, ∀ o ∈ op.operands, g.inventory.Covers o) ∧
    (f.routine?.isSome = true → f.type < g.types.length) ∧
    ∀ type ∈ f.registers, type < g.types.length

variable {g : Graph}

/-- **Every value of the code has an index**, if it can be kept at all. -/
theorem Moderate.exists_flattenOperand (hg : g.Moderate) {o : Operand} {value : PoolValue}
    (ho : o ∈ g.operands) (hvalue : o.poolValue? = some value) (hkept : value.Storable g.version) :
    ∃ raw, g.inventory.flattenOperand g.pools o = .ok raw := by
  cases o with
  | int v =>
      have hmem : v ∈ g.ints := List.mem_filterMap.mpr ⟨_, ho, rfl⟩
      exact exists_operandIndex _ _ (List.mem_eraseDups.mpr hmem) hg.ints
  | float bits =>
      have hmem : bits ∈ g.floats := List.mem_filterMap.mpr ⟨_, ho, rfl⟩
      exact exists_operandIndex _ _ (List.mem_eraseDups.mpr hmem) hg.floats
  | string v =>
      have hmem : v ∈ g.texts := List.mem_append_right _ (List.mem_filterMap.mpr ⟨_, ho, rfl⟩)
      exact exists_operandIndex _ _ (List.mem_eraseDups.mpr hmem) hg.texts
  | bytes v =>
      obtain rfl := Option.some.inj hvalue
      by_cases hb : hasBytesPool g.inventory.version = true
      · have hmem : v ∈ g.blocks := by
          rw [Graph.blocks, if_pos (show hasBytesPool g.version = true from hb)]
          exact List.mem_filterMap.mpr ⟨_, ho, rfl⟩
        rw [Inventory.flattenOperand, bytesIndex?, if_pos hb]
        exact exists_operandIndex _ _ (List.mem_eraseDups.mpr hmem) hg.blocks
      · -- the bytes are among the strings, as the text that they spell
        obtain ⟨text, htext⟩ := Option.isSome_iff_exists.mp (hkept.resolve_left hb)
        have hmem : text ∈ g.texts := by
          refine List.mem_append_right _ (List.mem_filterMap.mpr ⟨_, ho, ?_⟩)
          rw [Operand.text?, if_neg (show ¬hasBytesPool g.version = true from hb), htext]
        rw [Inventory.flattenOperand, bytesIndex?, if_neg hb, htext]
        exact exists_operandIndex _ _ (List.mem_eraseDups.mpr hmem) hg.texts
  | register | function | global | type | field | offset | construct | inline | flag =>
      cases hvalue

theorem Moderate.requires_flattenOperand (hg : g.Moderate) {o : Operand} (ho : o ∈ g.operands)
    (hkept : ∀ value, o.poolValue? = some value → value.Storable g.version) :
    Requires (g.inventory.flattenOperand g.pools o) (g.inventory.Covers o) := by
  have hheld {value : PoolValue} (hvalue : o.poolValue? = some value)
      (hcovers : g.inventory.Covers o) :
      Requires (g.inventory.flattenOperand g.pools o) (g.inventory.Covers o) := by
    obtain ⟨raw, hraw⟩ := hg.exists_flattenOperand ho hvalue (hkept value hvalue)
    rw [hraw]
    exact hcovers
  cases o with
  | register number =>
      exact (requires_operandIndex rfl).congr (by simp [Inventory.Covers])
  | int | float | string => exact hheld rfl trivial
  | bytes value => exact hheld rfl (hkept _ rfl)
  | function id => exact requires_number hg.functions rfl id
  | global id => exact requires_number hg.globals rfl id
  | type id => exact requires_number hg.types rfl id
  | field | offset | construct | inline | flag => exact checks_ok _

/-- A method can be flattened exactly when its operands, its type and its registers can. -/
theorem Moderate.stage_flattenMethod (hg : g.Moderate) {f : Function} (hf : f ∈ g.functions)
    (hkept : g.Keeps) (index : Nat) :
    Stage (g.inventory.flattenMethod g.pools index f) (g.Runs f) := by
  obtain ⟨type, body⟩ := f
  cases body with
  | native lib name =>
      exact (checks_ok none).congr
        (by simp [Runs, Function.ops, Function.registers, Function.routine?])
  | method r =>
      have hop (op : Op) (hop : op ∈ r.ops) :
          Requires (g.inventory.flattenOp g.pools op)
            (∀ o ∈ op.operands, g.inventory.Covers o) := by
        have hops (o : Operand) (ho : o ∈ op.operands) : o ∈ g.operands :=
          List.mem_flatMap.mpr ⟨_, hf, List.mem_flatMap.mpr ⟨op, hop, ho⟩⟩
        exact (Checks.mapM fun o ho =>
          hg.requires_flattenOperand (hops o ho) (hkept o (hops o ho))).map
      refine ((Checks.mapM_zipIdx fun op hmem position =>
        (hop op hmem).located (.instruction index position)).bind fun _ _ =>
        ((requires_typeRef type).located (.function index)).bind fun _ _ =>
        ((requires_typeRefs r.registers).located (.function index)).map).congr ?_
      simp [Runs, Function.ops, Function.registers, Function.routine?, Graph.inventory]

theorem stage_valuePools (g : Graph) :
    Stage (g.inventory.valuePools (g.functions.map Function.poolValues)) g.Keeps := by
  refine (requires_valuePools _).congr ?_
  have hflat : (∀ vs ∈ g.functions.map Function.poolValues, ∀ value ∈ vs,
      value.Storable g.version) ↔
      ∀ value ∈ g.operands.filterMap Operand.poolValue?, value.Storable g.version := by
    rw [← g.flatten_poolValues, List.forall_mem_flatten]
  exact hflat.trans List.forall_mem_filterMap

/-- What the stages depend on, put together. The values of the code and its other operands are
checked in different stages. -/
theorem closed_iff (g : Graph) :
    g.Closed ↔ (∀ t ∈ g.types, g.inventory.Closes t) ∧
      (∀ type ∈ g.globals, type < g.types.length) ∧
      (∀ f ∈ g.functions, f.routine? = none → f.type < g.types.length) ∧
      (∀ c ∈ g.constants, c.global < g.globals.length) ∧ g.Keeps ∧
      (∀ f ∈ g.functions, g.Runs f) ∧ g.entrypoint < g.functions.length := by
  constructor
  · intro h
    refine ⟨h.types, h.globals, fun f hf _ => h.functions f hf, h.constants, ?_, ?_, h.entrypoint⟩
    · intro o ho value hvalue
      have hcovers := h.operands o ho
      cases o with
      | bytes block =>
          obtain rfl := Option.some.inj hvalue
          exact hcovers
      | int | float | string =>
          obtain rfl := Option.some.inj hvalue
          trivial
      | register | function | global | type | field | offset | construct | inline | flag =>
          cases hvalue
    · intro f hf
      refine ⟨fun op hop o ho => h.operands o ?_, fun _ => h.functions f hf, h.registers f hf⟩
      exact List.mem_flatMap.mpr ⟨f, hf, List.mem_flatMap.mpr ⟨op, hop, ho⟩⟩
  · rintro ⟨htypes, hglobals, hnatives, hconstants, _, hruns, hentry⟩
    refine ⟨htypes, hglobals, fun f hf => ?_, fun f hf => (hruns f hf).2.2, hconstants, ?_, hentry⟩
    · cases hr : f.routine? with
      | none => exact hnatives f hf hr
      | some r => exact (hruns f hf).2.1 (by rw [hr]; rfl)
    · intro o ho
      obtain ⟨f, hf, ho⟩ := List.mem_flatMap.mp ho
      obtain ⟨op, hop, ho⟩ := List.mem_flatMap.mp ho
      exact (hruns f hf).1 op hop o ho

theorem Moderate.stage_flatten (hg : g.Moderate) (s : Strategy) : Stage (g.flatten s) g.Closed := by
  unfold Graph.flatten
  simp only [traverse_poolValues]
  simp only [Strategy.traverse_eq_mapM]
  refine ((Checks.mapM_zipIdx fun t _ i =>
      (requires_flattenType hg.types t).located (.type i)).bind fun _ _ =>
    (Checks.mapM_zipIdx fun type _ i =>
      (requires_typeRef type).located (.global i)).bind fun _ _ =>
    (Checks.mapM_zipIdx fun f _ i =>
      (requires_flattenNative i f).located (.function i)).bind fun _ _ =>
    (Checks.mapM_zipIdx fun c _ i =>
      (requires_flattenConstant c).located (.constant i)).bind fun _ _ =>
    g.stage_valuePools.bind fun p hp => ?_).congr g.closed_iff.symm
  obtain ⟨hkept, rfl⟩ := valuePools_eq_ok_iff.mp hp
  exact (Checks.mapM_zipIdx fun f hf i => hg.stage_flattenMethod hf hkept i).bind fun _ _ =>
    ((requires_functionRef g.entrypoint).located .entrypoint).map

end Graph

/-- **A graph can be flattened exactly when every number in it leads somewhere.** When it cannot,
the reported fault is a number, a register or a byte block of the graph, and never a value that its
pool lacks. -/
theorem Graph.flatten_iff_closed {g : Graph} (hg : g.Moderate) (s : Strategy) :
    ((∃ m, g.flatten s = .ok m) ↔ g.Closed) ∧
      ∀ e, g.flatten s = .error e → e.fault.isStray = true :=
  ⟨(hg.stage_flatten s).exists_iff, fun _ => (hg.stage_flatten s).error⟩

/-- The graph can be flattened, until its entrypoint is moved behind the last function. -/
theorem flatten_iff_closed_repetitiveGraph :
    (repetitiveGraph.Moderate ∧ repetitiveGraph.Closed) ∧
      ¬Graph.Closed { repetitiveGraph with entrypoint := 3 } := by
  have hmoderate : repetitiveGraph.Moderate := by constructor <;> decide
  refine ⟨⟨hmoderate, (Graph.flatten_iff_closed hmoderate .sequential).1.mp ⟨_, rfl⟩⟩, ?_⟩
  intro hclosed
  have hmoved : Graph.Moderate { repetitiveGraph with entrypoint := 3 } := by
    constructor <;> decide
  obtain ⟨m, hm⟩ := (Graph.flatten_iff_closed hmoved .sequential).1.mpr hclosed
  cases hm

end HashLink
