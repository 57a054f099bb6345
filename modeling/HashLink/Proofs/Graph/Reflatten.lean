import HashLink.Proofs.Code.PositionStream
import HashLink.Proofs.Graph.Pools
import HashLink.Proofs.Graph.Resolved
import HashLink.Proofs.Module.Writable

/-!
# Resolved programs can be flattened and written

What a module resolves to is flattened part by part, and every part can be written as the module's
own part could be. References are in range on both sides. Numbers that stand for themselves and
lengths of lists are the ones that were read; indices into pools may have changed, but a new pool
is no longer than the one its values came from.
-/

namespace HashLink

open Emission

/-- A list whose entries resolve to entries that can be flattened. -/
theorem exists_rewritten {α β γ : Type} {resolve : α → Except Fault β}
    {flatten : β → Except Fault γ} {Q : γ → Prop} {xs : List α} {ys : List β}
    (h : xs.mapM resolve = .ok ys)
    (each : ∀ x ∈ xs, ∀ y ∈ ys, resolve x = .ok y → ∃ z, flatten y = .ok z ∧ Q z) :
    ∃ zs, ys.mapM flatten = .ok zs ∧ zs.length = xs.length ∧ ∀ z ∈ zs, Q z := by
  rw [mapM_eq_ok_iff] at h
  induction h with
  | nil => exact ⟨[], rfl, rfl, by simp⟩
  | @cons x y xs ys hxy _ ih =>
      obtain ⟨z, hz, hQ⟩ := each x List.mem_cons_self y List.mem_cons_self hxy
      obtain ⟨zs, hzs, hlen, hQs⟩ := ih fun x' hx' y' hy' =>
        each x' (List.mem_cons_of_mem x hx') y' (List.mem_cons_of_mem y hy')
      refine ⟨z :: zs, ?_, by rw [List.length_cons, List.length_cons, hlen],
        List.forall_mem_cons.mpr ⟨hQ, hQs⟩⟩
      rw [List.mapM_cons, hz, hzs]
      rfl

/-- A graph with as many types, functions and globals as a module, none of them too many to be
written. -/
structure Inventory.Mirrors (has : Inventory) (m : Module) : Prop where
  types : has.types = m.types.length
  functions : has.functions = m.functionCount
  globals : has.globals = m.globals.length
  fewTypes : has.types < varintLimit
  fewFunctions : has.functions ≤ varintLimit
  fewGlobals : has.globals < varintLimit
  fewNames : has.names.length < varintLimit

namespace Inventory.Mirrors

variable {has : Inventory} {m : Module}

/-! ## References -/

theorem typeRef (hm : has.Mirrors m) {i j : Nat} (h : m.typeRef i = .ok j) :
    has.typeRef j = .ok j ∧ j < varintLimit := by
  obtain ⟨hlt, rfl⟩ := Module.typeRef_eq_ok_iff.mp h
  rw [← hm.types] at hlt
  exact ⟨typeRef_eq_ok_iff.mpr ⟨hlt, rfl⟩, Nat.lt_trans hlt hm.fewTypes⟩

theorem typeRefs (hm : has.Mirrors m) {is js : List Nat} (h : is.mapM m.typeRef = .ok js) :
    js.mapM has.typeRef = .ok js ∧ js.length = is.length ∧ ∀ j ∈ js, j < varintLimit := by
  obtain ⟨hlt, rfl⟩ := Module.typeRefs_eq_ok_iff.mp h
  rw [← hm.types] at hlt
  exact ⟨typeRefs_eq_ok_iff.mpr ⟨hlt, rfl⟩, rfl, fun j hj => Nat.lt_trans (hlt j hj) hm.fewTypes⟩

theorem functionRef (hm : has.Mirrors m) {i j : Nat} (h : m.functionRef i = .ok j) :
    has.functionRef j = .ok j ∧ j < varintLimit := by
  obtain ⟨hlt, rfl⟩ := Module.functionRef_eq_ok_iff.mp h
  rw [← hm.functions] at hlt
  exact ⟨functionRef_eq_ok_iff.mpr ⟨hlt, rfl⟩, Nat.lt_of_lt_of_le hlt hm.fewFunctions⟩

theorem globalRef (hm : has.Mirrors m) {i j : Nat} (h : m.globalRef i = .ok j) :
    has.globalRef j = .ok j ∧ j < varintLimit := by
  obtain ⟨hlt, rfl⟩ := Module.globalRef_eq_ok_iff.mp h
  rw [← hm.globals] at hlt
  exact ⟨globalRef_eq_ok_iff.mpr ⟨hlt, rfl⟩, Nat.lt_trans hlt hm.fewGlobals⟩

theorem slotRef (hm : has.Mirrors m) {slot : Nat} {global : Option Nat}
    (h : m.slotRef slot = .ok global) : has.slotRef global = .ok slot ∧ slot < varintLimit := by
  obtain ⟨hslot, hlt⟩ := Module.slotRef_eq_ok_iff.mp h
  rw [← hm.globals] at hlt
  refine ⟨slotRef_eq_ok_iff.mpr ⟨hslot, hlt⟩, ?_⟩
  cases slot with
  | zero => decide
  | succ i => exact Nat.lt_of_le_of_lt (hlt i hslot.symm) hm.fewGlobals

theorem superRef (hm : has.Mirrors m) {super : Int32} {type : Option Nat}
    (h : m.superRef super = .ok type) :
    ∃ super', has.superRef type = .ok super' ∧ super'.toInt.natAbs < varintLimit := by
  obtain ⟨hsuper, hlt⟩ := Module.superRef_eq_ok_iff.mp h
  rw [← hm.types] at hlt
  cases type with
  | none => exact ⟨-1, rfl, by decide⟩
  | some i =>
      have hi : i < has.types := hlt i rfl
      refine ⟨Int32.ofNat i, ?_, Reader.natAbs_ofNat_lt (Nat.lt_trans hi hm.fewTypes)⟩
      simp only [Inventory.superRef, typeRef_eq_ok_iff.mpr ⟨hi, rfl⟩, ok_bind,
        if_pos (lt_int32Limit_of_superclass? hsuper), pure_eq_ok]

theorem nameRef (hm : has.Mirrors m) (name : String) : has.nameRef name < varintLimit :=
  Nat.lt_of_le_of_lt List.idxOf_le_length hm.fewNames

/-! ## Types -/

theorem flattenField (hm : has.Mirrors m) {f : Field Nat} {f' : Field String}
    (h : m.resolveField f = .ok f') :
    ∃ f'', has.flattenField f' = .ok f'' ∧
      (Output.index f''.name ++ Output.index f''.type).Finishes := by
  simp only [Module.resolveField, bind_eq_ok_iff, pure_eq_ok, Except.ok.injEq] at h
  obtain ⟨name, _, type, htype, rfl⟩ := h
  obtain ⟨htype', hlt⟩ := hm.typeRef htype
  refine ⟨⟨has.nameRef name, type⟩, ?_, ?_⟩
  · simp only [Inventory.flattenField, htype', ok_bind, pure_eq_ok]
  · simp [hm.nameRef name, hlt]

theorem flattenFields (hm : has.Mirrors m) {fs : List (Field Nat)} {fs' : List (Field String)}
    (h : fs.mapM m.resolveField = .ok fs') :
    ∃ fs'', fs'.mapM has.flattenField = .ok fs'' ∧ fs''.length = fs.length ∧
      (Output.fields fs'').Finishes := by
  simp only [Output.fields, finishes_each]
  exact exists_rewritten h fun f _ f' _ hf => hm.flattenField hf

theorem flattenProto (hm : has.Mirrors m) {p : Proto Nat} {p' : Proto String}
    (h : m.resolveProto p = .ok p') (hslot : p.slot.toInt.natAbs < varintLimit) :
    ∃ p'', has.flattenProto p' = .ok p'' ∧
      (Output.index p''.name ++ Output.index p''.function ++ Output.varint p''.slot).Finishes := by
  simp only [Module.resolveProto, bind_eq_ok_iff, pure_eq_ok, Except.ok.injEq] at h
  obtain ⟨name, _, function, hfunction, rfl⟩ := h
  obtain ⟨hfunction', hlt⟩ := hm.functionRef hfunction
  refine ⟨⟨has.nameRef name, function, p.slot⟩, ?_, ?_⟩
  · simp only [Inventory.flattenProto, hfunction', ok_bind, pure_eq_ok]
  · simp [hm.nameRef name, hlt, hslot]

theorem flattenBinding (hm : has.Mirrors m) {b b' : Binding}
    (h : m.resolveBinding b = .ok b') (hfield : b.field < varintLimit) :
    ∃ b'', has.flattenBinding b' = .ok b'' ∧
      (Output.index b''.field ++ Output.index b''.function).Finishes := by
  simp only [Module.resolveBinding, bind_eq_ok_iff, pure_eq_ok, Except.ok.injEq] at h
  obtain ⟨function, hfunction, rfl⟩ := h
  obtain ⟨hfunction', hlt⟩ := hm.functionRef hfunction
  refine ⟨⟨b.field, function⟩, ?_, ?_⟩
  · simp only [Inventory.flattenBinding, hfunction', ok_bind, pure_eq_ok]
  · simp [hfield, hlt]

theorem flattenObject (hm : has.Mirrors m) {o : ObjectDef Nat Int32 Nat}
    {o' : ObjectDef String (Option Nat) (Option Nat)} (h : m.resolveObject o = .ok o')
    (hf : (Output.objectDef o).Finishes) :
    ∃ o'', has.flattenObject o' = .ok o'' ∧ (Output.objectDef o'').Finishes := by
  simp only [Output.objectDef, Output.protos, Output.bindings, finishes_append, finishes_each,
    Output.finishes_index, Output.finishes_varint] at hf
  obtain ⟨⟨⟨⟨⟨⟨_, hfieldCount⟩, hprotoCount⟩, hbindingCount⟩, _⟩, hprotos⟩, hbindings⟩ := hf
  simp only [Module.resolveObject, bind_eq_ok_iff, pure_eq_ok, Except.ok.injEq] at h
  obtain ⟨protos, rprotos, bindings, rbindings, name, _, super, rsuper, global, rglobal, fields, rfields,
    rfl⟩ := h
  obtain ⟨super', fsuper, hsuper⟩ := hm.superRef rsuper
  obtain ⟨fglobal, hglobal⟩ := hm.slotRef rglobal
  obtain ⟨fields', ffields, hfieldsLength, hfields⟩ := hm.flattenFields rfields
  obtain ⟨protos', fprotos, hprotosLength, hprotos⟩ :=
    exists_rewritten rprotos fun p hp p' _ hp' => hm.flattenProto hp' (hprotos p hp).2
  obtain ⟨bindings', fbindings, hbindingsLength, hbindings⟩ :=
    exists_rewritten rbindings fun b hb b' _ hb' => hm.flattenBinding hb' (hbindings b hb).1
  refine ⟨⟨has.nameRef name, super', o.global, fields', protos', bindings'⟩, ?_, ?_⟩
  · simp only [Inventory.flattenObject, fsuper, fglobal, ffields, fprotos, fbindings, ok_bind,
      pure_eq_ok]
  · simp only [Output.objectDef, Output.protos, Output.bindings, finishes_append, finishes_each,
      Output.finishes_index, Output.finishes_varint, hfieldsLength, hprotosLength,
      hbindingsLength] at hprotos hbindings ⊢
    exact ⟨⟨⟨⟨⟨⟨⟨⟨hm.nameRef name, hsuper⟩, hglobal⟩, hfieldCount⟩, hprotoCount⟩, hbindingCount⟩,
      hfields⟩, hprotos⟩, hbindings⟩

theorem flattenConstruct (hm : has.Mirrors m) {c : Construct Nat} {c' : Construct String}
    (h : m.resolveConstruct c = .ok c') (hf : (Output.indices c.params).Finishes) :
    ∃ c'', has.flattenConstruct c' = .ok c'' ∧
      (Output.index c''.name ++ Output.indices c''.params).Finishes := by
  simp only [Module.resolveConstruct, bind_eq_ok_iff, pure_eq_ok, Except.ok.injEq] at h
  obtain ⟨name, _, params, rparams, rfl⟩ := h
  obtain ⟨fparams, hlength, hparams⟩ := hm.typeRefs rparams
  simp only [Output.indices, finishes_append, Output.finishes_index] at hf
  refine ⟨⟨has.nameRef name, params⟩, ?_, ?_⟩
  · simp only [Inventory.flattenConstruct, fparams, ok_bind, pure_eq_ok]
  · simp only [Output.indices, finishes_append, finishes_each, Output.finishes_index, hlength]
    exact ⟨hm.nameRef name, hf.1, hparams⟩

/-- **A resolved type can be flattened and written.** -/
theorem flattenType (hm : has.Mirrors m) {t : RawType} {t' : GraphType}
    (h : m.resolveType t = .ok t') (hf : (Output.typeDef t).Finishes) :
    ∃ t'', has.flattenType t' = .ok t'' ∧ (Output.typeDef t'').Finishes := by
  simp only [Output.typeDef, finishes_append, finishes_ofList, true_and] at hf ⊢
  cases t with
  | atom kind =>
      obtain rfl := Except.ok.inj h
      exact ⟨.atom kind, rfl, finishes_empty⟩
  | callable kind signature =>
      simp only [Module.resolveType, bind_eq_ok_iff, pure_eq_ok, Except.ok.injEq] at h
      obtain ⟨args, rargs, result, rresult, rfl⟩ := h
      obtain ⟨fargs, hlength, hargs⟩ := hm.typeRefs rargs
      obtain ⟨fresult, hresult⟩ := hm.typeRef rresult
      simp only [Output.typeParts, Output.indices, finishes_append, Output.finishes_index] at hf
      refine ⟨.callable kind ⟨args, result⟩, ?_, ?_⟩
      · simp only [Inventory.flattenType, fargs, fresult, ok_bind, pure_eq_ok]
      · simp only [Output.typeParts, Output.indices, finishes_append, finishes_each,
          Output.finishes_index, hlength]
        exact ⟨⟨hf.1.1, hargs⟩, hresult⟩
  | object kind layout =>
      simp only [Module.resolveType, bind_eq_ok_iff, pure_eq_ok, Except.ok.injEq] at h
      obtain ⟨layout', rlayout, rfl⟩ := h
      obtain ⟨layout'', flayout, hlayout⟩ := hm.flattenObject rlayout hf
      refine ⟨.object kind layout'', ?_, hlayout⟩
      simp only [Inventory.flattenType, flayout, ok_bind, pure_eq_ok]
  | wrapper kind inner =>
      simp only [Module.resolveType, bind_eq_ok_iff, pure_eq_ok, Except.ok.injEq] at h
      obtain ⟨inner', rinner, rfl⟩ := h
      obtain ⟨finner, hinner⟩ := hm.typeRef rinner
      refine ⟨.wrapper kind inner', ?_, Output.finishes_index.mpr hinner⟩
      simp only [Inventory.flattenType, finner, ok_bind, pure_eq_ok]
  | virtual fields =>
      simp only [Module.resolveType, bind_eq_ok_iff, pure_eq_ok, Except.ok.injEq] at h
      obtain ⟨fields', rfields, rfl⟩ := h
      obtain ⟨fields'', ffields, hlength, hfields⟩ := hm.flattenFields rfields
      simp only [Output.typeParts, finishes_append, Output.finishes_index] at hf
      refine ⟨.virtual fields'', ?_, ?_⟩
      · simp only [Inventory.flattenType, ffields, ok_bind, pure_eq_ok]
      · simp only [Output.typeParts, finishes_append, Output.finishes_index, hlength]
        exact ⟨hf.1, hfields⟩
  | abstract name =>
      simp only [Module.resolveType, bind_eq_ok_iff, pure_eq_ok, Except.ok.injEq] at h
      obtain ⟨name', _, rfl⟩ := h
      exact ⟨.abstract (has.nameRef name'), rfl, Output.finishes_index.mpr (hm.nameRef name')⟩
  | enum layout =>
      simp only [Module.resolveType, bind_eq_ok_iff, pure_eq_ok, Except.ok.injEq] at h
      obtain ⟨name, _, global, rglobal, constructs, rconstructs, rfl⟩ := h
      obtain ⟨fglobal, hglobal⟩ := hm.slotRef rglobal
      simp only [Output.typeParts, Output.enumDef, finishes_append, finishes_each,
        Output.finishes_index] at hf
      obtain ⟨constructs', fconstructs, hlength, hconstructs⟩ :=
        exists_rewritten rconstructs fun c hc c' _ hc' => hm.flattenConstruct hc' (hf.2 c hc).2
      refine ⟨.enum ⟨has.nameRef name, layout.global, constructs'⟩, ?_, ?_⟩
      · simp only [Inventory.flattenType, fglobal, fconstructs, ok_bind, pure_eq_ok]
      · simp only [Output.typeParts, Output.enumDef, finishes_append, finishes_each,
          Output.finishes_index, hlength] at hconstructs ⊢
        exact ⟨⟨⟨hm.nameRef name, hglobal⟩, hf.1.2⟩, hconstructs⟩

theorem flattenConstant (hm : has.Mirrors m) {c : Constant} {c' : StringConstant}
    (h : m.resolveConstant c = .ok c') (hvalue : (utf8 c'.value).length < varintLimit) :
    ∃ c'', has.flattenConstant c' = .ok c'' ∧ (Output.constant c'').Finishes := by
  unfold Module.resolveConstant at h
  split at h
  · simp at h
  · simp only [bind_eq_ok_iff, pure_eq_ok, Except.ok.injEq] at h
    obtain ⟨global, rglobal, value, _, rfl⟩ := h
    obtain ⟨fglobal, hglobal⟩ := hm.globalRef rglobal
    refine ⟨⟨global, [has.nameRef value, (utf8 value).length]⟩, ?_, ?_⟩
    · simp only [Inventory.flattenConstant, fglobal, ok_bind, pure_eq_ok]
    · simp only [Output.constant, Output.indices, finishes_append, finishes_each,
        Output.finishes_index]
      refine ⟨hglobal, (by decide : 2 < varintLimit), ?_⟩
      simp [hm.nameRef value, hvalue]

end Inventory.Mirrors

/-! ## Code -/

/-- The kinds of operands that a module keeps in a pool of values. -/
def OperandKind.isPooled : OperandKind → Bool
  | .int | .float | .string | .bytes => true
  | _ => false

theorem Operand.isPooled_kind {o : Operand} {v : PoolValue} (h : o.poolValue? = some v) :
    o.kind.isPooled = true := by
  cases o <;> first | rfl | cases h

/-- What a shape can repeat is not kept in a pool. -/
theorem Shape.countP_isPooled_kindsFor (s : Shape) (n : Nat) :
    (s.kindsFor n).countP OperandKind.isPooled = (s.kindsFor 0).countP OperandKind.isPooled := by
  cases s <;> simp [kindsFor, List.countP_replicate, OperandKind.isPooled]

/-- No opcode takes two values. -/
theorem Opcode.countP_isPooled_le (o : Opcode) (n : Nat) :
    (o.opShape.kindsFor n).countP OperandKind.isPooled ≤ 1 := by
  rw [Shape.countP_isPooled_kindsFor]
  cases o <;> decide

/-- So the value of any operand is the value of the op. -/
theorem Op.poolValue?_of_mem {op : Op} {o : Operand} {v : PoolValue} (ho : o ∈ op.operands)
    (hv : o.poolValue? = some v) : op.poolValue? = some v := by
  have hone : (op.operands.map (·.kind)).countP OperandKind.isPooled ≤ 1 := by
    rw [op.fits.1]
    exact op.opcode.countP_isPooled_le _
  unfold Op.poolValue?
  generalize op.operands = operands at ho hone
  induction operands with
  | nil => simp at ho
  | cons o' operands ih =>
      rw [List.map_cons, List.countP_cons] at hone
      rw [List.findSome?_cons]
      rcases List.mem_cons.mp ho with rfl | ho
      · rw [hv]
      · cases hv' : o'.poolValue? with
        | none => exact ih ho (by omega)
        | some v' =>
            rw [Operand.isPooled_kind hv', if_pos rfl] at hone
            have hpos : 0 < (operands.map (·.kind)).countP OperandKind.isPooled :=
              List.countP_pos_iff.mpr ⟨o.kind, List.mem_map_of_mem ho, Operand.isPooled_kind hv⟩
            omega

/-- Pools with room for another entry in every index. -/
structure ValuePools.Few (p : ValuePools) : Prop where
  ints : p.ints.length < varintLimit
  floats : p.floats.length < varintLimit
  strings : p.strings.length < varintLimit
  bytes : p.bytes.length < varintLimit

theorem exists_idxOf? {α : Type} [BEq α] [LawfulBEq α] {pool : List α} {value : α}
    (h : value ∈ pool) : ∃ i, pool.idxOf? value = some i ∧ i < pool.length := by
  cases hi : pool.idxOf? value with
  | none => exact absurd h (List.idxOf?_eq_none_iff.mp hi)
  | some i =>
      obtain ⟨hlt, _⟩ := List.idxOf?_eq_some_iff.mp hi
      exact ⟨i, rfl, hlt⟩

namespace Inventory.Mirrors

variable {has : Inventory} {m : Module} {p : ValuePools}

theorem flattenOperand (hm : has.Mirrors m) (hp : p.Few) {raw : Int32} {o : Operand}
    (h : m.Denotes raw o) (hraw : raw.toInt.natAbs < varintLimit)
    (hheld : ∀ v, o.poolValue? = some v → p.Holds has.version v) :
    ∃ raw', has.flattenOperand p o = .ok raw' ∧ raw'.toInt.natAbs < varintLimit := by
  have hlimits : varintLimit < int32Limit := by decide
  -- an index that a varint can hold is one that an operand can hold
  have index {pool : Pool} {operand : Operand} {i : Nat} (hi : i < varintLimit) :
      ∃ raw', operandIndex pool operand (some i) = .ok raw' ∧ raw'.toInt.natAbs < varintLimit :=
    ⟨Int32.ofNat i, operandIndex_eq_ok_iff.mpr ⟨i, rfl, Nat.lt_trans hi hlimits, rfl⟩,
      Reader.natAbs_ofNat_lt hi⟩
  have number {pool : Pool} {operand : Operand} {id size : Nat} (hid : id < size)
      (hi : id < varintLimit) :
      ∃ raw', operandIndex pool operand (if id < size then some id else none) = .ok raw' ∧
        raw'.toInt.natAbs < varintLimit := by
    rw [if_pos hid]
    exact index hi
  cases o with
  | register number =>
      obtain ⟨hneg, rfl⟩ := h
      have hnumber : raw.toUInt32.toNat = raw.toInt.toNat :=
        Int32.toNat_toUInt32_of_le (Int32.not_lt.mp hneg)
      simp only [Inventory.flattenOperand, hnumber]
      exact index (by omega)
  | int value =>
      obtain ⟨i, hi, hlt⟩ := exists_idxOf? (hheld _ rfl : value ∈ p.ints)
      simp only [Inventory.flattenOperand, hi]
      exact index (Nat.lt_trans hlt hp.ints)
  | float bits =>
      obtain ⟨i, hi, hlt⟩ := exists_idxOf? (hheld _ rfl : bits ∈ p.floats)
      simp only [Inventory.flattenOperand, hi]
      exact index (Nat.lt_trans hlt hp.floats)
  | string value =>
      obtain ⟨i, hi, hlt⟩ := exists_idxOf? (hheld _ rfl : value ∈ p.strings)
      simp only [Inventory.flattenOperand, hi]
      exact index (Nat.lt_trans hlt hp.strings)
  | bytes value =>
      have hv := hheld _ rfl
      simp only [ValuePools.Holds] at hv
      simp only [Inventory.flattenOperand, bytesIndex?]
      by_cases hb : hasBytesPool has.version = true
      · rw [if_pos hb] at hv ⊢
        obtain ⟨i, hi, hlt⟩ := exists_idxOf? hv
        rw [hi]
        exact index (Nat.lt_trans hlt hp.bytes)
      · rw [if_neg hb] at hv ⊢
        obtain ⟨text, htext, hmem⟩ := hv
        obtain ⟨i, hi, hlt⟩ := exists_idxOf? hmem
        rw [htext, Option.bind_some, hi]
        exact index (Nat.lt_trans hlt hp.strings)
  | function id =>
      obtain ⟨hneg, hlt, rfl⟩ := h
      exact number (hm.functions ▸ hlt) (by omega)
  | global id =>
      obtain ⟨hneg, hlt, rfl⟩ := h
      exact number (hm.globals ▸ hlt) (by omega)
  | type id =>
      obtain ⟨hneg, hlt, rfl⟩ := h
      exact number (hm.types ▸ hlt) (by omega)
  | field value | offset value | construct value | inline value =>
      obtain rfl := h
      exact ⟨raw, rfl, hraw⟩
  | flag value => cases value <;> exact ⟨_, rfl, by decide⟩

/-- The narrowest opcode accepts what another one of its family accepted. -/
theorem accepts_forCount {o : Opcode} {n : Nat} (hn : (o.opShape.kindsFor n).length = n)
    (h : o.shape.Accepts n) : (o.forCount n).shape.Accepts n := by
  by_cases hcall : o.isPlainCall = true
  · -- whatever the opcode was, the arguments of the call were few enough to be counted
    have htwo : 2 ≤ n := by
      rw [Opcode.opShape, if_pos hcall, Opcode.shape, Shape.kindsFor, List.length_append] at hn
      simp only [List.length_cons, List.length_nil] at hn
      omega
    have hfew : n - 2 < varintLimit := by
      have hlimit : varintLimit = 0x20000000 := rfl
      cases o <;> cases hcall
      all_goals
        simp only [Opcode.shape, Opcode.callShape, Shape.Accepts, List.length_cons,
          List.length_replicate, List.length_nil] at h
        omega
    unfold Opcode.forCount
    rw [if_pos hcall]
    split
    · rfl
    · rfl
    · rfl
    · rfl
    · rfl
    · exact ⟨htwo, hfew⟩
  · unfold Opcode.forCount
    rw [if_neg hcall]
    exact h

theorem flattenOperands (hm : has.Mirrors m) (hp : p.Few) {raws : List Int32}
    {operands : List Operand} (h : List.Forall₂ m.Denotes raws operands)
    (hsmall : ∀ raw ∈ raws, raw.toInt.natAbs < varintLimit)
    (hheld : ∀ o ∈ operands, ∀ v, o.poolValue? = some v → p.Holds has.version v) :
    ∃ args, operands.mapM (has.flattenOperand p) = .ok args ∧ args.length = raws.length ∧
      ∀ a ∈ args, a.toInt.natAbs < varintLimit := by
  induction h with
  | nil => exact ⟨[], rfl, rfl, by simp⟩
  | @cons raw o raws operands hraw _ ih =>
      rw [List.forall_mem_cons] at hsmall hheld
      obtain ⟨a, ha, hlt⟩ := hm.flattenOperand hp hraw hsmall.1 hheld.1
      obtain ⟨args, hargs, hlength, hargsLt⟩ := ih hsmall.2 hheld.2
      refine ⟨a :: args, ?_, by rw [List.length_cons, List.length_cons, hlength],
        List.forall_mem_cons.mpr ⟨hlt, hargsLt⟩⟩
      rw [List.mapM_cons, ha, hargs]
      rfl

/-- **A resolved instruction can be flattened and written.** -/
theorem flattenOp (hm : has.Mirrors m) (hp : p.Few) {i : Instruction} {op : Op}
    (h : m.resolveInstruction i = .ok op) (hf : (Instruction.write i).Finishes)
    (hheld : ∀ v, op.poolValue? = some v → p.Holds has.version v) :
    ∃ i', has.flattenOp p op = .ok i' ∧ (Instruction.write i').Finishes := by
  obtain ⟨hopcode, hkinds, hden⟩ := Module.resolveInstruction_eq_ok_iff.mp h
  obtain ⟨hsmall, haccepts⟩ := Instruction.finishes_write.mp hf
  obtain ⟨args, hflat, hlength, hargs⟩ := hm.flattenOperands hp hden hsmall
    fun o ho v hv => hheld v (Op.poolValue?_of_mem ho hv)
  refine ⟨⟨op.opcode, args⟩, ?_, Instruction.finishes_write.mpr ⟨hargs, ?_⟩⟩
  · simp only [Inventory.flattenOp, hflat, ok_bind, pure_eq_ok]
  · rw [hlength, hopcode]
    refine accepts_forCount ?_ haccepts
    rw [← hkinds, List.length_map, hden.length_eq]

/-! ## Functions -/

theorem flattenNative (hm : has.Mirrors m) {r : FunctionRecord} {f : Function} {index : Nat}
    (h : m.Resolves r f) (hindex : index < varintLimit) :
    ∃ n, has.flattenNative index f = .ok n ∧ ∀ n' ∈ n, (Output.native n').Finishes := by
  cases h with
  | @native n lib name typed _ _ =>
      rw [← hm.types] at typed
      refine ⟨some ⟨has.nameRef lib, has.nameRef name, n.type, index⟩, ?_, ?_⟩
      · simp only [Inventory.flattenNative, typeRef_eq_ok_iff.mpr ⟨typed, rfl⟩, ok_bind, pure_eq_ok]
      · intro n' hn'
        obtain rfl := Option.some.inj hn'
        simp only [Output.native, finishes_append, Output.finishes_index]
        exact ⟨⟨⟨hm.nameRef lib, hm.nameRef name⟩, Nat.lt_trans typed hm.fewTypes⟩, hindex⟩
  | method => exact ⟨none, rfl, by simp⟩

/-- **A resolved method can be flattened and written.** -/
theorem flattenMethod (hm : has.Mirrors m) (hp : p.Few) {r : FunctionRecord} {f : Function}
    {index : Nat} (h : m.Resolves r f) (hr : ∀ g, r = .method g → (Output.methodCode g).Finishes)
    (hindex : index < varintLimit) (hheld : ∀ v ∈ f.poolValues, p.Holds has.version v) :
    ∃ f', has.flattenMethod p index f = .ok f' ∧
      ∀ f'' ∈ f', (ModuleOutput.method true f'').Finishes := by
  cases h with
  | native => exact ⟨none, rfl, by simp⟩
  | @method g routine typed registers registers_eq code =>
      have hg := hr g rfl
      simp only [Output.methodCode, finishes_append, finishes_each, Output.finishes_index] at hg
      obtain ⟨⟨⟨⟨_, hregisterCount⟩, hinstructionCount⟩, _⟩, hinstructions⟩ := hg
      obtain ⟨instructions, hflat, hlength, hwritten⟩ := exists_rewritten code fun i hi op hop hr =>
        hm.flattenOp hp hr (hinstructions i hi) fun v hv =>
          hheld v (List.mem_filterMap.mpr ⟨op, hop, hv⟩)
      rw [← hm.types] at typed registers
      refine ⟨_, flattenMethod_method_eq_ok_iff.mpr
        ⟨instructions, hflat, typed, registers_eq ▸ registers, rfl⟩, ?_⟩
      intro f'' hf''
      obtain rfl := Option.some.inj hf''
      have htables : (Output.positions (List.replicate g.instructions.length ⟨0, 0⟩) ++
          Output.assigns []).Finishes :=
        finishes_append.mpr ⟨Output.finishes_positions_replicate _, by decide⟩
      simp only [ModuleOutput.method, Option.getD_some, List.length_replicate, if_true, finishes_append,
        ModuleOutput.ofOutput, finishes_mapError, Output.methodCode, finishes_each,
        Output.finishes_index, hlength, registers_eq]
      refine ⟨⟨⟨⟨⟨⟨?_, hindex⟩, hregisterCount⟩, hinstructionCount⟩, ?_⟩, hwritten⟩,
        finishes_append.mp htables⟩
      · exact Nat.lt_trans typed hm.fewTypes
      · exact fun t ht => Nat.lt_trans (registers t ht) hm.fewTypes

end Inventory.Mirrors

end HashLink
