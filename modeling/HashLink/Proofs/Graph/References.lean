import HashLink.Graph.Flatten
import HashLink.Graph.Resolve
import HashLink.Proofs.Traversal
import HashLink.Proofs.Wire.RoundTrip

/-!
# References

When a reference can be resolved or flattened, and what it becomes. A number that counts from the
first entry of a list stays what it is; a global slot, a superclass and an operand stand for a
number in a way of their own, and the two directions agree on it.
-/

namespace HashLink

/-! ## Numbers as operands -/

theorem toInt_ofNat_of_lt {n : Nat} (h : n < int32Limit) : (Int32.ofNat n).toInt = n :=
  Int32.toInt_ofNat_of_lt h

theorem ofNat_not_neg {n : Nat} (h : n < int32Limit) : ¬Int32.ofNat n < 0 := by
  rw [Int32.lt_iff_toInt_lt, toInt_ofNat_of_lt h, Int32.toInt_zero]
  omega

theorem toNat_lt_int32Limit (v : Int32) : v.toInt.toNat < int32Limit := by
  have := v.toInt_lt
  have : int32Limit = 2 ^ 31 := rfl
  omega

theorem superclass?_ofNat {n : Nat} (h : n < int32Limit) :
    superclass? (Int32.ofNat n) = some n := by
  rw [superclass?, if_neg (ofNat_not_neg h), toInt_ofNat_of_lt h, Int.toNat_natCast]

theorem lt_int32Limit_of_superclass? {v : Int32} {n : Nat} (h : superclass? v = some n) :
    n < int32Limit := by
  unfold superclass? at h
  split at h
  · simp at h
  · exact Option.some.inj h ▸ toNat_lt_int32Limit v

/-! ## In a module -/

namespace Module

@[simp] theorem checked_eq_ok_iff {pool : Pool} {size index i : Nat} :
    checked pool size index = .ok i ↔ index < size ∧ index = i := by
  unfold checked
  split
  · next h => simp [h]
  · next h => simp [h]

@[simp] theorem typeRef_eq_ok_iff {m : Module} {index i : Nat} :
    m.typeRef index = .ok i ↔ index < m.types.length ∧ index = i := checked_eq_ok_iff

@[simp] theorem typeRefs_eq_ok_iff {m : Module} {indices is : List Nat} :
    indices.mapM m.typeRef = .ok is ↔ (∀ i ∈ indices, i < m.types.length) ∧ indices = is :=
  mapM_check_eq_ok_iff fun _ _ => typeRef_eq_ok_iff

@[simp] theorem functionRef_eq_ok_iff {m : Module} {index i : Nat} :
    m.functionRef index = .ok i ↔ index < m.functionCount ∧ index = i := checked_eq_ok_iff

@[simp] theorem globalRef_eq_ok_iff {m : Module} {index i : Nat} :
    m.globalRef index = .ok i ↔ index < m.globals.length ∧ index = i := checked_eq_ok_iff

@[simp] theorem stringRef_eq_ok_iff {m : Module} {index : Nat} {s : String} :
    m.stringRef index = .ok s ↔ m.strings[index]? = some s := by
  unfold stringRef
  split <;> simp_all

/-- A number that may be absent. -/
theorem checked_option_eq_ok_iff {pool : Pool} {size : Nat} {index i : Option Nat} :
    (match index with
      | some index => do
        let found ← checked pool size index
        return some found
      | none => .ok none) = .ok i ↔ index = i ∧ ∀ j ∈ i, j < size := by
  cases index with
  | none => cases i <;> simp
  | some index =>
      simp only [bind_eq_ok_iff, checked_eq_ok_iff, pure_eq_ok, Except.ok.injEq]
      constructor
      · rintro ⟨_, ⟨hlt, rfl⟩, rfl⟩
        simpa using hlt
      · rintro ⟨rfl, hlt⟩
        exact ⟨index, ⟨hlt index rfl, rfl⟩, rfl⟩

@[simp] theorem slotRef_eq_ok_iff {m : Module} {slot : Nat} {global : Option Nat} :
    m.slotRef slot = .ok global ↔
      globalSlot? slot = global ∧ ∀ i ∈ global, i < m.globals.length := checked_option_eq_ok_iff

@[simp] theorem superRef_eq_ok_iff {m : Module} {super : Int32} {type : Option Nat} :
    m.superRef super = .ok type ↔
      superclass? super = type ∧ ∀ i ∈ type, i < m.types.length := checked_option_eq_ok_iff

theorem lookup_eq_ok_iff {α : Type} {pool : Pool} {get : Nat → Option α} {raw : Int32} {a : α} :
    lookup pool get raw = .ok a ↔ ¬raw < 0 ∧ get raw.toInt.toNat = some a := by
  unfold lookup
  by_cases h : raw < 0
  · simp [h]
  · simp only [h, if_false, not_false_eq_true, true_and]
    split <;> simp_all

@[simp] theorem below?_eq_some_iff {size index i : Nat} :
    below? size index = some i ↔ index < size ∧ index = i := by
  unfold below?
  split
  · next h => simp [h]
  · next h => simp [h]

/-! ### Operands and instructions -/

/-- What a number among the arguments of an instruction stands for. -/
def Denotes (m : Module) (raw : Int32) : Operand → Prop
  | .register number => ¬raw < 0 ∧ raw.toUInt32 = number
  | .int value => ¬raw < 0 ∧ m.ints[raw.toInt.toNat]? = some value
  | .float bits => ¬raw < 0 ∧ m.floats[raw.toInt.toNat]? = some bits
  | .bytes value => ¬raw < 0 ∧ m.bytesAt? raw.toInt.toNat = some value
  | .string value => ¬raw < 0 ∧ m.strings[raw.toInt.toNat]? = some value
  | .function id => ¬raw < 0 ∧ raw.toInt.toNat < m.functionCount ∧ raw.toInt.toNat = id
  | .global id => ¬raw < 0 ∧ raw.toInt.toNat < m.globals.length ∧ raw.toInt.toNat = id
  | .type id => ¬raw < 0 ∧ raw.toInt.toNat < m.types.length ∧ raw.toInt.toNat = id
  | .field value | .offset value | .construct value | .inline value => raw = value
  | .flag value => (raw != 0) = value

/-- **An operand of the right kind that the number stands for.** -/
theorem resolveOperand_eq_ok_iff {m : Module} {opcode : Opcode} {position : Nat}
    {kind : OperandKind} {raw : Int32} {operand : Operand} :
    m.resolveOperand opcode position kind raw = .ok operand ↔
      operand.kind = kind ∧ m.Denotes raw operand := by
  constructor
  · intro h
    obtain rfl := kind_of_resolveOperand h
    refine ⟨rfl, ?_⟩
    cases operand with
    | register number =>
        simp only [resolveOperand, Operand.kind] at h
        split at h
        · simp at h
        · next hneg => exact ⟨hneg, by simpa using h⟩
    | int | float | bytes | string | function | global | type =>
        simpa [resolveOperand, Operand.kind, map_eq_ok_iff, lookup_eq_ok_iff, Denotes] using h
    | field | offset | construct | inline | flag =>
        simpa [resolveOperand, Operand.kind, Denotes] using h
  · rintro ⟨rfl, h⟩
    cases operand with
    | register number =>
        obtain ⟨hneg, rfl⟩ := h
        simp [resolveOperand, Operand.kind, hneg]
    | int | float | bytes | string | function | global | type =>
        simpa [resolveOperand, Operand.kind, map_eq_ok_iff, lookup_eq_ok_iff, Denotes] using h
    | field | offset | construct | inline | flag =>
        simpa [resolveOperand, Operand.kind, Denotes] using h

theorem resolveOperands_eq_ok_iff {m : Module} {opcode : Opcode} {position : Nat}
    {kinds : List OperandKind} {raws : List Int32} {operands : List Operand}
    (hlen : kinds.length = raws.length) :
    m.resolveOperands opcode position kinds raws = .ok operands ↔
      operands.map (·.kind) = kinds ∧ List.Forall₂ m.Denotes raws operands := by
  induction kinds generalizing position raws operands with
  | nil =>
      obtain rfl := List.eq_nil_of_length_eq_zero hlen.symm
      simp only [resolveOperands, Except.ok.injEq, List.forall₂_nil_left_iff, List.map_eq_nil_iff,
        and_self, eq_comm]
  | cons kind kinds ih =>
      cases raws with
      | nil => simp at hlen
      | cons raw raws =>
          have ih := fun operands => @ih (position + 1) raws operands (by simpa using hlen)
          simp only [resolveOperands, bind_eq_ok_iff, resolveOperand_eq_ok_iff, ih, pure_eq_ok,
            Except.ok.injEq]
          constructor
          · rintro ⟨operand, ⟨rfl, hraw⟩, rest, ⟨rfl, hraws⟩, rfl⟩
            exact ⟨rfl, .cons hraw hraws⟩
          · rintro ⟨hkinds, hden⟩
            cases hden with
            | cons hraw hraws =>
                obtain ⟨rfl, rfl⟩ := List.cons_eq_cons.mp hkinds
                exact ⟨_, ⟨rfl, hraw⟩, _, ⟨rfl, hraws⟩, rfl⟩

/-- **An instruction stands for the op of the narrowest opcode whose operands its arguments stand
for.** -/
theorem resolveInstruction_eq_ok_iff {m : Module} {i : Instruction} {op : Op} :
    m.resolveInstruction i = .ok op ↔
      op.opcode = i.opcode.forCount i.args.length ∧
        op.operands.map (·.kind) = i.opcode.opShape.kindsFor i.args.length ∧
        List.Forall₂ m.Denotes i.args op.operands := by
  unfold resolveInstruction
  dsimp only
  constructor
  · intro h
    split at h
    · simp at h
    · next operands hoperands =>
      split at h
      · next hlen =>
        obtain rfl := Except.ok.inj h
        obtain ⟨hkinds, hden⟩ := (resolveOperands_eq_ok_iff hlen).mp hoperands
        exact ⟨congrArg i.opcode.forCount hden.length_eq.symm, hkinds, hden⟩
      · simp at h
  · rintro ⟨hopcode, hkinds, hden⟩
    have hlen : (i.opcode.opShape.kindsFor i.args.length).length = i.args.length := by
      rw [← hkinds, List.length_map, hden.length_eq]
    have hoperands := fun position =>
      (@resolveOperands_eq_ok_iff m i.opcode position _ _ _ hlen).mpr ⟨hkinds, hden⟩
    split
    · next he => simp [hoperands] at he
    · next operands he =>
      obtain rfl := Except.ok.inj ((hoperands 0).symm.trans he)
      obtain ⟨opcode, operands, fits⟩ := op
      simp only at hopcode hden
      simp only [hlen, dite_true, Except.ok.injEq, Op.mk.injEq, and_true]
      rw [hopcode, hden.length_eq]

end Module

/-! ## In a graph -/

namespace Inventory

@[simp] theorem typeRef_eq_ok_iff {has : Inventory} {id i : Nat} :
    has.typeRef id = .ok i ↔ id < has.types ∧ id = i := by
  unfold typeRef
  split
  · next h => simp [h]
  · next h => simp [h]

@[simp] theorem typeRefs_eq_ok_iff {has : Inventory} {ids is : List Nat} :
    ids.mapM has.typeRef = .ok is ↔ (∀ id ∈ ids, id < has.types) ∧ ids = is :=
  mapM_check_eq_ok_iff fun _ _ => typeRef_eq_ok_iff

@[simp] theorem functionRef_eq_ok_iff {has : Inventory} {id i : Nat} :
    has.functionRef id = .ok i ↔ id < has.functions ∧ id = i := by
  unfold functionRef
  split
  · next h => simp [h]
  · next h => simp [h]

@[simp] theorem globalRef_eq_ok_iff {has : Inventory} {id i : Nat} :
    has.globalRef id = .ok i ↔ id < has.globals ∧ id = i := by
  unfold globalRef
  split
  · next h => simp [h]
  · next h => simp [h]

@[simp] theorem slotRef_eq_ok_iff {has : Inventory} {global : Option Nat} {slot : Nat} :
    has.slotRef global = .ok slot ↔
      globalSlot? slot = global ∧ ∀ i ∈ global, i < has.globals := by
  cases global with
  | none => cases slot <;> simp [slotRef, globalSlot?]
  | some i =>
      simp only [slotRef, bind_eq_ok_iff, globalRef_eq_ok_iff, pure_eq_ok, Except.ok.injEq]
      constructor
      · rintro ⟨_, ⟨hlt, rfl⟩, rfl⟩
        simpa [globalSlot?] using hlt
      · rintro ⟨hslot, hlt⟩
        cases slot with
        | zero => simp [globalSlot?] at hslot
        | succ slot =>
            obtain rfl : slot = i := by simpa [globalSlot?] using hslot
            exact ⟨slot, ⟨hlt slot rfl, rfl⟩, rfl⟩

/-- A superclass that can be flattened is read back. -/
theorem superRef_eq_ok {has : Inventory} {type : Option Nat} {super : Int32}
    (h : has.superRef type = .ok super) :
    superclass? super = type ∧ ∀ i ∈ type, i < has.types := by
  cases type with
  | none =>
      obtain rfl := Except.ok.inj h
      exact ⟨by decide, by simp⟩
  | some i =>
      simp only [superRef, bind_eq_ok_iff, typeRef_eq_ok_iff] at h
      obtain ⟨_, ⟨hlt, rfl⟩, h⟩ := h
      split at h
      · next hlimit =>
        obtain rfl := Except.ok.inj h
        exact ⟨superclass?_ofNat hlimit, by simpa using hlt⟩
      · simp at h

theorem operandIndex_eq_ok_iff {pool : Pool} {operand : Operand} {index : Option Nat}
    {raw : Int32} :
    operandIndex pool operand index = .ok raw ↔
      ∃ i, index = some i ∧ i < int32Limit ∧ Int32.ofNat i = raw := by
  unfold operandIndex
  split
  · next i hi =>
    obtain ⟨rfl, hlt⟩ := Option.filter_eq_some_iff.mp hi
    simp_all
  · next hi =>
    simp only [reduceCtorEq, false_iff, not_exists, not_and]
    rintro i rfl hlt
    simp only [Option.filter_some, hlt, decide_true, if_true, reduceCtorEq] at hi

end Inventory

end HashLink
