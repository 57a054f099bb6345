import HashLink.Module.Verify
import HashLink.Proofs.Code.Arity
import HashLink.Proofs.Graph.Resolved

/-!
# What verification says about resolving

Verification and resolving go through the same references independently of each other. Outside the
code they agree record by record: no faults in a record is the same as being able to resolve it. An
argument without faults stands for an operand of its kind.

What resolving checks and verification does not is all that is left for a verified module: how
many operands an instruction has, that a constant has a field, and names. The faults of these are
other ones than the faults that verification looks for, so a verified module never fails with one
of the latter.
-/

namespace HashLink

/-! ## Faults -/

/-- Whether verification looks for a fault: a reference into one of the pools, a register, or the
index of a function. -/
def Fault.isVerified : Fault → Bool
  | .missing .int _ | .missing .float _ | .missing .string _ | .missing .bytes _
  | .missing .function _ | .missing .global _ | .missing .type _ => true
  | .invalidOperand _ _ _ | .functionIndexGap _ _ | .duplicateFunction _ => true
  | _ => false

theorem GraphError.IsBinding.isVerified {e : GraphError} (h : e.IsBinding) :
    e.fault.isVerified = false := by
  unfold GraphError.IsBinding at h
  split at h
  · rfl
  · rfl
  · rfl
  · rfl
  · exact h.elim

/-! ## Records -/

namespace Module

variable {m : Module} {place : Location}

@[simp] theorem indexFault_eq_nil_iff {pool : Pool} {index : Nat} :
    m.indexFault place pool index = [] ↔ index < m.poolSize pool := by
  unfold indexFault
  split <;> simp_all

@[simp] theorem operandFault_eq_nil_iff {pool : Pool} {index : Int32} :
    m.operandFault place pool index = [] ↔ 0 ≤ index ∧ index.toInt.toNat < m.poolSize pool := by
  unfold operandFault
  split <;> simp_all

@[simp] theorem slotFault_eq_nil_iff {slot : Nat} :
    m.slotFault place slot = [] ↔ ∃ global, m.slotRef slot = .ok global := by
  cases slot with
  | zero => simp [slotFault, globalSlot?]
  | succ slot => simp [slotFault, globalSlot?, poolSize]

theorem exists_getElem?_iff {α : Type} {xs : List α} {i : Nat} :
    (∃ x, xs[i]? = some x) ↔ i < xs.length := by
  rw [← Option.isSome_iff_exists, isSome_getElem?]

theorem exists_resolveField_iff {f : Field Nat} :
    (∃ f', m.resolveField f = .ok f') ↔ f.name < m.strings.length ∧ f.type < m.types.length := by
  simp [resolveField, exists_bind_eq_ok_iff, exists_getElem?_iff]

theorem exists_resolveProto_iff {p : Proto Nat} :
    (∃ p', m.resolveProto p = .ok p') ↔
      p.name < m.strings.length ∧ p.function < m.functionCount := by
  simp [resolveProto, exists_bind_eq_ok_iff, exists_getElem?_iff]

theorem exists_resolveBinding_iff {b : Binding} :
    (∃ b', m.resolveBinding b = .ok b') ↔ b.function < m.functionCount := by
  simp [resolveBinding, exists_bind_eq_ok_iff]

theorem exists_resolveConstruct_iff {c : Construct Nat} :
    (∃ c', m.resolveConstruct c = .ok c') ↔
      c.name < m.strings.length ∧ ∀ type ∈ c.params, type < m.types.length := by
  simp [resolveConstruct, exists_bind_eq_ok_iff, exists_getElem?_iff]

theorem fieldFaults_eq_nil_iff {fields : List (Field Nat)} :
    m.fieldFaults place fields = [] ↔ ∃ fields', fields.mapM m.resolveField = .ok fields' := by
  simp [fieldFaults, exists_mapM_eq_ok_iff, exists_resolveField_iff, poolSize]

theorem objectFaults_eq_nil_iff {o : ObjectDef Nat Int32 Nat} :
    m.objectFaults place o = [] ↔ ∃ o', m.resolveObject o = .ok o' := by
  simp [objectFaults, resolveObject, fieldFaults_eq_nil_iff, exists_bind_eq_ok_iff,
    exists_mapM_eq_ok_iff, exists_resolveProto_iff, exists_resolveBinding_iff,
    exists_getElem?_iff, poolSize, and_assoc, and_comm, and_left_comm]

/-- **A type has no fault exactly when it can be resolved.** -/
theorem typeFaults_eq_nil_iff {t : RawType} :
    m.typeFaults place t = [] ↔ ∃ t', m.resolveType t = .ok t' := by
  cases t with
  | atom kind => simp [typeFaults, resolveType]
  | callable kind signature => simp [typeFaults, resolveType, exists_bind_eq_ok_iff, poolSize]
  | object kind layout =>
      simp [typeFaults, resolveType, objectFaults_eq_nil_iff, exists_bind_eq_ok_iff]
  | wrapper kind inner => simp [typeFaults, resolveType, exists_bind_eq_ok_iff, poolSize]
  | virtual fields =>
      simp [typeFaults, resolveType, fieldFaults_eq_nil_iff, exists_bind_eq_ok_iff]
  | abstract name =>
      simp [typeFaults, resolveType, exists_bind_eq_ok_iff, exists_getElem?_iff, poolSize]
  | enum layout =>
      simp [typeFaults, resolveType, exists_bind_eq_ok_iff, exists_mapM_eq_ok_iff,
        exists_resolveConstruct_iff, exists_getElem?_iff, poolSize]

/-- A native has no fault exactly when it can be resolved. -/
theorem nativeFaults_eq_nil_iff {n : Native} :
    m.nativeFaults place n = [] ↔ ∃ f, m.resolveHeader (.native n) = .ok f := by
  simp [nativeFaults, resolveHeader, exists_bind_eq_ok_iff, exists_getElem?_iff, poolSize,
    and_assoc, and_comm]

/-- A constant without faults can be resolved exactly when it has a field. -/
theorem resolveConstant_of_constantFaults {c : Constant} (h : m.constantFaults place c = []) :
    (c.fields ≠ [] ∧ ∃ c', m.resolveConstant c = .ok c') ∨
      c.fields = [] ∧ m.resolveConstant c = .error (.invalidConstant c.global) := by
  unfold resolveConstant
  cases hfields : c.fields with
  | nil => exact .inr ⟨rfl, rfl⟩
  | cons payload rest =>
      left
      simpa [constantFaults, hfields, poolSize, exists_bind_eq_ok_iff, exists_getElem?_iff] using h

/-! ## Instructions -/

theorem exists_bytesAt?_iff {index : Nat} :
    (∃ value, m.bytesAt? index = some value) ↔ index < m.poolSize .bytes := by
  simp only [bytesAt?, poolSize]
  split
  · exact exists_getElem?_iff
  · simp [exists_getElem?_iff]

/-- An argument without faults stands for an operand of its kind. -/
theorem exists_denotes {f : Method} {position : Nat} {kind : OperandKind} {arg : Int32}
    (h : m.argFault f position kind arg = []) :
    ∃ operand, operand.kind = kind ∧ m.Denotes arg operand := by
  have hpool {pool : Pool} (h : m.operandFault (.instruction f.index position) pool arg = []) :
      ¬arg < 0 ∧ arg.toInt.toNat < m.poolSize pool := by
    obtain ⟨hpos, hlt⟩ := operandFault_eq_nil_iff.mp h
    exact ⟨Int32.not_lt.mpr hpos, hlt⟩
  cases kind with
  | register =>
      simp only [argFault, registerFault, ite_eq_left_iff, reduceCtorEq, imp_false, not_not] at h
      exact ⟨.register arg.toUInt32, rfl, Int32.not_lt.mpr h.1, rfl⟩
  | int =>
      obtain ⟨hpos, hlt⟩ := hpool h
      exact ⟨.int _, rfl, hpos, List.getElem?_eq_getElem hlt⟩
  | float =>
      obtain ⟨hpos, hlt⟩ := hpool h
      exact ⟨.float _, rfl, hpos, List.getElem?_eq_getElem hlt⟩
  | string =>
      obtain ⟨hpos, hlt⟩ := hpool h
      exact ⟨.string _, rfl, hpos, List.getElem?_eq_getElem hlt⟩
  | bytes =>
      obtain ⟨hpos, hlt⟩ := hpool h
      obtain ⟨value, hvalue⟩ := exists_bytesAt?_iff.mpr hlt
      exact ⟨.bytes value, rfl, hpos, hvalue⟩
  | function =>
      obtain ⟨hpos, hlt⟩ := hpool h
      exact ⟨.function _, rfl, hpos, hlt, rfl⟩
  | global =>
      obtain ⟨hpos, hlt⟩ := hpool h
      exact ⟨.global _, rfl, hpos, hlt, rfl⟩
  | type =>
      obtain ⟨hpos, hlt⟩ := hpool h
      exact ⟨.type _, rfl, hpos, hlt, rfl⟩
  | field => exact ⟨.field arg, rfl, rfl⟩
  | offset => exact ⟨.offset arg, rfl, rfl⟩
  | construct => exact ⟨.construct arg, rfl, rfl⟩
  | inline => exact ⟨.inline arg, rfl, rfl⟩
  | flag => exact ⟨.flag (arg != 0), rfl, rfl⟩

/-- Where every argument stands for an operand, only a missing one can be the problem. -/
theorem resolveOperands_of_denotes (opcode : Opcode) (position : Nat) {kinds : List OperandKind}
    {raws : List Int32}
    (h : ∀ x ∈ kinds.zip raws, ∃ operand, operand.kind = x.1 ∧ m.Denotes x.2 operand) :
    (∃ operands, m.resolveOperands opcode position kinds raws = .ok operands) ∨
      raws.length < kinds.length ∧
        ∃ p, m.resolveOperands opcode position kinds raws = .error (.missingOperand opcode p) := by
  induction kinds generalizing position raws with
  | nil => exact .inl ⟨[], rfl⟩
  | cons kind kinds ih =>
      cases raws with
      | nil => exact .inr ⟨by simp, position, rfl⟩
      | cons raw raws =>
          rw [List.zip_cons_cons, List.forall_mem_cons] at h
          obtain ⟨operand, hoperand⟩ := h.1
          rw [resolveOperands, resolveOperand_eq_ok_iff.mpr hoperand, ok_bind]
          rcases ih (position + 1) h.2 with ⟨operands, hrest⟩ | ⟨hlt, p, hrest⟩
          · exact .inl ⟨operand :: operands, by rw [hrest]; rfl⟩
          · exact .inr ⟨by simpa using hlt, p, by rw [hrest]; rfl⟩

/-- **An instruction without faults can be resolved exactly when it has the right number of
operands.** -/
theorem resolveInstruction_of_instructionFaults {f : Method} {i : Instruction} {position : Nat}
    (h : m.instructionFaults f i position = []) :
    (i.HasArity ∧ ∃ op, m.resolveInstruction i = .ok op) ∨
      ¬i.HasArity ∧ ∃ fault, m.resolveInstruction i = .error fault ∧ fault.isVerified = false := by
  have hdenotes : ∀ x ∈ (i.opcode.opShape.kindsFor i.args.length).zip i.args,
      ∃ operand, operand.kind = x.1 ∧ m.Denotes x.2 operand := by
    intro x hx
    obtain ⟨slot, hslot⟩ := List.mem_iff_getElem?.mp hx
    obtain ⟨hkind, harg⟩ := List.getElem?_zip_eq_some.mp hslot
    rw [instructionFaults, List.flatMap_eq_nil_iff] at h
    have hfault := h (x.2, slot) (List.mem_zipIdx_iff_getElem?.mpr harg)
    dsimp only at hfault
    rw [Opcode.kindAt_of_kindsFor hkind] at hfault
    exact exists_denotes hfault
  -- with every operand in order, what is left is how many there are
  rw [← i.length_kindsFor_iff]
  unfold resolveInstruction
  dsimp only
  rcases resolveOperands_of_denotes i.opcode 0 hdenotes with ⟨operands, hok⟩ | ⟨hlt, p, herror⟩
  · split
    · next fault he =>
      rw [hok] at he
      simp at he
    · split
      · next hlen => exact .inl ⟨hlen, _, rfl⟩
      · next hlen => exact .inr ⟨hlen, _, rfl, rfl⟩
  · split
    · next fault he =>
      obtain rfl := Except.error.inj (herror.symm.trans he)
      exact .inr ⟨by omega, _, rfl, rfl⟩
    · next operands he =>
      rw [herror] at he
      simp at he

/-! ## The whole module -/

theorem functionIndices_of_faults (h : m.functionIndexFaults = []) :
    m.functionIndices.Nodup ∧ ∀ i ∈ m.functionIndices, i < m.functionCount := by
  have hone : ∀ (i index : Nat), m.functionIndices[i]? = some index →
      index < m.functionCount ∧ index ∉ m.functionIndices.take i := by
    intro i index hi
    rw [functionIndexFaults, List.flatMap_eq_nil_iff] at h
    have hfault := h (index, i) (List.mem_zipIdx_iff_getElem?.mpr hi)
    dsimp only at hfault
    split at hfault
    · simp at hfault
    · split at hfault
      · simp at hfault
      · next hlt hnew => exact ⟨by omega, hnew⟩
  constructor
  · rw [List.nodup_iff_getElem?_ne_getElem?]
    intro i j hij hj he
    -- the later of two equal indices would have been seen before
    obtain ⟨_, hnew⟩ := hone j _ (List.getElem?_eq_getElem hj)
    refine hnew (List.mem_of_getElem? (i := i) ?_)
    rw [List.getElem?_take_of_lt hij, he, List.getElem?_eq_getElem hj]
  · intro index hindex
    obtain ⟨i, hi⟩ := List.mem_iff_getElem?.mp hindex
    exact (hone i index hi).1

/-- The parts of a module that can be resolved whenever it is verified. -/
structure Framed (m : Module) (rs : List FunctionRecord) (ts : List GraphType)
    (hs : List Function) : Prop where
  table : m.functionTable = .ok rs
  types : m.types.mapM m.resolveType = .ok ts
  globals : ∀ type ∈ m.globals, type < m.types.length
  headers : rs.mapM m.resolveHeader = .ok hs
  entrypoint : m.entrypoint < m.functionCount

/-- What verification says about the entries of a module, without where they are. -/
structure FaultFree (m : Module) : Prop where
  indices : m.functionIndexFaults = []
  entrypoint : m.entrypoint < m.functionCount
  types : ∀ t ∈ m.types, ∃ t', m.resolveType t = .ok t'
  globals : ∀ type ∈ m.globals, type < m.types.length
  natives : ∀ n ∈ m.natives, ∃ f, m.resolveHeader (.native n) = .ok f
  methods : ∀ f ∈ m.methods, ∃ f', m.resolveHeader (.method f) = .ok f'
  instructions : ∀ f ∈ m.methods, ∀ i ∈ f.instructions,
    ∃ position, m.instructionFaults f i position = []
  constants : ∀ c ∈ m.constants, ∃ place, m.constantFaults place c = []

theorem exists_place_of_zipIdx {α : Type} {xs : List α} {P : α × Nat → Prop}
    (h : ∀ x ∈ xs.zipIdx, P x) : ∀ x ∈ xs, ∃ i, P (x, i) := by
  intro x hx
  obtain ⟨i, hi⟩ := List.mem_iff_getElem?.mp hx
  exact ⟨i, h (x, i) (List.mem_zipIdx_iff_getElem?.mpr hi)⟩

theorem faultFree_of_verify (h : m.verify = .ok ()) : m.FaultFree := by
  rw [verify_eq_ok_iff] at h
  simp only [faults, List.append_eq_nil_iff, List.flatMap_eq_nil_iff, indexFault_eq_nil_iff,
    typeFaults_eq_nil_iff, nativeFaults_eq_nil_iff, methodFaults] at h
  obtain ⟨⟨⟨⟨⟨⟨hindices, hentry⟩, htypes⟩, hglobals⟩, hnatives⟩, hmethods⟩, hconstants⟩ := h
  refine ⟨hindices, hentry, fun t ht => ?_, fun type ht => ?_, fun n hn => ?_, fun f hf => ?_,
    fun f hf => ?_, fun c hc => ?_⟩
  · obtain ⟨_, ht'⟩ := exists_place_of_zipIdx htypes t ht
    exact ht'
  · obtain ⟨_, hlt⟩ := exists_place_of_zipIdx hglobals type ht
    exact hlt
  · obtain ⟨_, hf⟩ := exists_place_of_zipIdx hnatives n hn
    exact hf
  · obtain ⟨⟨⟨htype, hregisters⟩, _⟩, _⟩ := hmethods f hf
    simpa [resolveHeader, exists_bind_eq_ok_iff] using
      (⟨htype, hregisters⟩ : f.type < m.types.length ∧ ∀ r ∈ f.registers, r < m.types.length)
  · exact exists_place_of_zipIdx (hmethods f hf).1.2
  · obtain ⟨i, hc'⟩ := exists_place_of_zipIdx hconstants c hc
    exact ⟨.constant i, hc'⟩

theorem FaultFree.exists_framed (h : m.FaultFree) : ∃ rs ts hs, m.Framed rs ts hs := by
  obtain ⟨hdifferent, hbounded⟩ := functionIndices_of_faults h.indices
  obtain ⟨rs, htable⟩ := exists_functionTable hdifferent hbounded
  obtain ⟨ts, htypes⟩ := exists_mapM_eq_ok_iff.mpr h.types
  have heach : ∀ r ∈ rs, ∃ f, m.resolveHeader r = .ok f := by
    intro r hr
    have hmem := (functionTable_spec htable).1.mem_iff.mp hr
    rcases List.mem_append.mp hmem with hmem | hmem
    · obtain ⟨n, hn, rfl⟩ := List.mem_map.mp hmem
      exact h.natives n hn
    · obtain ⟨f, hf, rfl⟩ := List.mem_map.mp hmem
      exact h.methods f hf
  obtain ⟨hs, hheaders⟩ := exists_mapM_eq_ok_iff.mpr heach
  exact ⟨rs, ts, hs, htable, htypes, h.globals, hheaders, h.entrypoint⟩

/-- What is left to do for a module when its frame is resolved. -/
theorem Framed.resolve_eq {rs : List FunctionRecord} {ts : List GraphType} {hs : List Function}
    (frame : m.Framed rs ts hs) (s : Strategy) :
    m.resolve s = (do
      let constants ← m.constants.zipIdx.mapM fun (c, i) =>
        located (.constant i) (m.resolveConstant c)
      let named ← nameMethods ts hs
      let code ← s.traverse m.resolveCode rs
      return { version := m.version, types := ts, functions := named.zipWith Function.withOps code,
               globals := m.globals, constants, entrypoint := m.entrypoint }) := by
  have hglobals := typeRefs_eq_ok_iff.mpr ⟨frame.globals, rfl⟩
  have hentry := functionRef_eq_ok_iff.mpr ⟨frame.entrypoint, rfl⟩
  rw [Module.resolve, unlocated_eq_ok_iff.mpr frame.table, ok_bind,
    Strategy.traverse_eq_ok_iff.mpr frame.types, ok_bind, mapM_located_eq_ok_iff.mpr hglobals,
    ok_bind, Strategy.traverse_eq_ok_iff.mpr frame.headers, ok_bind]
  simp only [located_eq_ok_iff.mpr hentry, ok_bind]

/-! ### Names -/

theorem name_of_resolveHeader {r : FunctionRecord} {header : Function}
    (h : m.resolveHeader r = .ok header) :
    header.routine?.map (·.name.isSome) = if r.isNative then none else some false := by
  cases r with
  | native n =>
      simp only [resolveHeader, bind_eq_ok_iff, pure_eq_ok, Except.ok.injEq] at h
      obtain ⟨_, _, _, _, _, _, rfl⟩ := h
      rfl
  | method f =>
      simp only [resolveHeader, bind_eq_ok_iff, pure_eq_ok, Except.ok.injEq] at h
      obtain ⟨_, _, _, _, rfl⟩ := h
      rfl

/-- Headers have no names yet, and the methods of the module are the functions that can get
one. -/
theorem Framed.named?_eq_some_iff {rs : List FunctionRecord} {ts : List GraphType}
    {hs : List Function} (frame : m.Framed rs ts hs) {i : Nat} {b : Bool} :
    named? hs i = some b ↔ b = false ∧ ∃ f ∈ m.methods, f.index = i := by
  have hheaders := mapM_eq_ok_iff.mp frame.headers
  unfold named?
  rw [Option.map_bind]
  constructor
  · intro h
    obtain ⟨header, hheader, hname⟩ := Option.bind_eq_some_iff.mp h
    obtain ⟨r, hr, hresolve⟩ := getElem?_of_forall₂ hheaders.flip hheader
    rw [Function.comp_apply, name_of_resolveHeader hresolve] at hname
    obtain ⟨hmem, hindex⟩ := (getElem?_functionTable_iff frame.table).mp hr
    cases r with
    | native n => simp [FunctionRecord.isNative] at hname
    | method f =>
        refine ⟨by simpa [FunctionRecord.isNative, eq_comm] using hname, f, ?_, hindex⟩
        simpa [functionRecords] using hmem
  · intro h
    obtain ⟨rfl, f, hf, hindex⟩ := h
    have hmem := method_mem_functionRecords_iff.mpr hf
    have hr := (getElem?_functionTable_iff frame.table).mpr ⟨hmem, hindex⟩
    obtain ⟨header, hheader, hresolve⟩ := getElem?_of_forall₂ hheaders hr
    rw [hheader, Option.bind_some, Function.comp_apply, name_of_resolveHeader hresolve]
    rfl

/-! ### What is left to check -/

theorem Framed.exists_nameMethods_iff {rs : List FunctionRecord} {ts : List GraphType}
    {hs : List Function} (frame : m.Framed rs ts hs) :
    (∃ named, nameMethods ts hs = .ok named) ↔
      BindingsFound superclass? m.types ∧ ∀ f ∈ m.methods, NamedOnce m.types f.index := by
  have halike : List.Forall₂ (TypeDef.Alike superclass? id) m.types ts :=
    (mapM_eq_ok_iff.mp frame.types).imp fun _ _ ht => alike_of_resolveType ht
  have hnew : ∀ i, named? hs i ≠ some true := by
    intro i hi
    simpa using (frame.named?_eq_some_iff.mp hi).1
  have honce : (∀ i, named? hs i = some false → NamedOnce ts i) ↔
      ∀ f ∈ m.methods, NamedOnce m.types f.index := by
    simp only [frame.named?_eq_some_iff, true_and, NamedOnce.alike halike]
    constructor
    · intro hall f hf
      exact hall f.index ⟨f, hf, rfl⟩
    · intro hall i hi
      obtain ⟨f, hf, rfl⟩ := hi
      exact hall f hf
  rw [HashLink.exists_nameMethods_iff hnew, ← bindingsFound_iff halike, honce]

theorem FaultFree.exists_constants_iff (h : m.FaultFree) :
    (∃ constants, (m.constants.zipIdx.mapM fun (c, i) =>
      located (.constant i) (m.resolveConstant c)) = .ok constants) ↔
      ∀ c ∈ m.constants, c.fields ≠ [] := by
  simp only [mapM_located_eq_ok_iff, exists_mapM_eq_ok_iff]
  refine forall₂_congr fun c hc => ?_
  obtain ⟨place, hfaults⟩ := h.constants c hc
  rcases resolveConstant_of_constantFaults hfaults with ⟨hne, hok⟩ | ⟨hnil, herror⟩
  · exact iff_of_true hok hne
  · simp [hnil, herror]

theorem FaultFree.exists_code_iff (h : m.FaultFree) {rs : List FunctionRecord}
    (htable : m.functionTable = .ok rs) (s : Strategy) :
    (∃ code, s.traverse m.resolveCode rs = .ok code) ↔
      ∀ f ∈ m.methods, ∀ i ∈ f.instructions, i.HasArity := by
  have hone : ∀ f ∈ m.methods, ∀ i ∈ f.instructions,
      (∃ op, m.resolveInstruction i = .ok op) ↔ i.HasArity := by
    intro f hf i hi
    obtain ⟨position, hfaults⟩ := h.instructions f hf i hi
    rcases resolveInstruction_of_instructionFaults hfaults with
      ⟨harity, hok⟩ | ⟨harity, fault, herror, _⟩
    · exact iff_of_true hok harity
    · simp [harity, herror]
  simp only [traverse_resolveCode_eq_ok_iff, exists_mapM_eq_ok_iff,
    (functionTable_spec htable).1.mem_iff]
  constructor
  · intro hall f hf i hi
    have hmem := method_mem_functionRecords_iff.mpr hf
    exact (hone f hf i hi).mp (hall (.method f) hmem i hi)
  · intro hall r hr i hi
    cases r with
    | native n => simp [FunctionRecord.instructions] at hi
    | method f =>
        have hf := method_mem_functionRecords_iff.mp hr
        exact (hone f hf i hi).mpr (hall f hf i hi)

theorem FaultFree.constants_error (h : m.FaultFree) {e : GraphError}
    (herror : (m.constants.zipIdx.mapM fun (c, i) =>
      located (.constant i) (m.resolveConstant c)) = .error e) : e.fault.isVerified = false := by
  obtain ⟨⟨c, i⟩, hmem, hc⟩ := exists_of_mapM_eq_error herror
  obtain ⟨hfault, _⟩ := located_eq_error_iff.mp hc
  obtain ⟨place, hfaults⟩ := h.constants c (List.fst_mem_of_mem_zipIdx hmem)
  rcases resolveConstant_of_constantFaults hfaults with ⟨_, c', hok⟩ | ⟨_, herror'⟩
  · simp [hok] at hfault
  · rw [← Except.error.inj (herror'.symm.trans hfault)]
    rfl

theorem FaultFree.code_error (h : m.FaultFree) {rs : List FunctionRecord}
    (htable : m.functionTable = .ok rs) {s : Strategy} {e : GraphError}
    (herror : s.traverse m.resolveCode rs = .error e) : e.fault.isVerified = false := by
  rw [Strategy.traverse_eq_mapM] at herror
  obtain ⟨⟨r, id⟩, hmem, hr⟩ := exists_of_mapM_eq_error herror
  have hr' := (functionTable_spec htable).1.mem_iff.mp (List.fst_mem_of_mem_zipIdx hmem)
  cases r with
  | native n => simp [resolveCode] at hr
  | method f =>
      have hf := method_mem_functionRecords_iff.mp hr'
      obtain ⟨⟨i, position⟩, hi, he⟩ := exists_of_mapM_eq_error hr
      obtain ⟨hfault, _⟩ := located_eq_error_iff.mp he
      obtain ⟨position', hfaults⟩ := h.instructions f hf i (List.fst_mem_of_mem_zipIdx hi)
      rcases resolveInstruction_of_instructionFaults hfaults with
        ⟨_, op, hok⟩ | ⟨_, fault, hfault', hnot⟩
      · simp [hok] at hfault
      · rwa [Except.error.inj (hfault'.symm.trans hfault)] at hnot

/-- **What verification leaves open, exactly.** A verified module can be resolved if and only if
its instructions have the right numbers of operands, its constants have a field, its bindings are
found and its methods get at most one name from them. If it cannot, the fault is not one that
verification looks for. -/
theorem resolve_iff_of_verify (h : m.verify = .ok ()) (s : Strategy) :
    ((∃ g, m.resolve s = .ok g) ↔
      (∀ f ∈ m.methods, ∀ i ∈ f.instructions, i.HasArity) ∧
      (∀ c ∈ m.constants, c.fields ≠ []) ∧
      BindingsFound superclass? m.types ∧
      ∀ f ∈ m.methods, NamedOnce m.types f.index) ∧
    ∀ e, m.resolve s = .error e → e.fault.isVerified = false := by
  have hfree := faultFree_of_verify h
  obtain ⟨rs, ts, hs, frame⟩ := hfree.exists_framed
  rw [frame.resolve_eq s]
  constructor
  · simp only [exists_bind_eq_ok_iff, exists_and_right, pure_eq_ok, Except.ok.injEq, exists_eq',
      and_true]
    rw [hfree.exists_constants_iff, frame.exists_nameMethods_iff,
      hfree.exists_code_iff frame.table s]
    constructor
    · intro hall
      obtain ⟨hconstants, ⟨hbindings, hnames⟩, hcode⟩ := hall
      exact ⟨hcode, hconstants, hbindings, hnames⟩
    · intro hall
      obtain ⟨hcode, hconstants, hbindings, hnames⟩ := hall
      exact ⟨hconstants, ⟨hbindings, hnames⟩, hcode⟩
  · intro e he
    rcases bind_eq_error_iff.mp he with he | ⟨constants, _, he⟩
    · exact hfree.constants_error he
    · rcases bind_eq_error_iff.mp he with he | ⟨named, _, he⟩
      · exact (nameMethods_error (supersExist_of_resolveType frame.types) he).isVerified
      · rcases bind_eq_error_iff.mp he with he | ⟨code, _, he⟩
        · exact hfree.code_error frame.table he
        · simp at he

end Module

/-- A module with a method that is bound to an inherited field. -/
def boundModule : Module where
  version := 5
  ints := [7]
  strings := ["Base", "run", "Derived"]
  types := [.atom .void, .callable .function ⟨[], 0⟩,
            .object .object ⟨0, -1, 0, [⟨1, 1⟩], [], []⟩,
            .object .object ⟨2, 2, 1, [], [], [⟨0, 0⟩]⟩]
  globals := [3]
  methods := [⟨1, 0, [0], [⟨.call0, [0, 1, 0]⟩, ⟨.ret, [0]⟩], none, none⟩,
              ⟨1, 1, [0], [⟨.int, [0, 0]⟩], none, none⟩]
  constants := [⟨0, [1, 3]⟩]
  entrypoint := 1

theorem resolve_boundModule :
    boundModule.verify = .ok () ∧ ∀ s, ∃ g, boundModule.resolve s = .ok g := by
  have hverify : boundModule.verify = .ok () := rfl
  refine ⟨hverify, fun s => (Module.resolve_iff_of_verify hverify s).1.mpr
    ⟨by decide, by decide, ?_, ?_⟩⟩
  · intro id t layout ht ho hne
    rcases id with _ | _ | _ | _ | id
    · obtain rfl := Option.some.inj ht
      simp [TypeDef.object?] at ho
    · obtain rfl := Option.some.inj ht
      simp [TypeDef.object?] at ho
    · obtain rfl := Option.some.inj ht
      obtain rfl := Option.some.inj ho
      simp at hne
    · obtain rfl := Option.some.inj ht
      obtain rfl := Option.some.inj ho
      exact ⟨_, .under rfl rfl rfl (.top rfl rfl rfl), by decide⟩
    · simp [boundModule] at ht
  · decide

end HashLink
