import HashLink.Proofs.Graph.OperandCount
import HashLink.Proofs.Graph.Restore
import HashLink.Proofs.Graph.Resolved

/-!
# What happens to an instruction on the way through a graph

A program that is resolved and flattened again has the same methods with the same code, instruction
by instruction. What may differ is told by `Module.Translates`, without mention of the graph: a call
gets the narrowest opcode, an argument that selects an entry of a pool selects an equal entry of the
new pool, and a flag becomes zero or one. All other arguments are the same numbers.

The argument goes through the operand that both arguments stand for. Where different numbers can
stand for one operand (`Module.Denotes`), the relation says which of them flattening takes.
-/

namespace HashLink

/-- The opcode of a call that passes a number of arguments. -/
def Opcode.callOf : Nat → Opcode
  | 0 => .call0
  | 1 => .call1
  | 2 => .call2
  | 3 => .call3
  | 4 => .call4
  | _ => .callN

theorem Opcode.forCount_of_isPlainCall {o : Opcode} (h : o.isPlainCall = true) (passed : Nat) :
    o.forCount (passed + 2) = callOf passed := by
  unfold forCount
  rw [if_pos h]
  rcases passed with _ | _ | _ | _ | _ | passed
  · rfl
  · rfl
  · rfl
  · rfl
  · rfl
  · rfl

theorem Opcode.isOpenEnded_of_isPlainCall {o : Opcode} (h : o.isPlainCall = true) :
    o.isOpenEnded = true := by
  cases o <;> first | rfl | cases h

/-! ## Arguments -/

namespace Module

/-- The entry of a pool of values that an argument of a kind selects. -/
def entryAt? (m : Module) (kind : OperandKind) (arg : Int32) : Option PoolValue :=
  if arg < 0 then none
  else
    match kind with
    | .int => m.ints[arg.toInt.toNat]?.map .int
    | .float => m.floats[arg.toInt.toNat]?.map .float
    | .bytes => (m.bytesAt? arg.toInt.toNat).map .bytes
    | .string => m.strings[arg.toInt.toNat]?.map .string
    | _ => none

/-- An argument of one module and the argument that takes its place in another. -/
def SameArgument (m m' : Module) (kind : OperandKind) (arg arg' : Int32) : Prop :=
  match kind with
  | .int | .float | .bytes | .string =>
    ∃ value, m.entryAt? kind arg = some value ∧ m'.entryAt? kind arg' = some value
  | .flag => arg' = if arg = 0 then 0 else 1
  | .register | .function | .global | .type | .field | .offset | .construct | .inline => arg' = arg

variable {m m' : Module}

/-- An argument that stands for a value of a pool selects it. -/
theorem entryAt?_of_denotes {arg : Int32} {o : Operand} {value : PoolValue} (h : m.Denotes arg o)
    (hvalue : o.poolValue? = some value) : m.entryAt? o.kind arg = some value := by
  unfold entryAt?
  cases o with
  | int | float | bytes | string =>
      obtain ⟨hneg, hat⟩ := h
      obtain rfl := Option.some.inj hvalue
      rw [if_neg hneg]
      dsimp only [Operand.kind]
      rw [hat]
      rfl
  | register | function | global | type | field | offset | construct | inline | flag =>
      cases hvalue

/-- Only one number stands for a given number. -/
theorem eq_of_toNat_eq {arg arg' : Int32} (h : ¬arg < 0) (h' : ¬arg' < 0)
    (he : arg.toInt.toNat = arg'.toInt.toNat) : arg' = arg := by
  rw [Int32.lt_iff_toInt_lt, Int32.toInt_zero] at h h'
  refine Int32.toInt_inj.mp ?_
  omega

/-- **An argument is replaced by the argument that the operand is flattened to.** -/
theorem CarriesValues.sameArgument {has : Inventory} {p : ValuePools}
    (hm' : m'.CarriesValues has p) {o : Operand} {arg arg' : Int32} (h : m.Denotes arg o)
    (hflat : has.flattenOperand p o = .ok arg') : m.SameArgument m' o.kind arg arg' := by
  have h' := hm'.denotes hflat
  cases o with
  | int value => exact ⟨.int value, entryAt?_of_denotes h rfl, entryAt?_of_denotes h' rfl⟩
  | float bits => exact ⟨.float bits, entryAt?_of_denotes h rfl, entryAt?_of_denotes h' rfl⟩
  | bytes value => exact ⟨.bytes value, entryAt?_of_denotes h rfl, entryAt?_of_denotes h' rfl⟩
  | string value => exact ⟨.string value, entryAt?_of_denotes h rfl, entryAt?_of_denotes h' rfl⟩
  | register number => exact congrArg UInt32.toInt32 (h'.2.trans h.2.symm)
  | function id | global id | type id => exact eq_of_toNat_eq h.1 h'.1 (h.2.2.trans h'.2.2.symm)
  | field value | offset value | construct value | inline value => exact Eq.trans h' (Eq.symm h)
  | flag value =>
      -- any number but zero stands for true, and flattening takes one
      obtain rfl := Except.ok.inj hflat
      obtain rfl : (arg != 0) = value := h
      show (if (arg != 0) = true then (1 : Int32) else 0) = if arg = 0 then 0 else 1
      by_cases hzero : arg = 0
      · rw [if_pos hzero, hzero]
        rfl
      · rw [if_neg hzero, if_pos (bne_iff_ne.mpr hzero)]

/-! ## Instructions -/

/-- An instruction of one module and the instruction that takes its place in another. Calls of a
known function have a result, the function and the arguments that they pass. -/
structure Translates (m m' : Module) (i i' : Instruction) : Prop where
  call : i.opcode.isPlainCall = true →
    ∃ passed, i.args.length = passed + 2 ∧ i'.opcode = Opcode.callOf passed
  other : i.opcode.isPlainCall = false → i'.opcode = i.opcode
  length_eq : i'.args.length = i.args.length
  args : ∀ (position : Nat) (arg arg' : Int32), i.args[position]? = some arg →
    i'.args[position]? = some arg' →
      m.SameArgument m' (i.opcode.shape.kindAt position) arg arg'

/-- **An instruction is replaced by the instruction that its op is flattened to.** -/
theorem CarriesValues.translates {has : Inventory} {p : ValuePools} (hm' : m'.CarriesValues has p)
    {i i' : Instruction} {op : Op} (h : m.resolveInstruction i = .ok op)
    (hflat : has.flattenOp p op = .ok i') : m.Translates m' i i' := by
  have harity := hasArity_of_resolveInstruction h
  obtain ⟨hopcode, hkinds, hden⟩ := resolveInstruction_eq_ok_iff.mp h
  obtain ⟨args, hargs, hflat⟩ := bind_eq_ok_iff.mp hflat
  obtain rfl := Except.ok.inj hflat
  have hargs := mapM_eq_ok_iff.mp hargs
  refine ⟨fun hcall => ?_, fun hother => ?_, ?_, fun position arg arg' harg harg' => ?_⟩
  · -- a call resolves with any number of operands but not with fewer than two
    have htwo : 2 ≤ i.args.length := (Instruction.hasArity_iff_of_isOpenEnded
      (Opcode.isOpenEnded_of_isPlainCall hcall)).mp harity
    obtain ⟨passed, hpassed⟩ := Nat.exists_eq_add_of_le' htwo
    refine ⟨passed, hpassed, ?_⟩
    rw [hopcode, hpassed, Opcode.forCount_of_isPlainCall hcall]
  · unfold Opcode.forCount at hopcode
    rwa [hother, if_neg Bool.false_ne_true] at hopcode
  · rw [← hargs.length_eq, hden.length_eq]
  · -- both arguments are at the place of one operand, which has the kind of the place
    obtain ⟨o, ho, hdenotes⟩ := getElem?_of_forall₂ hden harg
    obtain ⟨arg'', harg'', hoperand⟩ := getElem?_of_forall₂ hargs ho
    obtain rfl := Option.some.inj (harg'.symm.trans harg'')
    have hkind : i.opcode.shape.kindAt position = o.kind := by
      refine Opcode.kindAt_of_kindsFor (n := i.args.length) ?_
      rw [← hkinds, List.getElem?_map, ho]
      rfl
    rw [hkind]
    exact hm'.sameArgument hdenotes hoperand

/-- Code is translated one instruction after another. -/
theorem CarriesValues.translates_code {has : Inventory} {p : ValuePools}
    (hm' : m'.CarriesValues has p) {instructions instructions' : List Instruction} {ops : List Op}
    (h : instructions.mapM m.resolveInstruction = .ok ops)
    (hflat : ops.mapM (has.flattenOp p) = .ok instructions') :
    List.Forall₂ (m.Translates m') instructions instructions' := by
  rw [mapM_eq_ok_iff] at h hflat
  induction h generalizing instructions' with
  | nil =>
      cases hflat
      exact .nil
  | cons hi _ ih =>
      cases hflat with
      | cons hop hops => exact .cons (hm'.translates hi hop) (ih hops)

end Module

/-! ## Methods -/

/-- With different indices, an index selects one method. -/
theorem filter_index_eq_singleton {methods : List Method} {f : Method}
    (different : (methods.map (·.index)).Nodup) (hf : f ∈ methods) :
    methods.filter (·.index == f.index) = [f] := by
  induction methods with
  | nil => simp at hf
  | cons f' methods ih =>
      rw [List.map_cons, List.nodup_cons] at different
      rcases List.mem_cons.mp hf with rfl | hf
      · rw [List.filter_cons, if_pos (beq_self_eq_true f.index), List.cons.injEq]
        refine ⟨rfl, List.filter_eq_nil_iff.mpr fun f' hf' he => different.1 ?_⟩
        rw [← beq_iff_eq.mp he]
        exact List.mem_map_of_mem hf'
      · have hne : ¬(f'.index == f.index) = true := by
          intro he
          rw [beq_iff_eq.mp he] at different
          exact different.1 (List.mem_map_of_mem hf)
        rw [List.filter_cons, if_neg hne, ih different.2 hf]

/-- The function of the graph that a method was resolved to. -/
theorem Module.exists_routine_of_mem {m : Module} {s : Strategy} {g : Graph}
    (h : m.resolve s = .ok g) {f : Method} (hf : f ∈ m.methods) :
    ∃ r : Routine, g.functions[f.index]? = some ⟨f.type, .method r⟩ ∧ r.registers = f.registers ∧
      f.instructions.mapM m.resolveInstruction = .ok r.ops := by
  obtain ⟨function, hfunction, hresolved⟩ :=
    exists_function_of_mem h (method_mem_functionRecords_iff.mpr hf)
  cases hresolved with
  | method typed registers registers_eq code => exact ⟨_, hfunction, registers_eq, code⟩

/-- **Resolving a module and flattening the graph translates its methods, instruction by
instruction.** Of each method there is exactly one left, with the same type and registers. -/
theorem Module.translates_of_flatten {m m' : Module} {s s' : Strategy} {g : Graph}
    (h : m.resolve s = .ok g) (hflat : g.flatten s' = .ok m') {f : Method} (hf : f ∈ m.methods) :
    ∃ f' : Method, m'.methods.filter (·.index == f.index) = [f'] ∧ f'.type = f.type ∧
      f'.registers = f.registers ∧
      List.Forall₂ (m.Translates m') f.instructions f'.instructions := by
  -- the method, the function of its index, and the record of that index are one after another
  obtain ⟨r, hfunction, hregisters, hcode⟩ := exists_routine_of_mem h hf
  obtain ⟨p, table, hm', htable, hflattens⟩ := Graph.flatten_spec hflat
  have hnumbered : g.functions.zipIdx[f.index]? = some (⟨f.type, .method r⟩, f.index) := by
    simp [List.getElem?_zipIdx, hfunction]
  obtain ⟨record, hrecord, hflattened⟩ := getElem?_of_forall₂ hflattens hnumbered
  cases hflattened with
  | method code typed registers =>
      have hmem := ((getElem?_functionTable_iff htable).mp hrecord).1
      have honly := filter_index_eq_singleton (nodup_methodIndices_of_functionTable htable)
        (method_mem_functionRecords_iff.mp hmem)
      exact ⟨_, honly, rfl, hregisters, hm'.translates_code hcode code⟩

/-- A module in which every instruction can be said in another way: a call of one argument has the
opcode for any number of them, one of two equal integers and an unused string are in the way, bytes
are kept among the strings, and a flag is neither zero nor one. -/
def looseModule : Module where
  version := 4
  ints := [7, 7]
  strings := ["unused", "text"]
  types := [.atom .void, .callable .function ⟨[0], 0⟩]
  methods := [⟨1, 0, [0], [⟨.callN, [0, 0, 0]⟩, ⟨.int, [0, 1]⟩, ⟨.bytes, [0, 1]⟩,
                           ⟨.bool, [0, 7]⟩], none, none⟩]

theorem translates_looseModule :
    ∃ g m', looseModule.resolve .sequential = .ok g ∧ g.flatten .sequential = .ok m' ∧
      List.Forall₂ (looseModule.Translates m')
        [⟨.callN, [0, 0, 0]⟩, ⟨.int, [0, 1]⟩, ⟨.bytes, [0, 1]⟩, ⟨.bool, [0, 7]⟩]
        [⟨.call1, [0, 0, 0]⟩, ⟨.int, [0, 0]⟩, ⟨.bytes, [0, 0]⟩, ⟨.bool, [0, 1]⟩] := by
  have hflat : ∃ g m', looseModule.resolve .sequential = .ok g ∧ g.flatten .sequential = .ok m' ∧
      m'.methods.map (·.instructions) =
        [[⟨.call1, [0, 0, 0]⟩, ⟨.int, [0, 0]⟩, ⟨.bytes, [0, 0]⟩, ⟨.bool, [0, 1]⟩]] :=
    ⟨_, _, rfl, rfl, rfl⟩
  obtain ⟨g, m', hresolve, hflat, hcode⟩ := hflat
  obtain ⟨f', hf', _, _, htranslates⟩ := Module.translates_of_flatten hresolve hflat
    (List.mem_singleton_self _)
  have hmem : f'.instructions ∈ m'.methods.map (·.instructions) :=
    List.mem_map_of_mem (List.mem_of_mem_filter (hf' ▸ List.mem_singleton_self f'))
  rw [hcode, List.mem_singleton] at hmem
  rw [hmem] at htranslates
  exact ⟨g, m', hresolve, hflat, htranslates⟩

end HashLink
