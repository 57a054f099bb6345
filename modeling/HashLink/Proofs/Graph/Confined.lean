import HashLink.Proofs.Graph.PoolContents
import HashLink.Proofs.Graph.Verified

/-!
# What flattening guarantees of the code

Flattening makes every index of a module itself, but for two kinds of operands that it copies as
they are: the number of a register and the distance of a branch. So a flattened module passes
verification exactly when its registers and branches stay within their method (`Routine.Confined`),
and a fault that verification finds is one of these.

Verification collects faults part by part. What a part reports is said together with the condition
under which it reports nothing (`Reports`), and a flattened part reports nothing at all unless it
holds code.
-/

namespace HashLink

/-! ## Code that stays within its method -/

namespace Routine

/-- An operand at a position of the code refers to a register of the routine, or leads to an
instruction of it. A branch is taken from the instruction after the one that holds it. -/
def Admits (r : Routine) (position : Nat) : Operand → Prop
  | .register number => number.toNat < r.registers.length
  | .offset distance =>
    0 ≤ (position : Int) + 1 + distance.toInt ∧ (position : Int) + 1 + distance.toInt < r.ops.length
  | _ => True

/-- The registers and branches of a routine stay within it. -/
def Confined (r : Routine) : Prop :=
  ∀ (position : Nat) (op : Op), r.ops[position]? = some op → ∀ o ∈ op.operands, r.Admits position o

end Routine

/-- Whether a fault is one of a register or of a branch. -/
def VerifyError.isLocal : VerifyError → Bool
  | .invalidRegister _ _ _ | .invalidJumpTarget _ _ _ => true
  | _ => false

/-! ## Reports -/

/-- A part reports nothing exactly under a condition, and otherwise registers and branches only. -/
def Reports (faults : List VerifyError) (condition : Prop) : Prop :=
  (faults = [] ↔ condition) ∧ ∀ e ∈ faults, e.isLocal = true

section Reports

variable {xs ys : List VerifyError} {C D : Prop} {α β : Type}

theorem reports_nil (h : xs = []) : Reports xs True := by
  subst h
  exact ⟨by simp, by simp⟩

theorem Reports.congr (h : Reports xs C) (hCD : C ↔ D) : Reports xs D := ⟨h.1.trans hCD, h.2⟩

theorem Reports.append (hx : Reports xs C) (hy : Reports ys D) : Reports (xs ++ ys) (C ∧ D) :=
  ⟨List.append_eq_nil_iff.trans (and_congr hx.1 hy.1), List.forall_mem_append.mpr ⟨hx.2, hy.2⟩⟩

theorem Reports.flatMap {f : α → List VerifyError} {C : α → Prop} {as : List α}
    (h : ∀ a ∈ as, Reports (f a) (C a)) : Reports (as.flatMap f) (∀ a ∈ as, C a) := by
  constructor
  · rw [List.flatMap_eq_nil_iff]
    exact forall₂_congr fun a ha => (h a ha).1
  · rw [List.forall_mem_flatMap]
    exact fun a ha => (h a ha).2

/-- Entries that report nothing, whatever their numbers. -/
theorem reports_zipIdx {f : α × Nat → List VerifyError} {as : List α}
    (h : ∀ a ∈ as, ∀ i, f (a, i) = []) : Reports (as.zipIdx.flatMap f) True :=
  reports_nil (List.flatMap_eq_nil_iff.mpr fun x hx => h x.1 (List.fst_mem_of_mem_zipIdx hx) x.2)

/-- A single check of a register or of a branch. -/
theorem reports_ite [Decidable C] {e : VerifyError} (he : e.isLocal = true) :
    Reports (if C then [] else [e]) C := by
  by_cases h : C
  · exact (reports_nil (if_pos h)).congr (by simp [h])
  · rw [if_neg h]
    exact ⟨by simp [h], by simp [he]⟩

/-- Entries with their numbers, compared to the entries that they come from. -/
theorem Reports.flatMap_zipIdx {f : α × Nat → List VerifyError} {C : Nat → β → Prop} {as : List α}
    {bs : List β} (hlen : as.length = bs.length)
    (h : ∀ i a b, as[i]? = some a → bs[i]? = some b → Reports (f (a, i)) (C i b)) :
    Reports (as.zipIdx.flatMap f) (∀ i b, bs[i]? = some b → C i b) := by
  have hpartner {i : Nat} {a : α} (ha : as[i]? = some a) : ∃ b, bs[i]? = some b := by
    obtain ⟨hlt, _⟩ := List.getElem?_eq_some_iff.mp ha
    exact ⟨_, List.getElem?_eq_getElem (hlen ▸ hlt)⟩
  refine (Reports.flatMap (C := fun x => ∀ b, bs[x.2]? = some b → C x.2 b) fun x hx => ?_).congr ?_
  · obtain ⟨a, i⟩ := x
    have ha := List.mem_zipIdx_iff_getElem?.mp hx
    obtain ⟨b, hb⟩ := hpartner ha
    exact (h i a b ha hb).congr (by simp [hb])
  · constructor
    · intro hall i b hb
      obtain ⟨hlt, _⟩ := List.getElem?_eq_some_iff.mp hb
      have ha : as[i]? = some as[i] := List.getElem?_eq_getElem (hlen ▸ hlt)
      exact hall (as[i], i) (List.mem_zipIdx_iff_getElem?.mpr ha) b hb
    · exact fun hall x _ b hb => hall x.2 b hb

end Reports

namespace Module

variable {m : Module} {place : Location}

/-! ## Instructions -/

theorem poolFault_eq_nil {pool : Pool} {arg : Int32} (hneg : ¬arg < 0)
    (hlt : arg.toInt.toNat < m.poolSize pool) : m.operandFault place pool arg = [] :=
  operandFault_eq_nil_iff.mpr ⟨Int32.not_lt.mp hneg, hlt⟩

/-- **An argument that stands for an operand is at fault only as a register or as a branch.** -/
theorem reports_argFault {f : Method} {r : Routine} (hregisters : f.registers = r.registers)
    (hlength : f.instructions.length = r.ops.length) {arg : Int32} {o : Operand}
    (h : m.Denotes arg o) (position : Nat) :
    Reports (m.argFault f position o.kind arg) (r.Admits position o) := by
  cases o with
  | register number =>
      obtain ⟨hneg, rfl⟩ := h
      have hpos := Int32.not_lt.mp hneg
      have hnat : arg.toUInt32.toNat = arg.toInt.toNat := Int32.toNat_toUInt32_of_le hpos
      refine (reports_ite rfl).congr ?_
      rw [Routine.Admits, hnat, hregisters, and_iff_right hpos]
  | offset distance =>
      obtain rfl : arg = distance := h
      refine (reports_ite rfl).congr ?_
      rw [Routine.Admits, hlength]
  | int value | float value | string value =>
      obtain ⟨hlt, _⟩ := List.getElem?_eq_some_iff.mp h.2
      exact reports_nil (poolFault_eq_nil h.1 hlt)
  | bytes value => exact reports_nil (poolFault_eq_nil h.1 (exists_bytesAt?_iff.mp ⟨value, h.2⟩))
  | function id | global id | type id => exact reports_nil (poolFault_eq_nil h.1 h.2.1)
  | field | construct | inline | flag => exact reports_nil rfl

theorem reports_instructionFaults {f : Method} {r : Routine}
    (hregisters : f.registers = r.registers) (hlength : f.instructions.length = r.ops.length) {i : Instruction} {op : Op}
    (hopcode : i.opcode = op.opcode) (h : List.Forall₂ m.Denotes i.args op.operands)
    (position : Nat) :
    Reports (m.instructionFaults f i position) (∀ o ∈ op.operands, r.Admits position o) := by
  refine (Reports.flatMap_zipIdx h.length_eq (C := fun _ o => r.Admits position o)
    fun slot arg o harg ho => ?_).congr ?_
  · -- the layout of the opcode gives the argument the kind of the operand
    have hkind : i.opcode.shape.kindAt slot = o.kind := by
      refine Opcode.kindAt_of_kindsFor (n := op.operands.length) ?_
      have hkinds := op.fits.1
      rw [List.length_map] at hkinds
      rw [hopcode, ← hkinds, List.getElem?_map, ho]
      rfl
    dsimp only
    rw [hkind]
    obtain ⟨o', ho', hdenotes⟩ := getElem?_of_forall₂ h harg
    obtain rfl := Option.some.inj (ho.symm.trans ho')
    exact reports_argFault hregisters hlength hdenotes position
  · constructor
    · intro hall o ho
      obtain ⟨slot, hslot⟩ := List.mem_iff_getElem?.mp ho
      exact hall slot o hslot
    · exact fun hall slot o ho => hall o (List.mem_of_getElem? ho)

/-- **A method of sound parts is at fault only in its registers and branches.** -/
theorem reports_methodFaults {f : Method} {r : Routine} (htype : f.type < m.types.length)
    (hregisters : f.registers = r.registers) (hexist : ∀ t ∈ r.registers, t < m.types.length)
    (hcode : List.Forall₂ (fun op i => i.opcode = op.opcode ∧
      List.Forall₂ m.Denotes i.args op.operands) r.ops f.instructions)
    (hdebug : ∀ p ∈ f.debug.getD [], p.file = 0) (hfile : 0 < m.debugFiles.length) :
    Reports (m.methodFaults f) r.Confined := by
  have hlength := hcode.length_eq.symm
  have hheader : m.indexFault (.function f.index) .type f.type ++
      f.registers.flatMap (m.indexFault (.function f.index) .type) = [] := by
    simp [htype, hregisters, poolSize]
    exact hexist
  have hpositions : ((f.debug.getD []).flatMap fun p =>
      m.operandFault (.function f.index) .debugFile p.file) = [] := by
    rw [List.flatMap_eq_nil_iff]
    intro p hp
    rw [hdebug p hp]
    exact operandFault_eq_nil_iff.mpr ⟨by decide, hfile⟩
  refine ((reports_nil hheader).append (Reports.flatMap_zipIdx hlength
    (C := fun position op => ∀ o ∈ op.operands, r.Admits position o)
    fun position i op hi hop => ?_)).append (reports_nil hpositions) |>.congr ?_
  · obtain ⟨i', hi', hopcode, hdenotes⟩ := getElem?_of_forall₂ hcode hop
    obtain rfl := Option.some.inj (hi.symm.trans hi')
    exact reports_instructionFaults hregisters hlength hopcode hdenotes position
  · rw [and_true, true_and]
    rfl

/-! ## Everything else -/

theorem functionIndexFaults_eq_nil (different : m.functionIndices.Nodup)
    (bounded : ∀ i ∈ m.functionIndices, i < m.functionCount) : m.functionIndexFaults = [] := by
  rw [functionIndexFaults, List.flatMap_eq_nil_iff]
  rintro ⟨index, i⟩ hmem
  have hi := List.mem_zipIdx_iff_getElem?.mp hmem
  have hlt := bounded index (List.mem_of_getElem? hi)
  have hnew : index ∉ m.functionIndices.take i := by
    intro hold
    have hhere : index ∈ m.functionIndices.drop i := by
      refine List.mem_of_getElem? (i := 0) ?_
      rw [List.getElem?_drop, Nat.add_zero, hi]
    exact List.disjoint_take_drop different (Nat.le_refl i) hold hhere
  simp [hnew, hlt]

theorem constantFaults_eq_nil {c : Constant} {c' : StringConstant}
    (h : m.resolveConstant c = .ok c') : m.constantFaults place c = [] := by
  unfold resolveConstant at h
  split at h
  · simp at h
  · next payload rest hfields =>
    obtain ⟨global, hglobal, h⟩ := bind_eq_ok_iff.mp h
    obtain ⟨value, hvalue, _⟩ := bind_eq_ok_iff.mp h
    obtain ⟨hlt, _⟩ := globalRef_eq_ok_iff.mp hglobal
    obtain ⟨hlt', _⟩ := List.getElem?_eq_some_iff.mp (stringRef_eq_ok_iff.mp hvalue)
    simp [constantFaults, hfields, poolSize, hlt, hlt']

end Module

/-- A flattened op has the opcode of the op, and its arguments stand for the operands. -/
theorem Module.CarriesValues.denotes_flattenOp {m : Module} {has : Inventory} {p : ValuePools}
    (hm : m.CarriesValues has p) {op : Op} {i : Instruction} (h : has.flattenOp p op = .ok i) :
    i.opcode = op.opcode ∧ List.Forall₂ m.Denotes i.args op.operands := by
  obtain ⟨args, hargs, h⟩ := bind_eq_ok_iff.mp h
  obtain rfl := Except.ok.inj h
  exact ⟨rfl, ((mapM_eq_ok_iff.mp hargs).imp fun _ _ => hm.denotes).flip⟩

namespace Graph

variable {s : Strategy} {g : Graph} {m : Module}

/-- Every position is in the placeholder for the file. -/
theorem length_debugFiles (h : g.flatten s = .ok m) : m.debugFiles.length = 1 := by
  obtain ⟨_, _, _, stages⟩ := flatten_eq_ok_iff.mp h
  rw [stages.module_eq]
  rfl

theorem reports_methodFaults (h : g.flatten s = .ok m) {f : Method} (hf : f ∈ m.methods) :
    Reports (m.methodFaults f)
      (∀ type r, g.functions[f.index]? = some ⟨type, .method r⟩ → r.Confined) := by
  obtain ⟨p, _, index, hm, _, hat, hflat⟩ :=
    exists_flattens_of_mem h (Module.method_mem_functionRecords_iff.mpr hf)
  cases hflat with
  | @method type _ r instructions code typed registers =>
      have hcode := (mapM_eq_ok_iff.mp code).imp fun _ _ => hm.denotes_flattenOp
      refine (Module.reports_methodFaults (hm.types ▸ typed) rfl (hm.types ▸ registers) hcode
        (fun p hp => ?_) (by rw [length_debugFiles h]; decide)).congr ?_
      · rw [List.eq_of_mem_replicate hp]
      · simp [hat]

/-- The methods of a flattened module are those of the graph. -/
theorem exists_method_of_flatten (h : g.flatten s = .ok m) {i type : Nat} {r : Routine}
    (hi : g.functions[i]? = some ⟨type, .method r⟩) : ∃ f ∈ m.methods, f.index = i := by
  obtain ⟨p, table, _, htable, hflat⟩ := flatten_spec h
  have hnumbered : g.functions.zipIdx[i]? = some (⟨type, .method r⟩, i) := by
    simp [List.getElem?_zipIdx, hi]
  obtain ⟨record, hrecord, hflattens⟩ := getElem?_of_forall₂ hflat hnumbered
  obtain ⟨hmem, hindex⟩ := (Module.getElem?_functionTable_iff htable).mp hrecord
  cases hflattens with
  | method code typed registers =>
      exact ⟨_, Module.method_mem_functionRecords_iff.mp hmem, hindex⟩

theorem functionIndexFaults_of_flatten (h : g.flatten s = .ok m) : m.functionIndexFaults = [] := by
  obtain ⟨p, table, _, htable, _⟩ := flatten_spec h
  have hindices := Module.functionIndices_perm_range htable
  exact Module.functionIndexFaults_eq_nil (hindices.nodup_iff.mpr List.nodup_range)
    fun i hi => List.mem_range.mp (hindices.mem_iff.mp hi)

theorem entrypoint_lt_of_flatten (h : g.flatten s = .ok m) : m.entrypoint < m.functionCount := by
  obtain ⟨p, table, hm, _⟩ := flatten_spec h
  obtain ⟨_, _, _, stages⟩ := flatten_eq_ok_iff.mp h
  have hentry : m.entrypoint = g.entrypoint := by rw [stages.module_eq]
  rw [hentry, hm.functions]
  exact stages.entrypoint

theorem global_lt_of_flatten (h : g.flatten s = .ok m) {type : Nat} (ht : type ∈ m.globals) :
    type < m.types.length := by
  obtain ⟨p, table, hm, _⟩ := flatten_spec h
  obtain ⟨_, _, _, stages⟩ := flatten_eq_ok_iff.mp h
  rw [stages.module_eq] at ht
  rw [hm.types]
  exact stages.globals type ht

theorem typeFaults_of_flatten (h : g.flatten s = .ok m) (place : Location) {t : RawType}
    (ht : t ∈ m.types) : m.typeFaults place t = [] := by
  obtain ⟨p, table, hm, _⟩ := flatten_spec h
  obtain ⟨_, _, _, stages⟩ := flatten_eq_ok_iff.mp h
  obtain ⟨t', ht', hflat⟩ := exists_of_mem_result stages.types ht
  exact Module.typeFaults_eq_nil_iff.mpr ⟨t', hm.resolveType (typeNames_subset ht') hflat⟩

theorem nativeFaults_of_flatten (h : g.flatten s = .ok m) (place : Location) {n : Native}
    (hn : n ∈ m.natives) : m.nativeFaults place n = [] := by
  have hmem : FunctionRecord.native n ∈ m.functionRecords := by
    simpa [Module.functionRecords] using hn
  obtain ⟨p, f, _, hm, hf, _, hflat⟩ := exists_flattens_of_mem h hmem
  exact Module.nativeFaults_eq_nil_iff.mpr ⟨_, hm.resolveHeader (functionNames_subset hf) hflat⟩

theorem constantFaults_of_flatten (h : g.flatten s = .ok m) (place : Location) {c : Constant}
    (hc : c ∈ m.constants) : m.constantFaults place c = [] := by
  obtain ⟨p, table, hm, _⟩ := flatten_spec h
  obtain ⟨_, _, _, stages⟩ := flatten_eq_ok_iff.mp h
  obtain ⟨c', hc', hflat⟩ := exists_of_mem_result stages.constants hc
  exact Module.constantFaults_eq_nil (hm.resolveConstant (constantValue_mem hc') hflat)

/-- **Outside the code of its methods a flattened module has no faults.** -/
theorem reports_faults (h : g.flatten s = .ok m) :
    Reports m.faults (∀ f ∈ m.methods, ∀ type r,
      g.functions[f.index]? = some ⟨type, .method r⟩ → r.Confined) := by
  have hindices := reports_nil (functionIndexFaults_of_flatten h)
  have hentry : Reports (m.indexFault .header .function m.entrypoint) True :=
    reports_nil (Module.indexFault_eq_nil_iff.mpr (entrypoint_lt_of_flatten h))
  have htypes : Reports (m.types.zipIdx.flatMap fun x => m.typeFaults (.type x.2) x.1) True :=
    reports_zipIdx fun t ht i => typeFaults_of_flatten h (.type i) ht
  have hglobals : Reports (m.globals.zipIdx.flatMap fun x =>
      m.indexFault (.global x.2) .type x.1) True :=
    reports_zipIdx fun type ht i => Module.indexFault_eq_nil_iff.mpr (global_lt_of_flatten h ht)
  have hnatives : Reports (m.natives.zipIdx.flatMap fun x =>
      m.nativeFaults (.native x.2) x.1) True :=
    reports_zipIdx fun n hn i => nativeFaults_of_flatten h (.native i) hn
  have hconstants : Reports (m.constants.zipIdx.flatMap fun x =>
      m.constantFaults (.constant x.2) x.1) True :=
    reports_zipIdx fun c hc i => constantFaults_of_flatten h (.constant i) hc
  have hmethods := Reports.flatMap fun f hf => reports_methodFaults h (f := f) hf
  refine ((((((hindices.append hentry).append htypes).append hglobals).append hnatives).append
    hmethods).append hconstants).congr ?_
  simp only [true_and, and_true]

end Graph

/-- **A flattened module passes verification exactly when the registers and branches of the graph
stay within their methods.** Nothing else that verification looks at can be at fault. -/
theorem Graph.verify_flatten_iff {s : Strategy} {g : Graph} {m : Module} (h : g.flatten s = .ok m) :
    (m.verify = .ok () ↔ ∀ f ∈ g.functions, ∀ r, f.routine? = some r → r.Confined) ∧
      ∀ e ∈ m.faults, e.isLocal = true := by
  obtain ⟨hnil, hlocal⟩ := reports_faults h
  refine ⟨(m.verify_eq_ok_iff.trans hnil).trans ⟨fun hall f hf r hr => ?_, ?_⟩, hlocal⟩
  · obtain ⟨type, body⟩ := f
    obtain ⟨i, hi⟩ := List.mem_iff_getElem?.mp hf
    cases body with
    | native lib name => cases hr
    | method r' =>
        obtain rfl := Option.some.inj hr
        obtain ⟨f', hf', rfl⟩ := exists_method_of_flatten h hi
        exact hall f' hf' type r' hi
  · exact fun hall f _ type r hr => hall ⟨type, .method r⟩ (List.mem_of_getElem? hr) r rfl

/-- A graph with a switch over the given branches. -/
def switchGraph (first other : Int32) : Graph :=
  { version := 5,
    types := [.atom .void, .callable .function ⟨[], 0⟩],
    functions := [⟨1, .method { name := none, parent := none, registers := [0],
                                ops := [⟨.label, [], ⟨rfl, rfl⟩⟩,
                                        ⟨.switch, [.register 0, .offset first, .offset other],
                                         ⟨rfl, rfl⟩⟩,
                                        ⟨.ret, [.register 0], ⟨rfl, rfl⟩⟩] }⟩],
    globals := [], constants := [], entrypoint := 0 }

/-- Both graphs can be flattened. A switch may lead back to the first instruction, but not past
the last one. -/
theorem verify_flatten_switchGraph :
    (∀ f ∈ (switchGraph (-2) 0).functions, ∀ r, f.routine? = some r → r.Confined) ∧
      ¬∀ f ∈ (switchGraph (-2) 1).functions, ∀ r, f.routine? = some r → r.Confined := by
  have hinside : ∃ m, (switchGraph (-2) 0).flatten .sequential = .ok m ∧ m.verify = .ok () :=
    ⟨_, rfl, rfl⟩
  have houtside : ∃ m, (switchGraph (-2) 1).flatten .sequential = .ok m ∧
      m.verify = .error (.invalidJumpTarget (.instruction 0 1) 3 3) := ⟨_, rfl, rfl⟩
  obtain ⟨m, hm, hverify⟩ := hinside
  obtain ⟨m', hm', herror⟩ := houtside
  refine ⟨(Graph.verify_flatten_iff hm).1.mp hverify, fun hconfined => ?_⟩
  rw [(Graph.verify_flatten_iff hm').1.mpr hconfined] at herror
  cases herror

end HashLink
