import HashLink.Proofs.Graph.Verified

/-!
# A module that grows stays verified

Verification compares indices with the sizes of pools, so a pool that grows at its end can only mend
faults. `Module.Grows` says what may become more, and what has to stay: all declarations. Of the
code it says only which methods there are, so a grown module is verified when its own methods are
(`Module.Grows.verify`), and a method that has not been edited still is.

The faults of a record are put together from the faults of its parts, and so are the proofs
(`Spares`): single indices are compared once, and every other lemma follows the definition of the
faults that it is about.
-/

namespace HashLink

/-! ## Fewer faults -/

/-- Where one part reports nothing, the other one reports nothing either. -/
def Spares (xs ys : List VerifyError) : Prop := xs = [] → ys = []

section Spares

variable {xs xs' ys ys' : List VerifyError} {α : Type}

theorem Spares.of_eq (h : ys = xs) : Spares xs ys := fun hx => h.trans hx

theorem Spares.append (hx : Spares xs xs') (hy : Spares ys ys') :
    Spares (xs ++ ys) (xs' ++ ys') := by
  intro h
  obtain ⟨hxs, hys⟩ := List.append_eq_nil_iff.mp h
  rw [hx hxs, hy hys, List.append_nil]

theorem Spares.flatMap {f f' : α → List VerifyError} (h : ∀ a, Spares (f a) (f' a)) (as : List α) :
    Spares (as.flatMap f) (as.flatMap f') := by
  intro hnil
  rw [List.flatMap_eq_nil_iff] at hnil ⊢
  exact fun a ha => h a (hnil a ha)

end Spares

/-! ## Records -/

/-- A module with the declarations of another one, and with pools of values that are longer at most.
The code of its methods may be different. -/
structure Module.Grows (m m' : Module) : Prop where
  version : m'.version = m.version
  ints : m.ints <+: m'.ints
  floats : m.floats <+: m'.floats
  strings : m.strings <+: m'.strings
  bytes : m.bytes <+: m'.bytes
  debugFiles : m.debugFiles <+: m'.debugFiles
  types : m'.types = m.types
  globals : m'.globals = m.globals
  natives : m'.natives = m.natives
  methodIndices : m'.methods.map (·.index) = m.methods.map (·.index)
  constants : m'.constants = m.constants
  entrypoint : m'.entrypoint = m.entrypoint

namespace Module.Grows

variable {m m' : Module}

theorem functionIndices (h : m.Grows m') : m'.functionIndices = m.functionIndices := by
  rw [Module.functionIndices, Module.functionIndices, h.natives, h.methodIndices]

theorem functionCount (h : m.Grows m') : m'.functionCount = m.functionCount := by
  have hmethods := congrArg List.length h.methodIndices
  rw [List.length_map, List.length_map] at hmethods
  rw [Module.functionCount, Module.functionCount, h.natives, hmethods]

theorem poolSize_le (h : m.Grows m') (pool : Pool) : m.poolSize pool ≤ m'.poolSize pool := by
  cases pool with
  | int => exact h.ints.length_le
  | float => exact h.floats.length_le
  | string => exact h.strings.length_le
  | bytes =>
      simp only [poolSize, h.version]
      split
      · exact h.bytes.length_le
      · exact h.strings.length_le
  | function => exact Nat.le_of_eq h.functionCount.symm
  | global => exact Nat.le_of_eq (congrArg List.length h.globals.symm)
  | type => exact Nat.le_of_eq (congrArg List.length h.types.symm)
  | debugFile => exact h.debugFiles.length_le
  | field | register => exact Nat.le_refl 0

theorem indexFault (h : m.Grows m') (place : Location) (pool : Pool) (index : Nat) :
    Spares (m.indexFault place pool index) (m'.indexFault place pool index) := by
  intro hnil
  rw [indexFault_eq_nil_iff] at hnil ⊢
  exact Nat.lt_of_lt_of_le hnil (h.poolSize_le pool)

theorem operandFault (h : m.Grows m') (place : Location) (pool : Pool) (index : Int32) :
    Spares (m.operandFault place pool index) (m'.operandFault place pool index) := by
  intro hnil
  rw [operandFault_eq_nil_iff] at hnil ⊢
  exact ⟨hnil.1, Nat.lt_of_lt_of_le hnil.2 (h.poolSize_le pool)⟩

theorem functionIndexFaults (h : m.Grows m') : m'.functionIndexFaults = m.functionIndexFaults := by
  rw [Module.functionIndexFaults, Module.functionIndexFaults, h.functionIndices, h.functionCount]

theorem slotFault (h : m.Grows m') (place : Location) (slot : Nat) :
    Spares (m.slotFault place slot) (m'.slotFault place slot) := by
  cases slot with
  | zero => exact .of_eq rfl
  | succ global => exact h.indexFault place .global global

theorem fieldFaults (h : m.Grows m') (place : Location) (fields : List (Field Nat)) :
    Spares (m.fieldFaults place fields) (m'.fieldFaults place fields) := by
  refine .flatMap (fun f => ?_) fields
  exact (h.indexFault place .string f.name).append (h.indexFault place .type f.type)

theorem objectFaults (h : m.Grows m') (place : Location) (o : ObjectDef Nat Int32 Nat) :
    Spares (m.objectFaults place o) (m'.objectFaults place o) := by
  have hname := h.indexFault place .string o.name
  have hsuper := Spares.flatMap (h.indexFault place .type) (superclass? o.super).toList
  have hglobal := h.slotFault place o.global
  have hfields := h.fieldFaults place o.fields
  have hprotos := Spares.flatMap (fun p : Proto Nat =>
    (h.indexFault place .string p.name).append (h.indexFault place .function p.function)) o.protos
  have hbindings := Spares.flatMap (fun b : Binding => h.indexFault place .function b.function)
    o.bindings
  exact ((((hname.append hsuper).append hglobal).append hfields).append hprotos).append hbindings

theorem typeFaults (h : m.Grows m') (place : Location) (t : RawType) :
    Spares (m.typeFaults place t) (m'.typeFaults place t) := by
  cases t with
  | atom kind => exact .of_eq rfl
  | callable kind signature =>
      exact (Spares.flatMap (h.indexFault place .type) signature.args).append
        (h.indexFault place .type signature.result)
  | object kind layout => exact h.objectFaults place layout
  | wrapper kind inner => exact h.indexFault place .type inner
  | virtual fields => exact h.fieldFaults place fields
  | abstract name => exact h.indexFault place .string name
  | enum layout =>
      have hconstructs := Spares.flatMap (fun c : Construct Nat =>
        (h.indexFault place .string c.name).append
          (Spares.flatMap (h.indexFault place .type) c.params)) layout.constructs
      exact ((h.indexFault place .string layout.name).append
        (h.slotFault place layout.global)).append hconstructs

theorem nativeFaults (h : m.Grows m') (place : Location) (n : Native) :
    Spares (m.nativeFaults place n) (m'.nativeFaults place n) :=
  ((h.indexFault place .string n.lib).append (h.indexFault place .string n.name)).append
    (h.indexFault place .type n.type)

theorem constantFaults (h : m.Grows m') (place : Location) (c : Constant) :
    Spares (m.constantFaults place c) (m'.constantFaults place c) :=
  (h.indexFault place .global c.global).append
    (Spares.flatMap (h.indexFault place .string) c.fields.head?.toList)

/-! ## Code -/

theorem argFault (h : m.Grows m') (f : Method) (position : Nat) (kind : OperandKind) (arg : Int32) :
    Spares (m.argFault f position kind arg) (m'.argFault f position kind arg) := by
  cases kind with
  | int | float | bytes | string | function | global | type => exact h.operandFault _ _ arg
  | register | offset | field | construct | inline | flag => exact .of_eq rfl

theorem instructionFaults (h : m.Grows m') (f : Method) (i : Instruction) (position : Nat) :
    Spares (m.instructionFaults f i position) (m'.instructionFaults f i position) := by
  refine .flatMap (fun x => ?_) i.args.zipIdx
  exact h.argFault f position (i.opcode.shape.kindAt x.2) x.1

/-- **A method is no worse in a grown module.** -/
theorem methodFaults (h : m.Grows m') (f : Method) :
    Spares (m.methodFaults f) (m'.methodFaults f) := by
  have htype := h.indexFault (.function f.index) .type f.type
  have hregisters := Spares.flatMap (h.indexFault (.function f.index) .type) f.registers
  have hcode := Spares.flatMap (fun x : Instruction × Nat => h.instructionFaults f x.1 x.2)
    f.instructions.zipIdx
  have hpositions := Spares.flatMap (fun p : Position =>
    h.operandFault (.function f.index) .debugFile p.file) (f.debug.getD [])
  exact ((htype.append hregisters).append hcode).append hpositions

/-! ## The module -/

/-- **A grown module is verified if its methods are free of faults.** They may be taken to have been
so before. -/
theorem verify (h : m.Grows m')
    (hmethods : (∀ f ∈ m.methods, m.methodFaults f = []) →
      ∀ f ∈ m'.methods, m'.methodFaults f = []) (hverify : m.verify = .ok ()) :
    m'.verify = .ok () := by
  -- the parts in the order of `faults`; all but the methods are the same records
  have hindices := Spares.of_eq h.functionIndexFaults
  have hentry := h.indexFault .header .function m.entrypoint
  have htypes := Spares.flatMap (fun x : RawType × Nat => h.typeFaults (.type x.2) x.1)
    m.types.zipIdx
  have hglobals := Spares.flatMap (fun x : Nat × Nat => h.indexFault (.global x.2) .type x.1)
    m.globals.zipIdx
  have hnatives := Spares.flatMap (fun x : Native × Nat => h.nativeFaults (.native x.2) x.1)
    m.natives.zipIdx
  have hcode : Spares (m.methods.flatMap m.methodFaults) (m'.methods.flatMap m'.methodFaults) := by
    intro hnil
    rw [List.flatMap_eq_nil_iff] at hnil ⊢
    exact hmethods hnil
  have hconstants := Spares.flatMap (fun x : Constant × Nat => h.constantFaults (.constant x.2) x.1)
    m.constants.zipIdx
  rw [verify_eq_ok_iff] at hverify ⊢
  rw [faults, h.entrypoint, h.types, h.globals, h.natives, h.constants]
  exact ((((((hindices.append hentry).append htypes).append hglobals).append hnatives).append
    hcode).append hconstants) hverify

end Module.Grows

/-! ## One instruction in place of another -/

namespace Module

variable {m : Module} {f : Method} {i : Instruction} {position : Nat}

/-- The length of the code and the registers are all that verification of an instruction looks at. -/
theorem instructionFaults_set (j : Instruction) (place : Nat) :
    m.instructionFaults { f with instructions := f.instructions.set position i } j place =
      m.instructionFaults f j place := by
  have harg (kind : OperandKind) (arg : Int32) :
      m.argFault { f with instructions := f.instructions.set position i } place kind arg =
        m.argFault f place kind arg := by
    cases kind with
    | offset => simp only [argFault, List.length_set]
    | int | float | bytes | string | function | global | type | register | field | construct
    | inline | flag => rfl
  simp only [instructionFaults, harg]

/-- **An instruction without faults may take the place of another one.** -/
theorem methodFaults_set (h : m.methodFaults f = [])
    (hi : m.instructionFaults f i position = []) :
    m.methodFaults { f with instructions := f.instructions.set position i } = [] := by
  simp only [methodFaults, List.append_eq_nil_iff, List.flatMap_eq_nil_iff] at h ⊢
  obtain ⟨⟨hheader, hcode⟩, hpositions⟩ := h
  refine ⟨⟨hheader, fun x hx => ?_⟩, hpositions⟩
  obtain ⟨j, place⟩ := x
  have hat := List.mem_zipIdx_iff_getElem?.mp hx
  rw [instructionFaults_set]
  rw [List.getElem?_set] at hat
  by_cases hplace : position = place
  · subst hplace
    rw [if_pos rfl] at hat
    split at hat
    · obtain rfl := Option.some.inj hat
      exact hi
    · cases hat
  · rw [if_neg hplace] at hat
    exact hcode (j, place) (List.mem_zipIdx_iff_getElem?.mpr hat)

end Module

end HashLink
