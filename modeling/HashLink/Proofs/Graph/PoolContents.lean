import HashLink.Proofs.Graph.Reflatten
import HashLink.Proofs.Graph.Restore

/-!
# What the pools of a flattened program hold

Flattening makes its pools by interning, one value after another. What comes out can be said
without interning: a pool is the list of everything that the program mentions of its kind, in the
order of the program, with later repetitions left out (`List.eraseDups`).

The code is searched for values before it is flattened, and the search takes one value of each op.
That nothing is missed rests on the layouts of the opcodes, of which none has two pooled operands;
so the values that the search finds are those of all operands.
-/

namespace HashLink

/-! ## What a program mentions -/

namespace TypeDef

variable {ν σ γ : Type}

/-- The fields that a descriptor lists itself. -/
def fields : TypeDef ν σ γ → List (Field ν)
  | .object _ layout => layout.fields
  | .virtual fields => fields
  | _ => []

/-- The dispatch entries of a descriptor. -/
def protos : TypeDef ν σ γ → List (Proto ν)
  | .object _ layout => layout.protos
  | _ => []

/-- The constructors of a descriptor. -/
def constructs : TypeDef ν σ γ → List (Construct ν)
  | .enum layout => layout.constructs
  | _ => []

/-- The names in a descriptor: its own, then those of its fields, of its dispatch entries and of its
constructors. -/
def names (t : TypeDef ν σ γ) : List ν :=
  t.name?.toList ++ t.fields.map (·.name) ++ t.protos.map (·.name) ++ t.constructs.map (·.name)

end TypeDef

namespace Operand

/-- The integer that an operand is. -/
def int? : Operand → Option Int32
  | .int value => some value
  | _ => none

/-- The float that an operand is. -/
def float? : Operand → Option UInt64
  | .float bits => some bits
  | _ => none

/-- The byte block that an operand is. -/
def block? : Operand → Option (List UInt8)
  | .bytes value => some value
  | _ => none

/-- The text that an operand is. Where byte blocks have no pool of their own, they are texts. -/
def text? (version : UInt8) : Operand → Option String
  | .string value => some value
  | .bytes value => if hasBytesPool version then none else ofUtf8? value
  | _ => none

end Operand

namespace Graph

/-- The operands of all instructions, in the order of the functions and of their code. -/
def operands (g : Graph) : List Operand :=
  g.functions.flatMap fun f => f.ops.flatMap (·.operands)

/-- The integers in the code. -/
def ints (g : Graph) : List Int32 := g.operands.filterMap Operand.int?

/-- The floats in the code. -/
def floats (g : Graph) : List UInt64 := g.operands.filterMap Operand.float?

/-- The byte blocks in the code, if they have a pool of their own. -/
def blocks (g : Graph) : List (List UInt8) :=
  if hasBytesPool g.version then g.operands.filterMap Operand.block? else []

/-- The strings of the program: the names of types, the names of natives, the values of constants,
and then the texts in the code. -/
def texts (g : Graph) : List String :=
  g.types.flatMap (·.names) ++ g.functions.flatMap (·.names) ++ g.constants.map (·.value) ++
    g.operands.filterMap (Operand.text? g.version)

/-- The pools of a program: what it mentions of each kind, without repetitions. -/
def pools (g : Graph) : ValuePools where
  ints := g.ints.eraseDups
  floats := g.floats.eraseDups
  strings := g.texts.eraseDups
  bytes := g.blocks.eraseDups

end Graph

/-! ## Interning keeps first occurrences -/

section Interning

variable {α : Type} [DecidableEq α] [BEq α] [LawfulBEq α]

theorem intern_eraseDups (values : List α) (value : α) :
    intern values.eraseDups value = (values ++ [value]).eraseDups := by
  rw [List.eraseDups_append]
  by_cases h : value ∈ values
  · rw [intern, if_pos (List.mem_eraseDups.mpr h)]
    simp [List.removeAll, h]
  · rw [intern, if_neg (mt List.mem_eraseDups.mp h)]
    simp [List.removeAll, h, List.eraseDups_cons]

theorem foldl_intern_eraseDups (values more : List α) :
    more.foldl intern values.eraseDups = (values ++ more).eraseDups := by
  induction more generalizing values with
  | nil => rw [List.foldl_nil, List.append_nil]
  | cons value more ih =>
      rw [List.foldl_cons, intern_eraseDups, ih, List.append_assoc, List.singleton_append]

/-- **Interning values one after another keeps each of them where it first occurs.** -/
theorem foldl_intern_nil (values : List α) : values.foldl intern [] = values.eraseDups := by
  simpa using foldl_intern_eraseDups [] values

end Interning

/-! ## Interning the values of the code -/

namespace PoolValue

/-- The integer that a value is. -/
def int? : PoolValue → Option Int32
  | .int value => some value
  | _ => none

/-- The float that a value is. -/
def float? : PoolValue → Option UInt64
  | .float bits => some bits
  | _ => none

/-- The byte block that a value is kept as. -/
def block? (version : UInt8) : PoolValue → Option (List UInt8)
  | .bytes value => if hasBytesPool version then some value else none
  | _ => none

/-- The string that a value is kept as. -/
def text? (version : UInt8) : PoolValue → Option String
  | .string value => some value
  | .bytes value => if hasBytesPool version then none else ofUtf8? value
  | _ => none

/-- There is a pool that can keep the value: bytes are only kept as a string if they spell one. -/
def Storable (version : UInt8) : PoolValue → Prop
  | .bytes value => hasBytesPool version = true ∨ (ofUtf8? value).isSome = true
  | _ => True

end PoolValue

namespace ValuePools

variable {version : UInt8}

/-- The pools after some more values. -/
def extend (version : UInt8) (p : ValuePools) (values : List PoolValue) : ValuePools where
  ints := (values.filterMap PoolValue.int?).foldl intern p.ints
  floats := (values.filterMap PoolValue.float?).foldl intern p.floats
  strings := (values.filterMap (PoolValue.text? version)).foldl intern p.strings
  bytes := (values.filterMap (PoolValue.block? version)).foldl intern p.bytes

theorem extend_append (p : ValuePools) (values more : List PoolValue) :
    p.extend version (values ++ more) = (p.extend version values).extend version more := by
  simp only [extend, List.filterMap_append, List.foldl_append]

theorem add_of_storable {p : ValuePools} {value : PoolValue} (h : value.Storable version) :
    add version p value = .ok (p.extend version [value]) := by
  cases value with
  | int value | float value | string value => rfl
  | bytes value =>
      cases hb : hasBytesPool version with
      | true =>
          simp [add, extend, List.filterMap_cons, PoolValue.int?, PoolValue.float?,
            PoolValue.text?, PoolValue.block?, hb]
      | false =>
          obtain ⟨text, ht⟩ := Option.isSome_iff_exists.mp (h.resolve_left (by simp [hb]))
          simp [add, extend, List.filterMap_cons, PoolValue.int?, PoolValue.float?,
            PoolValue.text?, PoolValue.block?, hb, ht]

theorem add_of_not_storable {p : ValuePools} {value : PoolValue} (h : ¬value.Storable version) :
    add version p value = .error (.bytesNotUtf8 version) := by
  cases value with
  | int value | float value | string value => exact absurd trivial h
  | bytes value =>
      obtain ⟨hb, ht⟩ := not_or.mp h
      have ht : ofUtf8? value = none := by simpa using ht
      rw [add, if_neg hb, ht]

theorem add_eq_ok_iff {p q : ValuePools} {value : PoolValue} :
    add version p value = .ok q ↔ value.Storable version ∧ p.extend version [value] = q := by
  by_cases h : value.Storable version
  · simp [add_of_storable h, h]
  · simp [add_of_not_storable h, h]

/-- **Values can be added exactly when each of them can be kept.** -/
theorem addAll_eq_ok_iff {p q : ValuePools} {values : List PoolValue} :
    addAll version p values = .ok q ↔
      (∀ value ∈ values, value.Storable version) ∧ p.extend version values = q := by
  unfold addAll
  induction values generalizing p with
  | nil => simp [extend]
  | cons value values ih =>
      rw [List.foldlM_cons, bind_eq_ok_iff]
      simp only [add_eq_ok_iff, ih, List.forall_mem_cons]
      have hcons : p.extend version (value :: values) =
          (p.extend version [value]).extend version values := extend_append p [value] values
      rw [hcons]
      constructor
      · rintro ⟨_, ⟨hvalue, rfl⟩, hvalues, hq⟩
        exact ⟨⟨hvalue, hvalues⟩, hq⟩
      · rintro ⟨⟨hvalue, hvalues⟩, hq⟩
        exact ⟨_, ⟨hvalue, rfl⟩, hvalues, hq⟩

end ValuePools

theorem Inventory.valuePools_eq_ok_iff {has : Inventory} {values : List (List PoolValue)}
    {p : ValuePools} :
    has.valuePools values = .ok p ↔
      (∀ value ∈ values.flatten, value.Storable has.version) ∧
        ValuePools.extend has.version { strings := has.names } values.flatten = p := by
  unfold valuePools
  rw [foldlM_located_eq_ok_iff]
  generalize ({ strings := has.names } : ValuePools) = q
  induction values generalizing q with
  | nil => simp [ValuePools.extend]
  | cons vs values ih =>
      rw [List.foldlM_cons, bind_eq_ok_iff]
      simp only [ValuePools.addAll_eq_ok_iff, ih, List.flatten_cons, ValuePools.extend_append,
        List.forall_mem_append]
      constructor
      · rintro ⟨_, ⟨hvs, rfl⟩, hvalues, hp⟩
        exact ⟨⟨hvs, hvalues⟩, hp⟩
      · rintro ⟨⟨hvs, hvalues⟩, hp⟩
        exact ⟨_, ⟨hvs, rfl⟩, hvalues, hp⟩

/-! ## The search finds the values of all operands -/

/-- An op has at most one value, so that is all its operands have. -/
theorem Op.filterMap_poolValue? (op : Op) :
    op.operands.filterMap Operand.poolValue? = op.poolValue?.toList := by
  have hone : (op.operands.filterMap Operand.poolValue?).length ≤ 1 := by
    have hkinds := op.opcode.countP_isPooled_le (op.operands.map (·.kind)).length
    rw [← op.fits.1, List.countP_map] at hkinds
    rw [List.length_filterMap_eq_countP]
    refine Nat.le_trans (List.countP_mono_left fun o _ ho => ?_) hkinds
    obtain ⟨v, hv⟩ := Option.isSome_iff_exists.mp ho
    exact Operand.isPooled_kind hv
  have hhead : (op.operands.filterMap Operand.poolValue?).head? = op.poolValue? :=
    List.head?_filterMap
  generalize op.operands.filterMap Operand.poolValue? = values at hone hhead
  match values with
  | [] => rw [← hhead]; rfl
  | [value] => rw [← hhead]; rfl
  | _ :: _ :: _ => simp at hone

theorem Function.poolValues_eq (f : Function) :
    f.poolValues = (f.ops.flatMap (·.operands)).filterMap Operand.poolValue? := by
  have hops : f.poolValues = f.ops.filterMap (·.poolValue?) := by
    unfold Function.poolValues Function.ops
    cases f.routine? <;> rfl
  rw [hops, List.filterMap_flatMap, List.filterMap_eq_flatMap_toList]
  exact List.flatMap_congr fun op _ => op.filterMap_poolValue?.symm

/-- **The values that the search finds are those of the operands.** -/
theorem Graph.flatten_poolValues (g : Graph) :
    (g.functions.map Function.poolValues).flatten = g.operands.filterMap Operand.poolValue? := by
  rw [Graph.operands, List.filterMap_flatMap, ← List.flatMap_def]
  exact List.flatMap_congr fun f _ => f.poolValues_eq

/-! ## The pools -/

theorem typeNames_eq_names (t : GraphType) : typeNames t = t.names := by
  cases t <;> simp [typeNames, TypeDef.names, TypeDef.name?, TypeDef.fields, TypeDef.protos,
    TypeDef.constructs]

theorem Graph.texts_eq (g : Graph) :
    g.texts = g.names ++ g.operands.filterMap (Operand.text? g.version) := by
  have htypes : typeNames = TypeDef.names := funext typeNames_eq_names
  rw [Graph.texts, Graph.names, htypes]

/-- What the operands hold of one kind, looked up through their values. -/
theorem filterMap_poolValue? {α : Type} {v : PoolValue → Option α} {k : Operand → Option α}
    (h : ∀ o, o.poolValue?.bind v = k o) (operands : List Operand) :
    (operands.filterMap Operand.poolValue?).filterMap v = operands.filterMap k := by
  rw [List.filterMap_filterMap, funext h]

theorem Graph.filterMap_block? (g : Graph) :
    (g.operands.filterMap Operand.poolValue?).filterMap (PoolValue.block? g.version) =
      g.blocks := by
  cases hb : hasBytesPool g.version with
  | true =>
      rw [Graph.blocks, if_pos hb]
      refine filterMap_poolValue? (fun o => ?_) g.operands
      cases o <;> simp [Operand.poolValue?, PoolValue.block?, Operand.block?, hb]
  | false =>
      rw [Graph.blocks, if_neg (by simp [hb]), List.filterMap_eq_nil_iff]
      intro value _
      cases value <;> simp [PoolValue.block?, hb]

/-- **The values of the code can be put into pools exactly when each can be kept, and the pools are
then the mentioned values without repetitions.** -/
theorem Graph.valuePools_eq_ok_iff {g : Graph} {p : ValuePools} :
    g.inventory.valuePools (g.functions.map Function.poolValues) = .ok p ↔
      (∀ o ∈ g.operands, ∀ value, o.poolValue? = some value → value.Storable g.version) ∧
        p = g.pools := by
  have hints := filterMap_poolValue? (v := PoolValue.int?) (k := Operand.int?)
    (fun o => by cases o <;> rfl) g.operands
  have hfloats := filterMap_poolValue? (v := PoolValue.float?) (k := Operand.float?)
    (fun o => by cases o <;> rfl) g.operands
  have htexts := filterMap_poolValue? (v := PoolValue.text? g.version)
    (k := Operand.text? g.version) (fun o => by cases o <;> rfl) g.operands
  have hpools : ValuePools.extend g.version { strings := g.namePool }
      (g.operands.filterMap Operand.poolValue?) = g.pools := by
    rw [ValuePools.extend, hints, hfloats, htexts, g.filterMap_block?, foldl_intern_nil,
      foldl_intern_nil, foldl_intern_nil, Graph.namePool, foldl_intern_nil,
      foldl_intern_eraseDups, ← g.texts_eq]
    rfl
  rw [Inventory.valuePools_eq_ok_iff, g.flatten_poolValues]
  simp only [Graph.inventory, hpools, List.mem_filterMap, forall_exists_index, and_imp]
  constructor
  · rintro ⟨hstorable, rfl⟩
    exact ⟨fun o ho value hvalue => hstorable value o ho hvalue, rfl⟩
  · rintro ⟨hstorable, rfl⟩
    exact ⟨fun value o ho hvalue => hstorable o ho value hvalue, rfl⟩

/-! ## Indices lead to what the program mentions -/

/-- Every index of a string or a value in a module leads to what a program has in its place. -/
structure Module.Spells (m : Module) (g : Graph) : Prop where
  types : List.Forall₂ (fun t t' =>
    List.Forall₂ (fun name i => m.strings[i]? = some name) t.names t'.names) g.types m.types
  natives : ∀ n ∈ m.natives, ∃ lib name, g.functions[n.index]? = some ⟨n.type, .native lib name⟩ ∧
    m.strings[n.lib]? = some lib ∧ m.strings[n.name]? = some name
  constants : List.Forall₂ (fun c c' => ∃ i, c'.fields.head? = some i ∧
    m.strings[i]? = some c.value) g.constants m.constants
  code : ∀ f ∈ m.methods, ∃ r, g.functions[f.index]? = some ⟨f.type, .method r⟩ ∧
    List.Forall₂ (fun op i => List.Forall₂ m.Denotes i.args op.operands) r.ops f.instructions

namespace Inventory

variable {has : Inventory}

theorem names_of_flattenFields {fs : List (Field String)} {fs' : List (Field Nat)}
    (h : fs.mapM has.flattenField = .ok fs') :
    fs'.map (·.name) = (fs.map (·.name)).map has.nameRef := by
  rw [List.map_map]
  refine map_eq_of_mapM h fun f f' hf => ?_
  obtain ⟨type, _, hf⟩ := bind_eq_ok_iff.mp hf
  obtain rfl := Except.ok.inj hf
  rfl

theorem names_of_flattenObject {kind : ObjectKind}
    {o : ObjectDef String (Option Nat) (Option Nat)} {o' : ObjectDef Nat Int32 Nat}
    (h : has.flattenObject o = .ok o') :
    (TypeDef.object kind o').names = (TypeDef.object kind o).names.map has.nameRef := by
  obtain ⟨super, _, h⟩ := bind_eq_ok_iff.mp h
  obtain ⟨global, _, h⟩ := bind_eq_ok_iff.mp h
  obtain ⟨fields, hfields, h⟩ := bind_eq_ok_iff.mp h
  obtain ⟨protos, hprotos, h⟩ := bind_eq_ok_iff.mp h
  obtain ⟨bindings, _, h⟩ := bind_eq_ok_iff.mp h
  obtain rfl := Except.ok.inj h
  have hprotos' : protos.map (·.name) = o.protos.map fun p => has.nameRef p.name := by
    refine map_eq_of_mapM hprotos fun p p' hp => ?_
    obtain ⟨function, _, hp⟩ := bind_eq_ok_iff.mp hp
    obtain rfl := Except.ok.inj hp
    rfl
  simp [TypeDef.names, TypeDef.name?, TypeDef.fields, TypeDef.protos, TypeDef.constructs,
    names_of_flattenFields hfields, hprotos']

/-- A flattened type has the names of the type, as indices. -/
theorem names_of_flattenType {t : GraphType} {t' : RawType} (h : has.flattenType t = .ok t') :
    t'.names = t.names.map has.nameRef := by
  cases t with
  | atom kind =>
      obtain rfl := Except.ok.inj h
      rfl
  | callable kind signature =>
      obtain ⟨args, _, h⟩ := bind_eq_ok_iff.mp h
      obtain ⟨result, _, h⟩ := bind_eq_ok_iff.mp h
      obtain rfl := Except.ok.inj h
      rfl
  | object kind layout =>
      obtain ⟨layout', hlayout, h⟩ := bind_eq_ok_iff.mp h
      obtain rfl := Except.ok.inj h
      exact names_of_flattenObject hlayout
  | wrapper kind inner =>
      obtain ⟨inner', _, h⟩ := bind_eq_ok_iff.mp h
      obtain rfl := Except.ok.inj h
      rfl
  | virtual fields =>
      obtain ⟨fields', hfields, h⟩ := bind_eq_ok_iff.mp h
      obtain rfl := Except.ok.inj h
      simp [TypeDef.names, TypeDef.name?, TypeDef.fields, TypeDef.protos, TypeDef.constructs,
        names_of_flattenFields hfields]
  | abstract name =>
      obtain rfl := Except.ok.inj h
      rfl
  | enum layout =>
      obtain ⟨global, _, h⟩ := bind_eq_ok_iff.mp h
      obtain ⟨constructs, hconstructs, h⟩ := bind_eq_ok_iff.mp h
      obtain rfl := Except.ok.inj h
      have hconstructs' : constructs.map (·.name) =
          layout.constructs.map fun c => has.nameRef c.name := by
        refine map_eq_of_mapM hconstructs fun c c' hc => ?_
        obtain ⟨params, _, hc⟩ := bind_eq_ok_iff.mp hc
        obtain rfl := Except.ok.inj hc
        rfl
      simp [TypeDef.names, TypeDef.name?, TypeDef.fields, TypeDef.protos, TypeDef.constructs,
        hconstructs']

end Inventory

namespace Graph

variable {s : Strategy} {g : Graph} {m : Module}

/-- The function that a record of a flattened program comes from. -/
theorem exists_flattens_of_mem (h : g.flatten s = .ok m) {r : FunctionRecord}
    (hr : r ∈ m.functionRecords) :
    ∃ p f i, m.CarriesValues g.inventory p ∧ f ∈ g.functions ∧ g.functions[i]? = some f ∧
      g.inventory.Flattens p (f, i) r := by
  obtain ⟨p, table, hm, htable, hflat⟩ := flatten_spec h
  have hat := (Module.getElem?_functionTable_iff htable).mpr ⟨hr, rfl⟩
  obtain ⟨⟨f, i⟩, hnumbered, hrecord⟩ := getElem?_of_forall₂ hflat.flip hat
  obtain ⟨hf, rfl⟩ : g.functions[r.index]? = some f ∧ r.index = i := by
    simpa [List.getElem?_zipIdx] using hnumbered
  exact ⟨p, f, r.index, hm, List.mem_of_getElem? hf, hf, hrecord⟩

theorem getElem?_nameRef (h : g.flatten s = .ok m) {name : String}
    (hname : name ∈ g.inventory.names) : m.strings[g.inventory.nameRef name]? = some name := by
  obtain ⟨p, table, hm, _⟩ := flatten_spec h
  exact Module.stringRef_eq_ok_iff.mp (hm.nameRef hname)

/-- **Every index of a flattened program leads to what the program has in its place.** -/
theorem spells_of_flatten (h : g.flatten s = .ok m) : m.Spells g := by
  obtain ⟨_, _, _, stages⟩ := flatten_eq_ok_iff.mp h
  refine ⟨?_, fun n hn => ?_, ?_, fun f hf => ?_⟩
  · have htypes := (List.forall₂_and_left g.types m.types).mpr
      ⟨fun t ht => typeNames_subset ht, mapM_eq_ok_iff.mp stages.types⟩
    refine htypes.imp fun t t' ht => ?_
    rw [Inventory.names_of_flattenType ht.2, List.forall₂_map_right_iff, List.forall₂_same]
    intro name hname
    rw [← typeNames_eq_names] at hname
    exact getElem?_nameRef h (ht.1 hname)
  · have hmem : FunctionRecord.native n ∈ m.functionRecords := by
      simpa [Module.functionRecords] using hn
    obtain ⟨p, f, i, _, hf, hat, hflat⟩ := exists_flattens_of_mem h hmem
    cases hflat with
    | @native type index lib name typed =>
        have hnames := functionNames_subset hf
        exact ⟨lib, name, hat, getElem?_nameRef h (hnames (by simp [Function.names])),
          getElem?_nameRef h (hnames (by simp [Function.names]))⟩
  · have hconstants := (List.forall₂_and_left g.constants m.constants).mpr
      ⟨fun c hc => constantValue_mem hc, mapM_eq_ok_iff.mp stages.constants⟩
    refine hconstants.imp fun c c' hc => ?_
    obtain ⟨global, _, hc'⟩ := bind_eq_ok_iff.mp hc.2
    obtain rfl := Except.ok.inj hc'
    exact ⟨_, rfl, getElem?_nameRef h hc.1⟩
  · obtain ⟨p, f', i, hm, _, hat, hflat⟩ :=
      exists_flattens_of_mem h (Module.method_mem_functionRecords_iff.mpr hf)
    cases hflat with
    | @method type index r instructions code typed registers =>
        refine ⟨r, hat, (mapM_eq_ok_iff.mp code).imp fun op i hi => ?_⟩
        exact (Module.resolveInstruction_eq_ok_iff.mp (hm.resolveInstruction hi)).2.2

end Graph

/-- **The pools of a flattened program are what the program mentions, each value where it is first
mentioned**, and every index leads to the value that the program has in its place. -/
theorem Graph.pools_of_flatten {s : Strategy} {g : Graph} {m : Module} (h : g.flatten s = .ok m) :
    m.ints = g.ints.eraseDups ∧ m.floats = g.floats.eraseDups ∧ m.strings = g.texts.eraseDups ∧
      m.bytes = g.blocks.eraseDups ∧ m.Spells g := by
  obtain ⟨natives, p, methods, stages⟩ := flatten_eq_ok_iff.mp h
  obtain ⟨_, rfl⟩ := valuePools_eq_ok_iff.mp stages.pools
  exact ⟨congrArg Module.ints stages.module_eq, congrArg Module.floats stages.module_eq,
    congrArg Module.strings stages.module_eq, congrArg Module.bytes stages.module_eq,
    spells_of_flatten h⟩

/-- A graph of a version that keeps bytes among the strings. Its code mentions an integer twice, and
the name of a type once as a string and once as bytes. -/
def repetitiveGraph : Graph :=
  { version := 4,
    types := [.atom .void, .callable .function ⟨[], 0⟩,
              .enum { name := "E", global := some 0, constructs := [⟨"A", [0]⟩, ⟨"E", []⟩] }],
    functions := [⟨1, .method { name := none, parent := none, registers := [0],
                                ops := [.int 0 7, ⟨.bytes, [.register 0, .bytes [65]], ⟨rfl, rfl⟩⟩,
                                        ⟨.string, [.register 0, .string "s"], ⟨rfl, rfl⟩⟩] }⟩,
                  ⟨1, .native "std" "A"⟩,
                  ⟨1, .method { name := none, parent := none, registers := [0],
                                ops := [.int 0 (-1), .int 0 7,
                                        ⟨.float, [.register 0, .float 0x8000000000000000],
                                         ⟨rfl, rfl⟩⟩] }⟩],
    globals := [2], constants := [⟨0, "s"⟩], entrypoint := 0 }

theorem pools_of_repetitiveGraph :
    ∃ m, repetitiveGraph.flatten .sequential = .ok m ∧
      m.ints = repetitiveGraph.ints.eraseDups ∧ m.floats = repetitiveGraph.floats.eraseDups ∧
      m.strings = repetitiveGraph.texts.eraseDups ∧ m.bytes = repetitiveGraph.blocks.eraseDups ∧
      m.Spells repetitiveGraph ∧ m.ints = [7, -1] ∧ m.strings = ["E", "A", "std", "s"] := by
  obtain ⟨m, hm, hints, hstrings⟩ : ∃ m, repetitiveGraph.flatten .sequential = .ok m ∧
      m.ints = [7, -1] ∧ m.strings = ["E", "A", "std", "s"] := ⟨_, rfl, rfl, rfl⟩
  obtain ⟨h₁, h₂, h₃, h₄, h₅⟩ := Graph.pools_of_flatten hm
  exact ⟨m, hm, h₁, h₂, h₃, h₄, h₅, hints, hstrings⟩

end HashLink
