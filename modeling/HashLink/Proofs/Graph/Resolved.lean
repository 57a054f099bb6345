import HashLink.Proofs.Graph.FunctionTable
import HashLink.Proofs.Graph.Naming
import HashLink.Proofs.Graph.Pools
import HashLink.Proofs.Graph.Stages

/-!
# The functions and types of a resolved program

A resolved module has one function for each entry of its function table, and up to its name each of
them is told by its record alone. `Module.Resolves` relates the two; whatever naming did, the header
and the code of a function are those that its record resolves to. A type keeps its superclass, its
number of fields and its functions.
-/

namespace HashLink

/-- A function that a record stands for, under any name. -/
inductive Module.Resolves (m : Module) : FunctionRecord → Function → Prop
  | native {n : Native} {lib name : String} (typed : n.type < m.types.length)
      (lib_eq : m.strings[n.lib]? = some lib) (name_eq : m.strings[n.name]? = some name) :
      Resolves m (.native n) ⟨n.type, .native lib name⟩
  | method {f : Method} {r : Routine} (typed : f.type < m.types.length)
      (registers : ∀ t ∈ f.registers, t < m.types.length) (registers_eq : r.registers = f.registers)
      (code : f.instructions.mapM m.resolveInstruction = .ok r.ops) :
      Resolves m (.method f) ⟨f.type, .method r⟩

namespace Module

variable {m : Module} {r : FunctionRecord} {f : Function}

theorem Resolves.header (h : m.Resolves r f) : m.resolveHeader r = .ok f.header := by
  cases h with
  | native typed hlib hname =>
      have htype := typeRef_eq_ok_iff.mpr ⟨typed, rfl⟩
      simp only [resolveHeader, htype, stringRef_eq_ok_iff.mpr hlib, stringRef_eq_ok_iff.mpr hname,
        ok_bind, pure_eq_ok]
      rfl
  | method typed registers registers_eq code =>
      have htype := typeRef_eq_ok_iff.mpr ⟨typed, rfl⟩
      have hregisters := typeRefs_eq_ok_iff.mpr ⟨registers, rfl⟩
      simp only [resolveHeader, htype, hregisters, ok_bind, pure_eq_ok]
      rw [← registers_eq]
      rfl

theorem Resolves.ops (h : m.Resolves r f) :
    r.instructions.mapM m.resolveInstruction = .ok f.ops := by
  cases h with
  | native typed hlib hname => rfl
  | method typed registers registers_eq code => exact code

/-- A header under any name, together with the code. -/
theorem resolves_withOps {header : Function} {ops : List Op}
    (hheader : m.resolveHeader r = .ok header) (hname : f.anonymous = header.anonymous)
    (hcode : r.instructions.mapM m.resolveInstruction = .ok ops) : m.Resolves r (f.withOps ops) := by
  obtain ⟨type, body⟩ := f
  cases r with
  | native n =>
      simp only [resolveHeader, bind_eq_ok_iff, typeRef_eq_ok_iff, stringRef_eq_ok_iff, pure_eq_ok,
        Except.ok.injEq] at hheader
      obtain ⟨_, ⟨typed, rfl⟩, lib, hlib, name, hname', rfl⟩ := hheader
      cases body with
      | native lib' name' =>
          cases hname
          exact .native typed hlib hname'
      | method routine => cases hname
  | method g =>
      simp only [resolveHeader, bind_eq_ok_iff, typeRef_eq_ok_iff, typeRefs_eq_ok_iff, pure_eq_ok,
        Except.ok.injEq] at hheader
      obtain ⟨_, ⟨typed, rfl⟩, _, ⟨registers, rfl⟩, rfl⟩ := hheader
      cases body with
      | native lib' name' => cases hname
      | method routine =>
          obtain ⟨rfl, hroutine⟩ := Function.mk.inj hname
          have hregisters := congrArg Routine.registers (FunctionBody.method.inj hroutine)
          exact .method typed registers hregisters hcode

theorem forall₂_resolves {table : List FunctionRecord} {headers named : List Function}
    {code : List (List Op)}
    (hheaders : List.Forall₂ (fun r header => m.resolveHeader r = .ok header) table headers)
    (hcode : List.Forall₂ (fun r ops => r.instructions.mapM m.resolveInstruction = .ok ops) table code)
    (hsame : named.map Function.anonymous = headers.map Function.anonymous) :
    List.Forall₂ m.Resolves table (named.zipWith Function.withOps code) := by
  induction hheaders generalizing named code with
  | nil =>
      cases hcode
      rw [List.zipWith_nil_right]
      exact .nil
  | @cons r header _ _ hheader _ ih =>
      cases hcode with
      | cons hops hcode =>
          cases named with
          | nil => simp at hsame
          | cons f named =>
              obtain ⟨hf, hsame⟩ := List.cons_eq_cons.mp hsame
              exact .cons (resolves_withOps hheader hf hops) (ih hcode hsame)

/-- **Every function of a resolved program is told by its record,** and naming the functions again
gives the same program. -/
theorem resolve_functions {s : Strategy} {g : Graph} (h : m.resolve s = .ok g) :
    ∃ table named, m.functionTable = .ok table ∧ List.Forall₂ m.Resolves table g.functions ∧
      nameMethods g.types (g.functions.map Function.header) = .ok named ∧
      named.zipWith Function.withOps (g.functions.map Function.ops) = g.functions := by
  obtain ⟨table, headers, named, code, stages⟩ := resolve_eq_ok_iff.mp h
  have hresolves : List.Forall₂ m.Resolves table g.functions := by
    rw [stages.functions_eq]
    exact forall₂_resolves (mapM_eq_ok_iff.mp stages.headers) (mapM_eq_ok_iff.mp stages.code)
      (map_anonymous_nameMethods stages.named)
  have hheaders := mapM_of_forall₂ hresolves.flip fun f _ r hr => Resolves.header hr
  have hcode := mapM_of_forall₂ hresolves.flip fun f _ r hr => Resolves.ops hr
  obtain rfl := Except.ok.inj (stages.headers.symm.trans hheaders)
  obtain rfl := Except.ok.inj (stages.code.symm.trans hcode)
  exact ⟨table, named, stages.table, hresolves, stages.named, stages.functions_eq.symm⟩

theorem length_functions {s : Strategy} {g : Graph} (h : m.resolve s = .ok g) :
    g.functions.length = m.functionCount := by
  obtain ⟨table, _, htable, hresolves, _⟩ := resolve_functions h
  rw [← hresolves.length_eq, (functionTable_spec htable).1.length_eq, length_functionRecords]

/-- The function of a record is at the index of the record. -/
theorem exists_function_of_mem {s : Strategy} {g : Graph} (h : m.resolve s = .ok g)
    (hr : r ∈ m.functionRecords) : ∃ f, g.functions[r.index]? = some f ∧ m.Resolves r f := by
  obtain ⟨table, _, htable, hresolves, _⟩ := resolve_functions h
  exact getElem?_of_forall₂ hresolves ((getElem?_functionTable_iff htable).mpr ⟨hr, rfl⟩)

/-! ## The layouts of resolved types -/

theorem alike_of_resolveObject {o : ObjectDef Nat Int32 Nat}
    {o' : ObjectDef String (Option Nat) (Option Nat)} (h : m.resolveObject o = .ok o') :
    o.Alike superclass? id o' ∧ ∀ up ∈ o'.super, up < m.types.length := by
  simp only [resolveObject, bind_eq_ok_iff, superRef_eq_ok_iff, pure_eq_ok, Except.ok.injEq] at h
  obtain ⟨protos, hprotos, bindings, hbindings, _, _, super, ⟨hsuper, hup⟩, _, _, fields, hfields,
    rfl⟩ := h
  have hproto : ∀ p p', m.resolveProto p = .ok p' → p'.function = p.function := by
    intro p p' hp
    simp only [resolveProto, bind_eq_ok_iff, functionRef_eq_ok_iff, pure_eq_ok,
      Except.ok.injEq] at hp
    obtain ⟨_, _, _, ⟨_, rfl⟩, rfl⟩ := hp
    rfl
  have hbinding : ∀ b b', m.resolveBinding b = .ok b' ↔ b.function < m.functionCount ∧ b = b' := by
    intro b b'
    simp [resolveBinding, bind_eq_ok_iff]
  exact ⟨⟨hsuper, (mapM_eq_ok_iff.mp hfields).length_eq, (map_eq_of_mapM hprotos hproto).symm,
    ((mapM_check_eq_ok_iff hbinding).mp hbindings).2⟩, hup⟩

theorem object?_of_resolveType {t : RawType} {t' : GraphType} (h : m.resolveType t = .ok t') :
    t.object? = none ∧ t'.object? = none ∨
      ∃ o o', t.object? = some o ∧ t'.object? = some o' ∧ m.resolveObject o = .ok o' := by
  cases t with
  | object kind layout =>
      simp only [resolveType, bind_eq_ok_iff, pure_eq_ok, Except.ok.injEq] at h
      obtain ⟨layout', hlayout, rfl⟩ := h
      exact .inr ⟨layout, layout', rfl, rfl, hlayout⟩
  | atom kind =>
      obtain rfl := Except.ok.inj h
      exact .inl ⟨rfl, rfl⟩
  | callable kind signature =>
      simp only [resolveType, bind_eq_ok_iff, pure_eq_ok, Except.ok.injEq] at h
      obtain ⟨_, _, _, _, rfl⟩ := h
      exact .inl ⟨rfl, rfl⟩
  | wrapper | virtual | abstract =>
      simp only [resolveType, bind_eq_ok_iff, pure_eq_ok, Except.ok.injEq] at h
      obtain ⟨_, _, rfl⟩ := h
      exact .inl ⟨rfl, rfl⟩
  | enum layout =>
      simp only [resolveType, bind_eq_ok_iff, pure_eq_ok, Except.ok.injEq] at h
      obtain ⟨_, _, _, _, _, _, rfl⟩ := h
      exact .inl ⟨rfl, rfl⟩

theorem alike_of_resolveType {t : RawType} {t' : GraphType} (h : m.resolveType t = .ok t') :
    t.Alike superclass? id t' := by
  unfold TypeDef.Alike
  rcases object?_of_resolveType h with ⟨ht, ht'⟩ | ⟨o, o', ht, ht', ho⟩
  · rw [ht, ht']
    exact .none
  · rw [ht, ht']
    exact .some (alike_of_resolveObject ho).1

theorem supersExist_of_resolveType {ts : List GraphType}
    (h : m.types.mapM m.resolveType = .ok ts) : SupersExist ts := by
  intro t' ht' o' ho' up hup
  obtain ⟨t, _, ht⟩ := exists_of_mem_result h ht'
  rw [← (mapM_eq_ok_iff.mp h).length_eq]
  rcases object?_of_resolveType ht with ⟨_, hnone⟩ | ⟨o, o'', _, hsome, ho⟩
  · simp [ho'] at hnone
  · obtain rfl := Option.some.inj (ho'.symm.trans hsome)
    exact (alike_of_resolveObject ho).2 up hup

/-! ## Where names and values come from -/

theorem mem_strings_of_stringRef {i : Nat} {name : String} (h : m.stringRef i = .ok name) :
    name ∈ m.strings :=
  List.mem_of_getElem? (stringRef_eq_ok_iff.mp h)

theorem mem_strings_of_resolveField {x : Field Nat} {x' : Field String}
    (h : m.resolveField x = .ok x') : x'.name ∈ m.strings := by
  simp only [resolveField, bind_eq_ok_iff, pure_eq_ok, Except.ok.injEq] at h
  obtain ⟨name, hname, type, _, rfl⟩ := h
  exact mem_strings_of_stringRef hname

/-- The names of a resolved type are strings of the module. -/
theorem typeNames_subset_of_resolveType {t : RawType} {t' : GraphType}
    (h : m.resolveType t = .ok t') : typeNames t' ⊆ m.strings := by
  cases t with
  | atom kind =>
      obtain rfl := Except.ok.inj h
      simp [typeNames]
  | callable kind signature =>
      simp only [resolveType, bind_eq_ok_iff, pure_eq_ok, Except.ok.injEq] at h
      obtain ⟨_, _, _, _, rfl⟩ := h
      simp [typeNames]
  | object kind layout =>
      simp only [resolveType, resolveObject, bind_eq_ok_iff, pure_eq_ok, Except.ok.injEq] at h
      obtain ⟨_, ⟨protos, hprotos, _, _, name, hname, _, _, _, _, fields, hfields, rfl⟩, rfl⟩ := h
      intro x hx
      simp only [typeNames, List.cons_append, List.mem_cons, List.mem_append, List.mem_map] at hx
      rcases hx with rfl | ⟨field, hfield, rfl⟩ | ⟨proto, hproto, rfl⟩
      · exact mem_strings_of_stringRef hname
      · obtain ⟨_, _, hr⟩ := exists_of_mem_result hfields hfield
        exact mem_strings_of_resolveField hr
      · obtain ⟨_, _, hr⟩ := exists_of_mem_result hprotos hproto
        simp only [resolveProto, bind_eq_ok_iff, pure_eq_ok, Except.ok.injEq] at hr
        obtain ⟨name, hname, _, _, rfl⟩ := hr
        exact mem_strings_of_stringRef hname
  | wrapper kind inner =>
      simp only [resolveType, bind_eq_ok_iff, pure_eq_ok, Except.ok.injEq] at h
      obtain ⟨_, _, rfl⟩ := h
      simp [typeNames]
  | virtual fields =>
      simp only [resolveType, bind_eq_ok_iff, pure_eq_ok, Except.ok.injEq] at h
      obtain ⟨fields', hfields, rfl⟩ := h
      intro x hx
      obtain ⟨field, hfield, rfl⟩ := List.mem_map.mp hx
      obtain ⟨_, _, hr⟩ := exists_of_mem_result hfields hfield
      exact mem_strings_of_resolveField hr
  | abstract name =>
      simp only [resolveType, bind_eq_ok_iff, pure_eq_ok, Except.ok.injEq] at h
      obtain ⟨name', hname, rfl⟩ := h
      intro x hx
      rw [List.mem_singleton.mp hx]
      exact mem_strings_of_stringRef hname
  | enum layout =>
      simp only [resolveType, bind_eq_ok_iff, pure_eq_ok, Except.ok.injEq] at h
      obtain ⟨name, hname, _, _, constructs, hconstructs, rfl⟩ := h
      intro x hx
      simp only [typeNames, List.mem_cons, List.mem_map] at hx
      rcases hx with rfl | ⟨construct, hconstruct, rfl⟩
      · exact mem_strings_of_stringRef hname
      · obtain ⟨_, _, hr⟩ := exists_of_mem_result hconstructs hconstruct
        simp only [resolveConstruct, bind_eq_ok_iff, pure_eq_ok, Except.ok.injEq] at hr
        obtain ⟨name, hname, _, _, rfl⟩ := hr
        exact mem_strings_of_stringRef hname

theorem mem_strings_of_resolveConstant {c : Constant} {c' : StringConstant}
    (h : m.resolveConstant c = .ok c') : c'.value ∈ m.strings := by
  unfold resolveConstant at h
  split at h
  · simp at h
  · simp only [bind_eq_ok_iff, pure_eq_ok, Except.ok.injEq] at h
    obtain ⟨_, _, value, hvalue, rfl⟩ := h
    exact mem_strings_of_stringRef hvalue

/-- **The names of a resolved program are strings of the module.** -/
theorem names_subset_of_resolve {s : Strategy} {g : Graph} (h : m.resolve s = .ok g) :
    g.names ⊆ m.strings := by
  obtain ⟨_, _, _, hresolves, _⟩ := resolve_functions h
  obtain ⟨_, _, _, _, stages⟩ := resolve_eq_ok_iff.mp h
  intro x hx
  rw [Graph.names, List.mem_append, List.mem_append, List.mem_flatMap, List.mem_flatMap,
    List.mem_map] at hx
  rcases hx with (⟨t, ht, hx⟩ | ⟨f, hf, hx⟩) | ⟨c, hc, rfl⟩
  · obtain ⟨_, _, hr⟩ := exists_of_mem_result stages.types ht
    exact typeNames_subset_of_resolveType hr hx
  · obtain ⟨_, _, hr⟩ := exists_of_forall₂ hresolves.flip hf
    cases hr with
    | native typed hlib hname =>
        simp only [Function.names, List.mem_cons, List.not_mem_nil, or_false] at hx
        rcases hx with rfl | rfl
        · exact List.mem_of_getElem? hlib
        · exact List.mem_of_getElem? hname
    | method => simp [Function.names] at hx
  · obtain ⟨_, _, hr⟩ := exists_of_mem_result stages.constants hc
    exact mem_strings_of_resolveConstant hr

theorem hasValue_of_denotes {raw : Int32} {o : Operand} {v : PoolValue} (h : m.Denotes raw o)
    (hv : o.poolValue? = some v) : m.HasValue v := by
  cases o with
  | int | float | string =>
      obtain rfl := Option.some.inj hv
      exact List.mem_of_getElem? h.2
  | bytes value =>
      obtain rfl := Option.some.inj hv
      have hvalue := h.2
      unfold bytesAt? at hvalue
      simp only [HasValue]
      by_cases hb : hasBytesPool m.version = true
      · rw [if_pos hb] at hvalue ⊢
        exact List.mem_of_getElem? hvalue
      · rw [if_neg hb] at hvalue ⊢
        obtain ⟨text, htext, rfl⟩ := Option.map_eq_some_iff.mp hvalue
        exact ⟨text, List.mem_of_getElem? htext, rfl⟩
  | register | function | global | type | field | offset | construct | inline | flag => cases hv

/-- The values of resolved code are values of the module. -/
theorem Resolves.hasValue (h : m.Resolves r f) {v : PoolValue} (hv : v ∈ f.poolValues) :
    m.HasValue v := by
  cases h with
  | native => simp [Function.poolValues, Function.routine?] at hv
  | method typed registers registers_eq code =>
      obtain ⟨op, hop, hv⟩ := List.mem_filterMap.mp hv
      obtain ⟨i, _, hi⟩ := exists_of_mem_result code hop
      obtain ⟨_, _, hden⟩ := resolveInstruction_eq_ok_iff.mp hi
      obtain ⟨o, ho, hv⟩ := List.exists_of_findSome?_eq_some hv
      obtain ⟨_, _, hraw⟩ := exists_of_forall₂ hden.flip ho
      exact hasValue_of_denotes hraw hv

theorem draws_names {s : Strategy} {g : Graph} (h : m.resolve s = .ok g) :
    Draws g.inventory.names m.strings :=
  ⟨g.nodup_namePool, fun _ hname => names_subset_of_resolve h (Graph.mem_namePool.mp hname)⟩

/-- **The pools of a resolved program hold nothing but values of the module.** -/
theorem exists_pools {s : Strategy} {g : Graph} (h : m.resolve s = .ok g) :
    ∃ p, g.inventory.valuePools (g.functions.map Function.poolValues) = .ok p ∧ p.DrawnFrom m := by
  obtain ⟨_, _, _, hresolves, _⟩ := resolve_functions h
  obtain ⟨_, _, _, _, stages⟩ := resolve_eq_ok_iff.mp h
  refine Inventory.exists_valuePools stages.version_eq (draws_names h) ?_
  intro vs hvs v hv
  obtain ⟨f, hf, rfl⟩ := List.mem_map.mp hvs
  obtain ⟨r, _, hr⟩ := exists_of_forall₂ hresolves.flip hf
  exact Resolves.hasValue hr hv

end Module

end HashLink
