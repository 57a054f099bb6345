import HashLink.Patch.InfiniteJumps
import HashLink.Patch.Runner
import HashLink.Proofs.Graph.Recode
import HashLink.Proofs.Module.Writable

/-!
# What the patch for infinite jumps does

The patch replaces one field load, or nothing (`target?`, `rawTarget?`). Where it has replaced the
load there is none any more, so running it again changes nothing. Its edit of a module and its edit of
the graph of the module are the same edit: the edited module resolves to the edited graph.
-/

namespace HashLink

namespace InfiniteJumps

/-- What becomes of the patch, told by whether there is a getter and whether it loads the counter. -/
inductive Ends : (getter target : Bool) → PatchOutcome → Prop
  | absent (target : Bool) : Ends false target (.reported 1)
  | replaced : Ends true true .applied
  | unexpected (reason : String) : Ends true false (.rolledBack (.failed reason))

/-! ## The graph -/

/-- The field load that the patch replaces in a graph: its method, and the register it loads into. -/
def target? (g : Graph) : Option (Nat × UInt32) := do
  let id ← findGetter? g
  let r ← g.routine? id
  let op ← r.ops[counterLoad]?
  let dst ← fieldLoad? op
  return (id, dst)

/-- The graph that the patch leaves behind. -/
def editGraph (g : Graph) : Graph :=
  match target? g with
  | some (id, dst) => g.setOp id counterLoad (Op.int dst 0)
  | none => g

/-- What the patch does to a graph: the edit it leaves behind, and how it ends. -/
theorem resolved_spec (m : Module) (g : Graph) :
    (patch.resolved m g).kept g = editGraph g ∧
      Ends (findGetter? g).isSome (target? g).isSome (patch.resolved m g).outcome := by
  unfold editGraph target?
  show PatchRun.kept (PatchM.bind PatchM.get (fun g => withGetter g _) g) g = _ ∧
    Ends _ _ (PatchRun.outcome (PatchM.bind PatchM.get (fun g => withGetter g _) g))
  simp only [PatchM.bind, PatchM.get, withGetter]
  cases findGetter? g with
  | none => exact ⟨rfl, .absent _⟩
  | some id =>
      cases hr : g.routine? id with
      | none =>
          simp only [hr, Option.bind_eq_bind, Option.bind_some, Option.bind_none]
          exact ⟨rfl, .unexpected _⟩
      | some r =>
          cases hop : r.ops[counterLoad]? with
          | none =>
              simp only [hr, hop, Option.bind_eq_bind, Option.bind_some, Option.bind_none]
              exact ⟨rfl, .unexpected _⟩
          | some op =>
              cases hdst : fieldLoad? op with
              | none =>
                  simp only [hr, hop, hdst, Option.bind_eq_bind, Option.bind_some, Option.bind_none]
                  exact ⟨rfl, .unexpected _⟩
              | some dst =>
                  simp only [hr, hop, hdst, Option.bind_eq_bind, Option.bind_some]
                  exact ⟨rfl, .replaced⟩

theorem kept_resolved (m : Module) (g : Graph) : (patch.resolved m g).kept g = editGraph g :=
  (resolved_spec m g).1

theorem target?_eq_some_iff {g : Graph} {id : Nat} {dst : UInt32} :
    target? g = some (id, dst) ↔
      findGetter? g = some id ∧ ∃ r op, g.routine? id = some r ∧ r.ops[counterLoad]? = some op ∧
        fieldLoad? op = some dst := by
  simp only [target?, Option.bind_eq_bind, Option.bind_eq_some_iff, Option.pure_def,
    Option.some.injEq, Prod.mk.injEq]
  constructor
  · rintro ⟨_, hid, r, hr, op, hop, _, hdst, rfl, rfl⟩
    exact ⟨hid, r, op, hr, hop, hdst⟩
  · rintro ⟨hid, r, op, hr, hop, hdst⟩
    exact ⟨id, hid, r, hr, op, hop, dst, hdst, rfl, rfl⟩

theorem fieldLoad?_eq_some_iff {op : Op} {dst : UInt32} :
    fieldLoad? op = some dst ↔ ∃ object field, op = Op.field dst object field := by
  constructor
  · intro h
    have hopcode : op.opcode = .field := by
      unfold fieldLoad? at h
      split at h
      · assumption
      · cases h
    obtain ⟨dst', object, field, rfl⟩ := Op.eq_field_of_opcode hopcode
    obtain rfl : dst' = dst := Option.some.inj h
    exact ⟨object, field, rfl⟩
  · rintro ⟨object, field, rfl⟩
    rfl

theorem routine?_setOp (g : Graph) (f p : Nat) (op : Op) (i : Nat) :
    (g.setOp f p op).routine? i =
      (g.routine? i).map fun r => if f = i then { r with ops := r.ops.set p op } else r := by
  simp only [Graph.routine?, Graph.setOp, Graph.updateRoutine, List.getElem?_modify]
  cases g.functions[i]? with
  | none => rfl
  | some fn =>
      obtain ⟨type, _ | _⟩ := fn
      · by_cases h : f = i <;> simp [h, Function.mapRoutine, Function.routine?]
      · by_cases h : f = i <;> simp [h, Function.mapRoutine, Function.routine?]

/-- The edit does not change where the getter is. -/
theorem findGetter?_setOp (g : Graph) (f p : Nat) (op : Op) :
    findGetter? (g.setOp f p op) = findGetter? g := by
  have hname (i : Nat) :
      ((g.setOp f p op).routine? i).bind (·.name) = (g.routine? i).bind (·.name) := by
    rw [routine?_setOp]
    cases g.routine? i with
    | none => rfl
    | some r => by_cases h : f = i <;> simp [h]
  have hids : (g.setOp f p op).methodIds = g.methodIds := by
    simp only [Graph.methodIds, routine?_setOp, Option.isSome_map]
    simp only [Graph.setOp, Graph.updateRoutine, List.length_modify]
  simp only [findGetter?, hids, hname]

/-- **Where the patch has been, it finds nothing to do.** -/
theorem target?_editGraph (g : Graph) : target? (editGraph g) = none := by
  cases h : target? g with
  | none => simp only [editGraph, h]
  | some edit =>
      obtain ⟨id, dst⟩ := edit
      obtain ⟨hid, r, op, hr, hop, _⟩ := target?_eq_some_iff.mp h
      have hlt := (List.getElem?_eq_some_iff.mp hop).1
      simp only [editGraph, h]
      simp [target?, findGetter?_setOp, hid, routine?_setOp, hr, List.getElem?_set_self hlt,
        fieldLoad?, Op.int]

theorem findGetter?_editGraph (g : Graph) : findGetter? (editGraph g) = findGetter? g := by
  unfold editGraph
  split
  · exact findGetter?_setOp ..
  · rfl

theorem editGraph_of_target?_eq_none {g : Graph} (h : target? g = none) : editGraph g = g := by
  simp only [editGraph, h]

theorem editGraph_editGraph (g : Graph) : editGraph (editGraph g) = editGraph g :=
  editGraph_of_target?_eq_none (target?_editGraph g)

/-! ## The module -/

/-- The field load that the patch replaces in a module. -/
def rawTarget? (g : Graph) (m : Module) : Option (Nat × Int32) := do
  let id ← findGetter? g
  let f ← m.findMethod? id
  let i ← f.instructions[counterLoad]?
  let dst ← rawFieldLoad? i
  return (id, dst)

/-- A method that loads an integer in place of the counter. -/
def loadConstant (dst : Int32) (index : Nat) (f : Method) : Method :=
  { f with instructions := f.instructions.set counterLoad ⟨.int, [dst, Int32.ofNat index]⟩ }

/-- A module with a zero in its pool, which a method loads in place of the counter. -/
def loadZero (m : Module) (id : Nat) (dst : Int32) : Module :=
  { m with ints := (zeroIn m.ints).2 }.updateMethod id (loadConstant dst (zeroIn m.ints).1)

/-- The module that the patch leaves behind. -/
def editModule (g : Graph) (m : Module) : Module :=
  match rawTarget? g m with
  | some (id, dst) => loadZero m id dst
  | none => m

/-- What the patch does to a module. -/
theorem raw_spec (g : Graph) (m : Module) :
    (patch.raw g m).kept m = editModule g m ∧
      Ends (findGetter? g).isSome (rawTarget? g m).isSome (patch.raw g m).outcome := by
  unfold editModule rawTarget?
  show PatchRun.kept (withGetter g _ m) m = _ ∧ Ends _ _ (PatchRun.outcome (withGetter g _ m))
  simp only [withGetter]
  cases findGetter? g with
  | none => exact ⟨rfl, .absent _⟩
  | some id =>
      cases hf : m.findMethod? id with
      | none =>
          simp only [hf, bind, PatchM.bind, PatchM.get, Option.bind_some, Option.bind_none]
          exact ⟨rfl, .unexpected _⟩
      | some f =>
          cases hi : f.instructions[counterLoad]? with
          | none =>
              simp only [hf, hi, bind, PatchM.bind, PatchM.get, Option.bind_some, Option.bind_none]
              exact ⟨rfl, .unexpected _⟩
          | some i =>
              cases hdst : rawFieldLoad? i with
              | none =>
                  simp only [hf, hi, hdst, bind, PatchM.bind, PatchM.get, Option.bind_some,
                    Option.bind_none]
                  exact ⟨rfl, .unexpected _⟩
              | some dst =>
                  simp only [hf, hi, hdst, bind, PatchM.bind, PatchM.get, Option.bind_some]
                  exact ⟨rfl, .replaced⟩

theorem kept_raw (g : Graph) (m : Module) : (patch.raw g m).kept m = editModule g m :=
  (raw_spec g m).1

theorem rawTarget?_eq_some_iff {g : Graph} {m : Module} {id : Nat} {dst : Int32} :
    rawTarget? g m = some (id, dst) ↔
      findGetter? g = some id ∧ ∃ f i, m.findMethod? id = some f ∧
        f.instructions[counterLoad]? = some i ∧ rawFieldLoad? i = some dst := by
  simp only [rawTarget?, Option.bind_eq_bind, Option.bind_eq_some_iff, Option.pure_def,
    Option.some.injEq, Prod.mk.injEq]
  constructor
  · rintro ⟨_, hid, f, hf, i, hi, _, hdst, rfl, rfl⟩
    exact ⟨hid, f, i, hf, hi, hdst⟩
  · rintro ⟨hid, f, i, hf, hi, hdst⟩
    exact ⟨id, hid, f, hf, i, hi, dst, hdst, rfl, rfl⟩

theorem find?_modify_findIdx {α : Type} {p : α → Bool} {f : α → α} (h : ∀ a, p (f a) = p a)
    (xs : List α) : (xs.modify (xs.findIdx p) f).find? p = (xs.find? p).map f := by
  induction xs with
  | nil => rfl
  | cons x xs ih =>
      rw [List.findIdx_cons, List.find?_cons]
      cases hx : p x with
      | true => simp [h, hx]
      | false => simp [hx, ih]

theorem findMethod?_loadZero (m : Module) (id : Nat) (dst : Int32) :
    (loadZero m id dst).findMethod? id =
      (m.findMethod? id).map (loadConstant dst (zeroIn m.ints).1) :=
  find?_modify_findIdx (p := fun f : Method => f.index == id)
    (f := loadConstant dst (zeroIn m.ints).1) (fun _ => rfl) m.methods

/-- The same for modules: where the patch has been, it finds nothing to do. -/
theorem rawTarget?_editModule (g : Graph) (m : Module) : rawTarget? g (editModule g m) = none := by
  cases h : rawTarget? g m with
  | none => simp only [editModule, h]
  | some edit =>
      obtain ⟨id, dst⟩ := edit
      obtain ⟨hid, f, i, hf, hi, _⟩ := rawTarget?_eq_some_iff.mp h
      have hlt := (List.getElem?_eq_some_iff.mp hi).1
      simp only [editModule, h]
      simp [rawTarget?, hid, findMethod?_loadZero, hf, loadConstant, List.getElem?_set_self hlt,
        rawFieldLoad?]

theorem editModule_of_rawTarget?_eq_none {g : Graph} {m : Module} (h : rawTarget? g m = none) :
    editModule g m = m := by
  simp only [editModule, h]

theorem editModule_editModule (g : Graph) (m : Module) :
    editModule g (editModule g m) = editModule g m :=
  editModule_of_rawTarget?_eq_none (rawTarget?_editModule g m)

end InfiniteJumps

/-! ## A method and its code -/

namespace Module

variable {m : Module} {s : Strategy} {g : Graph} {id : Nat}

/-- A module that can be resolved has one method of an index. -/
theorem nodup_methodIndices (h : m.resolve s = .ok g) : (m.methods.map (·.index)).Nodup := by
  obtain ⟨table, _, htable, _⟩ := resolve_functions h
  exact nodup_methodIndices_of_functionTable htable

/-- The method that a routine of the graph comes from. -/
theorem exists_findMethod? (h : m.resolve s = .ok g) {r : Routine} (hr : g.routine? id = some r) :
    ∃ f, m.findMethod? id = some f ∧ f.instructions.mapM m.resolveInstruction = .ok r.ops := by
  obtain ⟨table, _, htable, hresolves, _⟩ := resolve_functions h
  obtain ⟨type, hfunction⟩ := Graph.exists_function hr
  obtain ⟨record, hrecord, hresolved⟩ := getElem?_of_forall₂ hresolves.flip hfunction
  cases hresolved with
  | @method f _ typed registers registers_eq code =>
      obtain ⟨hmem, hindex⟩ := (getElem?_functionTable_iff htable).mp hrecord
      have hf := method_mem_functionRecords_iff.mp hmem
      have hfound : (m.findMethod? id).isSome := by
        rw [findMethod?, List.find?_isSome]
        exact ⟨f, hf, beq_iff_eq.mpr hindex⟩
      obtain ⟨f', hf'⟩ := Option.isSome_iff_exists.mp hfound
      have hindex' : f'.index = id := by simpa using List.find?_some hf'
      obtain rfl : f' = f := List.inj_on_of_nodup_map (nodup_methodIndices h)
        (List.mem_of_find?_eq_some hf') hf (hindex'.trans hindex.symm)
      exact ⟨f', hf', code⟩

end Module

theorem Opcode.eq_field_of_forCount {o : Opcode} {n : Nat} (h : o.forCount n = .field) :
    o = .field := by
  unfold forCount at h
  split at h
  · split at h <;> cases h
  · exact h

theorem forall₂_modify {α : Type} {R : α → α → Prop} {xs : List α} {i : Nat} {f : α → α}
    (hat : ∀ x, xs[i]? = some x → R x (f x)) (hother : ∀ j x, j ≠ i → xs[j]? = some x → R x x) :
    List.Forall₂ R xs (xs.modify i f) := by
  induction xs generalizing i with
  | nil =>
      rw [List.modify_nil]
      exact .nil
  | cons x xs ih =>
      cases i with
      | zero =>
          rw [List.modify_zero_cons]
          refine .cons (hat x rfl) (List.forall₂_same.mpr fun y hy => ?_)
          obtain ⟨j, hj⟩ := List.mem_iff_getElem?.mp hy
          exact hother (j + 1) y (Nat.succ_ne_zero j) (by simpa using hj)
      | succ i =>
          rw [List.modify_succ_cons]
          refine .cons (hother 0 x (Nat.succ_ne_zero i).symm rfl) (ih ?_ ?_)
          · exact fun y hy => hat y (by simpa using hy)
          · exact fun j y hj hy => hother (j + 1) y (fun he => hj (Nat.succ.inj he)) (by simpa using hy)

namespace InfiniteJumps

variable {m : Module} {s : Strategy} {g : Graph} {id : Nat}

/-! ## The two edits are one -/

/-- The op of a field load loads a field into the register that the instruction names. -/
theorem exists_fieldLoad? {i : Instruction} {op : Op} {raw : Int32}
    (h : m.resolveInstruction i = .ok op) (hraw : rawFieldLoad? i = some raw) :
    ∃ dst, fieldLoad? op = some dst ∧ m.Denotes raw (.register dst) := by
  obtain ⟨hopcode, _, hargs⟩ := Module.resolveInstruction_eq_ok_iff.mp h
  unfold rawFieldLoad? at hraw
  split at hraw
  · next hfield =>
    rw [hfield] at hopcode
    obtain ⟨dst, object, field, rfl⟩ := Op.eq_field_of_opcode hopcode
    obtain ⟨args, hargs_eq⟩ := List.head?_eq_some_iff.mp hraw
    rw [hargs_eq] at hargs
    cases hargs with
    | cons hdst _ => exact ⟨dst, rfl, hdst⟩
  · cases hraw

theorem fieldLoad?_eq_none {i : Instruction} {op : Op} (h : m.resolveInstruction i = .ok op)
    (hraw : rawFieldLoad? i = none) : fieldLoad? op = none := by
  cases hload : fieldLoad? op with
  | none => rfl
  | some dst =>
      obtain ⟨object, field, rfl⟩ := fieldLoad?_eq_some_iff.mp hload
      obtain ⟨hopcode, _, hargs⟩ := Module.resolveInstruction_eq_ok_iff.mp h
      have hfield : i.opcode = .field := Opcode.eq_field_of_forCount hopcode.symm
      cases hi : i.args with
      | nil =>
          rw [hi] at hargs
          cases hargs
      | cons raw rest => simp [rawFieldLoad?, hfield, hi] at hraw

/-- The pool only grows, and the index is that of a zero. -/
theorem zeroIn_spec (ints : List Int32) :
    ints <+: (zeroIn ints).2 ∧ (zeroIn ints).2[(zeroIn ints).1]? = some 0 ∧
      (zeroIn ints).1 ≤ ints.length ∧ (zeroIn ints).2.length ≤ ints.length + 1 := by
  unfold zeroIn
  cases h : ints.idxOf? 0 with
  | some index =>
      obtain ⟨hlt, _⟩ := List.idxOf?_eq_some_iff.mp h
      exact ⟨List.prefix_refl ints, Module.CarriesValues.getElem?_of_idxOf? h, Nat.le_of_lt hlt,
        Nat.le_succ _⟩
  | none =>
      refine ⟨List.prefix_append ints [0], ?_, Nat.le_refl _, by simp⟩
      simp

theorem preserves_loadZero (m : Module) (id : Nat) (dst : Int32) :
    m.Preserves (loadZero m id dst) :=
  ⟨rfl, (zeroIn_spec m.ints).1, List.prefix_refl _, List.prefix_refl _, List.prefix_refl _, rfl, rfl,
    rfl, List.length_modify .., rfl, rfl⟩

/-- The edited instruction resolves to the edited op. -/
theorem resolveInstruction_loadZero (hfew : m.ints.length < int32Limit) {dst : UInt32} {raw : Int32}
    (hraw : m.Denotes raw (.register dst)) :
    (loadZero m id raw).resolveInstruction ⟨.int, [raw, Int32.ofNat (zeroIn m.ints).1]⟩ =
      .ok (Op.int dst 0) := by
  obtain ⟨_, hzero, hindex, _⟩ := zeroIn_spec m.ints
  have hlt : (zeroIn m.ints).1 < int32Limit := Nat.lt_of_le_of_lt hindex hfew
  refine Module.resolveInstruction_eq_ok_iff.mpr ⟨rfl, rfl, .cons hraw (.cons ?_ .nil)⟩
  refine ⟨ofNat_not_neg hlt, ?_⟩
  rw [toInt_ofNat_of_lt hlt, Int.toNat_natCast]
  exact hzero

/-- What is replaced in a module is what is replaced in its graph. -/
theorem exists_target? (h : m.resolve s = .ok g) {raw : Int32}
    (hraw : rawTarget? g m = some (id, raw)) :
    ∃ dst, target? g = some (id, dst) ∧ m.Denotes raw (.register dst) := by
  obtain ⟨hid, f, i, hf, hi, hload⟩ := rawTarget?_eq_some_iff.mp hraw
  obtain ⟨r, hr⟩ : ∃ r, g.routine? id = some r := by
    have hmem := List.mem_of_find?_eq_some hid
    exact Option.isSome_iff_exists.mp (List.mem_filter.mp hmem).2
  obtain ⟨f', hf', hcode⟩ := Module.exists_findMethod? h hr
  obtain rfl : f = f' := Option.some.inj (hf.symm.trans hf')
  obtain ⟨op, hop, hresolved⟩ := getElem?_of_forall₂ (mapM_eq_ok_iff.mp hcode) hi
  obtain ⟨dst, hdst, hregister⟩ := exists_fieldLoad? hresolved hload
  exact ⟨dst, target?_eq_some_iff.mpr ⟨hid, r, op, hr, hop, hdst⟩, hregister⟩

theorem target?_eq_none (h : m.resolve s = .ok g) (hraw : rawTarget? g m = none) :
    target? g = none := by
  cases htarget : target? g with
  | none => rfl
  | some edit =>
      obtain ⟨id, dst⟩ := edit
      obtain ⟨hid, r, op, hr, hop, hdst⟩ := target?_eq_some_iff.mp htarget
      obtain ⟨f, hf, hcode⟩ := Module.exists_findMethod? h hr
      obtain ⟨i, hi, hresolved⟩ := getElem?_of_forall₂ (mapM_eq_ok_iff.mp hcode).flip hop
      cases hload : rawFieldLoad? i with
      | none =>
          rw [fieldLoad?_eq_none hresolved hload] at hdst
          cases hdst
      | some raw =>
          have hsome := rawTarget?_eq_some_iff.mpr ⟨hid, f, i, hf, hi, hload⟩
          rw [hraw] at hsome
          cases hsome

/-- Loading a zero in a module is loading a zero in its graph. -/
theorem resolve_loadZero {s' : Strategy} (hfew : m.ints.length < int32Limit)
    (h : m.resolve s = .ok g) {f : Method} (hf : m.findMethod? id = some f) {dst : UInt32}
    {raw : Int32} (hraw : m.Denotes raw (.register dst)) :
    (loadZero m id raw).resolve s' = .ok (g.setOp id counterLoad (Op.int dst 0)) := by
  have hplace : m.methods[m.methods.findIdx (·.index == id)]? = some f := by
    rw [← List.find?_eq_getElem?_findIdx]
    exact hf
  have hindex : f.index = id := by simpa using List.find?_some hf
  have hpreserves := preserves_loadZero m id raw
  rw [← Graph.recode_set]
  refine hpreserves.resolve (fun i => by split <;> rfl) (forall₂_modify ?_ ?_) h
  · intro f' hf'
    obtain rfl : f = f' := Option.some.inj (hplace.symm.trans hf')
    refine ⟨rfl, rfl, rfl, fun ops hops => ?_⟩
    rw [if_pos hindex]
    exact mapM_set (hpreserves.resolveInstructions _ ops hops) (resolveInstruction_loadZero hfew hraw)
      counterLoad
  · -- no other method has the index, so no other code is edited
    intro j f' hj hf'
    refine ⟨rfl, rfl, rfl, fun ops hops => ?_⟩
    have hne : f'.index ≠ id := by
      intro he
      refine hj ((List.getElem?_inj ?_ (Module.nodup_methodIndices h)).mp ?_)
      · rw [List.length_map]
        exact (List.getElem?_eq_some_iff.mp hf').1
      · rw [List.getElem?_map, List.getElem?_map, hf', hplace, Option.map_some, Option.map_some,
          he, hindex]
    rw [if_neg hne]
    exact hpreserves.resolveInstructions _ ops hops

/-- **The edited module resolves to the edited graph.** -/
theorem resolve_editModule {s' : Strategy} (hfew : m.ints.length < int32Limit)
    (h : m.resolve s = .ok g) : (editModule g m).resolve s' = .ok (editGraph g) := by
  cases hraw : rawTarget? g m with
  | none =>
      simp only [editModule, editGraph, hraw, target?_eq_none h hraw]
      exact Module.resolve_eq_ok_iff.mpr (Module.resolve_eq_ok_iff.mp h)
  | some edit =>
      obtain ⟨id, raw⟩ := edit
      obtain ⟨dst, htarget, hregister⟩ := exists_target? h hraw
      obtain ⟨_, f, _, hf, _⟩ := rawTarget?_eq_some_iff.mp hraw
      simp only [editModule, editGraph, hraw, htarget]
      exact resolve_loadZero hfew h hf hregister

/-! ## The edited module can be written -/

variable {limit : Nat}

theorem mem_modify {α : Type} {xs : List α} {i : Nat} {f : α → α} {y : α}
    (h : y ∈ xs.modify i f) : y ∈ xs ∨ ∃ x, xs[i]? = some x ∧ y = f x := by
  obtain ⟨j, hj⟩ := List.mem_iff_getElem?.mp h
  rw [List.getElem?_modify] at hj
  cases hx : xs[j]? with
  | none => simp [hx] at hj
  | some x =>
      by_cases hij : i = j
      · exact .inr ⟨x, hij ▸ hx, by simpa [hx, hij] using hj.symm⟩
      · have hy : x = y := by simpa [hx, hij] using hj
        exact .inl (hy ▸ List.mem_of_getElem? hx)

theorem finishes_loadConstant {f : Method} {dst : Int32} {index : Nat}
    (hf : (Output.methodCode f).Finishes) (hdst : dst.toInt.natAbs < varintLimit)
    (hindex : index < varintLimit) : (Output.methodCode (loadConstant dst index f)).Finishes := by
  simp only [Output.methodCode, loadConstant, Emission.finishes_append, Emission.finishes_each,
    Output.finishes_index, List.length_set] at hf ⊢
  refine ⟨hf.1, fun i hi => ?_⟩
  rcases List.mem_or_eq_of_mem_set hi with hi | rfl
  · exact hf.2 i hi
  · refine Instruction.finishes_write.mpr ⟨?_, rfl⟩
    simp only [List.mem_cons, List.not_mem_nil, or_false, forall_eq_or_imp, forall_eq]
    exact ⟨hdst, Reader.natAbs_ofNat_lt hindex⟩

/-- A zero more takes no more room than there is. -/
theorem compact_loadZero (hm : m.Compact limit) (hroom : m.ints.length + 1 < varintLimit)
    {raw : Int32} (hraw : raw.toInt.natAbs < varintLimit) : (loadZero m id raw).Compact limit := by
  obtain ⟨_, _, hindex, hlength⟩ := zeroIn_spec m.ints
  have hindex' : (zeroIn m.ints).1 < varintLimit := by omega
  refine { hm with counts := ?_, pools := fun hlimit => ?_, methods := fun f hf => ?_,
                   tables := fun hdebug f hf => ?_, untabled := fun hdebug f hf => ?_ }
  · have hcounts := hm.counts
    simp only [Output.counts, Emission.finishes_append, Output.finishes_index] at hcounts ⊢
    simp only [loadZero, Module.updateMethod, List.length_modify]
    obtain ⟨⟨⟨⟨⟨⟨⟨⟨⟨_, hfloats⟩, hstrings⟩, hbytes⟩, htypes⟩, hglobals⟩, hnatives⟩, hmethods⟩,
      hconstants⟩, hentry⟩ := hcounts
    exact ⟨⟨⟨⟨⟨⟨⟨⟨⟨by omega, hfloats⟩, hstrings⟩, hbytes⟩, htypes⟩, hglobals⟩, hnatives⟩, hmethods⟩,
      hconstants⟩, hentry⟩
  · have hpools := hm.pools hlimit
    simp only [Output.valuePools, Emission.finishes_append, Emission.finishes_each,
      Output.finishes_int32, Output.finishes_float64, implies_true, true_and] at hpools ⊢
    exact hpools
  · rcases mem_modify hf with hsame | ⟨before, hbefore, rfl⟩
    · exact hm.methods f hsame
    · exact finishes_loadConstant (hm.methods before (List.mem_of_getElem? hbefore)) hraw hindex'
  · rcases mem_modify hf with hsame | ⟨before, hbefore, rfl⟩
    · exact hm.tables hdebug f hsame
    · have htabled := hm.tables hdebug before (List.mem_of_getElem? hbefore)
      exact { htabled with aligned := by simpa [loadConstant] using htabled.aligned }
  · rcases mem_modify hf with hsame | ⟨before, hbefore, rfl⟩
    · exact hm.untabled hdebug f hsame
    · exact hm.untabled hdebug before (List.mem_of_getElem? hbefore)

theorem compact_editModule (hm : m.Compact limit) (hroom : m.ints.length + 1 < varintLimit) :
    (editModule g m).Compact limit := by
  unfold editModule
  split
  · next id raw htarget =>
    refine compact_loadZero hm hroom ?_
    -- the register is an argument of an instruction that was read
    obtain ⟨_, f, i, hf, hi, hload⟩ := rawTarget?_eq_some_iff.mp htarget
    have hcode := hm.methods f (List.mem_of_find?_eq_some hf)
    simp only [Output.methodCode, Emission.finishes_append, Emission.finishes_each] at hcode
    have hwritten := Instruction.finishes_write.mp (hcode.2 i (List.mem_of_getElem? hi))
    unfold rawFieldLoad? at hload
    split at hload
    · exact hwritten.1 raw (List.mem_of_mem_head? hload)
    · cases hload
  · exact hm

end InfiniteJumps

end HashLink
