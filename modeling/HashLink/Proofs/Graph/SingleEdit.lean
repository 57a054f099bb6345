import HashLink.Proofs.Graph.Closed

/-!
# One load for another

A field load is replaced by the load of an integer, and the program is flattened again. All values
are interned anew, so the integer goes where the code now mentions it first, and integers that are
first mentioned later move one place on. The edit can be told from the module only at its place, in
the pool of integers, and in the loads of integers that moved.

What an unrelated part of the module looks like afterwards is settled in three steps. The operands of
the program are those before the edited op, its own, and those after it; so the pool is known from
`List.eraseDups`. A flattened op depends on the pool of integers only if it loads one. And methods are
flattened one by one.
-/

namespace HashLink

/-! ## A value in the middle of a list -/

section Interning

variable {α : Type} [DecidableEq α]

/-- A pool with a value at the place where it is mentioned first, if `before` is what is mentioned
earlier and the pool starts with that. A value that was mentioned later moves there. -/
def internAt (before pool : List α) (value : α) : List α :=
  if value ∈ before then pool
  else
    let place := before.eraseDups.length
    pool.take place ++ value :: (pool.drop place).erase value

theorem filter_intern (pool : List α) (value : α) (q : α → Bool) :
    (intern pool value).filter q =
      if q value then intern (pool.filter q) value else pool.filter q := by
  unfold intern
  by_cases hq : q value <;> by_cases h : value ∈ pool <;> simp [hq, h]

theorem filter_eraseDups (values : List α) (q : α → Bool) :
    values.eraseDups.filter q = (values.filter q).eraseDups := by
  induction values using List.reverseRecOn with
  | nil => rfl
  | append_singleton values value ih =>
      rw [← intern_eraseDups, filter_intern, ih, intern_eraseDups, List.filter_append]
      cases hq : q value <;> simp [hq]

theorem nodup_eraseDups (values : List α) : values.eraseDups.Nodup := by
  rw [← foldl_intern_nil]
  exact nodup_foldl_intern List.nodup_nil values

/-- **A value in the middle of a list is kept where it stands, unless it was there before.** -/
theorem eraseDups_insert (before after : List α) (value : α) :
    (before ++ value :: after).eraseDups = internAt before (before ++ after).eraseDups value := by
  simp only [internAt, List.eraseDups_append]
  split
  · next h => simp [List.removeAll, h]
  · next h =>
    rw [List.take_left, List.drop_left, (nodup_eraseDups _).erase_eq_filter, filter_eraseDups]
    simp only [List.removeAll, List.filter_cons, List.elem_eq_mem, h, decide_false, Bool.not_false,
      if_true, List.eraseDups_cons]
    rfl

/-- Wherever it goes, the pool holds what it would hold with the value at its end. -/
theorem perm_eraseDups_insert (before after : List α) (value : α) :
    (before ++ value :: after).eraseDups.Perm (intern (before ++ after).eraseDups value) := by
  refine (List.perm_ext_iff_of_nodup (nodup_eraseDups _) ?_).mpr fun a => ?_
  · exact nodup_intern (nodup_eraseDups _) value
  · simp only [mem_intern, List.mem_eraseDups, List.mem_append, List.mem_cons]
    tauto

/-- The value goes to the end exactly when nothing new is mentioned after its place. -/
theorem eraseDups_insert_eq_intern_iff (before after : List α) (value : α) :
    (before ++ value :: after).eraseDups = intern (before ++ after).eraseDups value ↔
      value ∈ before ∨
        ∀ v, (before ++ after).eraseDups[before.eraseDups.length]? = some v → v = value := by
  by_cases h : value ∈ before
  · refine iff_of_true ?_ (.inl h)
    rw [eraseDups_insert, internAt, if_pos h, intern,
      if_pos (List.mem_eraseDups.mpr (List.mem_append_left after h))]
  · have hbefore : value ∉ before.eraseDups := mt List.mem_eraseDups.mp h
    rw [eraseDups_insert, internAt, if_neg h, List.eraseDups_append]
    simp only [h, false_or, List.take_left, List.drop_left]
    -- what is new behind the place
    cases (after.removeAll before).eraseDups with
    | nil => simp [intern, hbefore]
    | cons v more =>
        simp only [List.getElem?_append_right (Nat.le_refl _), Nat.sub_self,
          List.getElem?_cons_zero, Option.some.injEq, forall_eq']
        by_cases hv : v = value
        · subst hv
          simp [intern]
        · refine iff_of_false (fun heq => hv ?_) hv
          have hplace := congrArg (·[before.eraseDups.length]?) heq
          have hpool : (intern (before.eraseDups ++ v :: more) value)[before.eraseDups.length]? =
              some v := by
            obtain ⟨rest, hrest⟩ := intern_extends (before.eraseDups ++ v :: more) value
            rw [← hrest, List.append_assoc, List.getElem?_append_right (Nat.le_refl _),
              Nat.sub_self]
            rfl
          simp only [hpool, List.getElem?_append_right (Nat.le_refl _), Nat.sub_self,
            List.getElem?_cons_zero, Option.some.injEq] at hplace
          exact hplace.symm

end Interning

/-! ## Loads -/

/-- The load of a field of an object into a register. -/
def Op.field (dst object : UInt32) (index : Int32) : Op :=
  ⟨.field, [.register dst, .register object, .field index], ⟨rfl, rfl⟩⟩

/-- What a shape can repeat is not an integer. -/
theorem Shape.int_mem_kindsFor (s : Shape) (n : Nat) :
    OperandKind.int ∈ s.kindsFor n ↔ OperandKind.int ∈ s.kindsFor 0 := by
  cases s <;> simp [kindsFor]

/-- Only one opcode takes an integer. -/
theorem Opcode.eq_int_of_mem {o : Opcode} {n : Nat}
    (h : OperandKind.int ∈ o.opShape.kindsFor n) : o = .int := by
  rw [Shape.int_mem_kindsFor] at h
  revert h
  cases o <;> decide

theorem Op.int?_eq_none {op : Op} (h : op.opcode ≠ .int) {o : Operand} (ho : o ∈ op.operands) :
    o.int? = none := by
  cases o with
  | int value =>
      refine absurd (Opcode.eq_int_of_mem (n := (op.operands.map (·.kind)).length) ?_) h
      rw [← op.fits.1]
      exact List.mem_map_of_mem ho
  | _ => rfl

theorem Op.eq_int_of_opcode {op : Op} (h : op.opcode = .int) :
    ∃ dst value, op = Op.int dst value := by
  obtain ⟨opcode, operands, fits⟩ := op
  obtain rfl : opcode = .int := h
  have hkinds : operands.map (·.kind) = [.register, .int] := fits.1
  match operands, hkinds with
  | [.register dst, .int value], _ => exact ⟨dst, value, rfl⟩

theorem Op.eq_field_of_opcode {op : Op} (h : op.opcode = .field) :
    ∃ dst object index, op = Op.field dst object index := by
  obtain ⟨opcode, operands, fits⟩ := op
  obtain rfl : opcode = .field := h
  have hkinds : operands.map (·.kind) = [.register, .register, .field] := fits.1
  match operands, hkinds with
  | [.register dst, .register object, .field index], _ => exact ⟨dst, object, index, rfl⟩

/-- A number is the index of a value in a pool of integers. -/
def Indexes (pool : List Int32) (raw value : Int32) : Prop :=
  ¬raw < 0 ∧ pool[raw.toInt.toNat]? = some value

/-- What becomes of an instruction when the pool of integers changes: a load of an integer finds it
at its new index, and any other instruction is what it was. -/
inductive Instruction.Follows (old new : List Int32) : Instruction → Instruction → Prop
  | load {dst index index' value : Int32} (was : Indexes old index value)
      (is : Indexes new index' value) : Follows old new ⟨.int, [dst, index]⟩ ⟨.int, [dst, index']⟩
  | other {i : Instruction} (h : i.opcode ≠ .int) : Follows old new i i

namespace Inventory

variable {has : Inventory} {p : ValuePools} {ints : List Int32}

theorem flattenOperand_withInts {o : Operand} (h : o.int? = none) :
    has.flattenOperand { p with ints } o = has.flattenOperand p o := by
  cases o with
  | int value => cases h
  | _ => rfl

theorem indexes_of_flattenOperand {value raw : Int32}
    (h : has.flattenOperand p (.int value) = .ok raw) : Indexes p.ints raw value := by
  obtain ⟨i, hi, hlt, rfl⟩ := operandIndex_eq_ok_iff.mp h
  refine ⟨ofNat_not_neg hlt, ?_⟩
  rw [toInt_ofNat_of_lt hlt, Int.toNat_natCast]
  exact Module.CarriesValues.getElem?_of_idxOf? hi

theorem flattenOp_int_eq_ok_iff {dst : UInt32} {value : Int32} {i : Instruction} :
    has.flattenOp p (Op.int dst value) = .ok i ↔
      ∃ raw index, has.flattenOperand p (.register dst) = .ok raw ∧
        has.flattenOperand p (.int value) = .ok index ∧ i = ⟨.int, [raw, index]⟩ := by
  simp only [flattenOp, Op.int, List.mapM_cons, List.mapM_nil, bind_eq_ok_iff, pure_eq_ok,
    Except.ok.injEq]
  constructor
  · rintro ⟨_, ⟨raw, hraw, _, ⟨index, hindex, _, rfl, rfl⟩, rfl⟩, rfl⟩
    exact ⟨raw, index, hraw, hindex, rfl⟩
  · rintro ⟨raw, index, hraw, hindex, rfl⟩
    exact ⟨_, ⟨raw, hraw, _, ⟨index, hindex, _, rfl, rfl⟩, rfl⟩, rfl⟩

/-- **An op that could be flattened can be with other integers in the pool**, if those it had are
there. -/
theorem exists_flattenOp_withInts (hints : p.ints ⊆ ints) (hfew : ints.length ≤ int32Limit) {op : Op}
    {i : Instruction} (h : has.flattenOp p op = .ok i) :
    ∃ j, has.flattenOp { p with ints } op = .ok j ∧ i.Follows p.ints ints j := by
  by_cases hop : op.opcode = .int
  · obtain ⟨dst, value, rfl⟩ := Op.eq_int_of_opcode hop
    obtain ⟨raw, index, hraw, hindex, rfl⟩ := flattenOp_int_eq_ok_iff.mp h
    have hold := indexes_of_flattenOperand hindex
    have hmem : value ∈ ints := hints (List.mem_of_getElem? hold.2)
    obtain ⟨index', hindex'⟩ : ∃ index', has.flattenOperand { p with ints } (.int value) = .ok index' :=
      exists_operandIndex .int (.int value) hmem hfew
    exact ⟨_, flattenOp_int_eq_ok_iff.mpr ⟨raw, index', hraw, hindex', rfl⟩,
      .load hold (indexes_of_flattenOperand hindex')⟩
  · refine ⟨i, ?_, .other ?_⟩
    · obtain ⟨args, hargs, hi⟩ := bind_eq_ok_iff.mp h
      refine bind_eq_ok_iff.mpr ⟨args, ?_, hi⟩
      rw [mapM_eq_ok_iff] at hargs ⊢
      have hboth := (List.forall₂_and_left op.operands args).mpr
        ⟨fun o ho => Op.int?_eq_none hop ho, hargs⟩
      exact hboth.imp fun o raw ho => (flattenOperand_withInts ho.1).trans ho.2
    · obtain ⟨args, _, hi⟩ := bind_eq_ok_iff.mp h
      obtain rfl := Except.ok.inj hi
      exact hop

end Inventory

/-! ## The edit -/

section Lists

variable {α β : Type}

theorem map_modify_of_eq {f : α → α} {k : α → β} (h : ∀ a, k (f a) = k a) (xs : List α) (i : Nat) :
    (xs.modify i f).map k = xs.map k := by
  induction xs generalizing i with
  | nil => cases i <;> rfl
  | cons x xs ih =>
      cases i with
      | zero => simp [h]
      | succ i => simp [ih]

theorem mapM_set {ε : Type} {f : α → Except ε β} {xs : List α} {ys : List β} {x : α} {y : β}
    (h : xs.mapM f = .ok ys) (hx : f x = .ok y) (i : Nat) :
    (xs.set i x).mapM f = .ok (ys.set i y) := by
  rw [mapM_eq_ok_iff] at h ⊢
  induction h generalizing i with
  | nil => exact .nil
  | cons hxy hrest ih =>
      cases i with
      | zero => exact .cons hx hrest
      | succ i => exact .cons hxy (ih i)

/-- A traversal that succeeds where another one did, with related results. -/
theorem exists_mapM_related {ε ε' γ : Type} {f : α → Except ε β} {f' : α → Except ε' γ}
    {R : β → γ → Prop} {xs : List α} {ys : List β} (h : xs.mapM f = .ok ys)
    (each : ∀ x ∈ xs, ∀ y, f x = .ok y → ∃ z, f' x = .ok z ∧ R y z) :
    ∃ zs, xs.mapM f' = .ok zs ∧ List.Forall₂ R ys zs := by
  rw [mapM_eq_ok_iff] at h
  induction h with
  | nil => exact ⟨[], rfl, .nil⟩
  | @cons x y xs ys hxy _ ih =>
      obtain ⟨z, hz, hyz⟩ := each x List.mem_cons_self y hxy
      obtain ⟨zs, hzs, hrest⟩ := ih fun x' hx' => each x' (List.mem_cons_of_mem x hx')
      refine ⟨z :: zs, ?_, .cons hyz hrest⟩
      rw [List.mapM_cons, hz, hzs]
      rfl

theorem zipIdx_modify (xs : List α) (i : Nat) (f : α → α) :
    (xs.modify i f).zipIdx = xs.zipIdx.map fun x => (if x.2 = i then f x.1 else x.1, x.2) := by
  refine List.ext_getElem? fun j => ?_
  simp only [List.getElem?_zipIdx, List.getElem?_modify, List.getElem?_map, Option.map_map,
    Option.map_eq_map, Nat.zero_add, eq_comm (a := i)]
  cases xs[j]? <;> rfl

end Lists

namespace Graph

/-- A graph with another op at position `p` of method `f`. -/
def setOp (g : Graph) (f p : Nat) (op : Op) : Graph :=
  g.updateRoutine f fun r => { r with ops := r.ops.set p op }

/-- The code in front of position `p` of method `f`. -/
def opsBefore (g : Graph) (f p : Nat) : List Op :=
  (g.functions.take f).flatMap Function.ops ++ ((g.routine? f).elim [] (·.ops)).take p

/-- The integers in that code. -/
def intsBefore (g : Graph) (f p : Nat) : List Int32 :=
  ((g.opsBefore f p).flatMap (·.operands)).filterMap Operand.int?

variable {g : Graph} {f p : Nat} {r : Routine} {op : Op}

theorem names_setOp (g : Graph) (f p : Nat) (op : Op) : (g.setOp f p op).names = g.names := by
  have hfunctions : (g.setOp f p op).functions.map Function.names =
      g.functions.map Function.names :=
    map_modify_of_eq (fun fn => by obtain ⟨type, _ | _⟩ := fn <;> rfl) g.functions f
  simp only [names, List.flatMap_def, hfunctions]
  rfl

/-- An edit of the code does not change what there is to refer to. -/
theorem inventory_setOp (g : Graph) (f p : Nat) (op : Op) :
    (g.setOp f p op).inventory = g.inventory := by
  simp only [inventory, namePool, names_setOp]
  simp only [setOp, updateRoutine, List.length_modify]

/-- The function of a method. -/
theorem exists_function (hr : g.routine? f = some r) :
    ∃ type, g.functions[f]? = some ⟨type, .method r⟩ := by
  obtain ⟨⟨type, body⟩, hf, hbody⟩ := Option.bind_eq_some_iff.mp hr
  cases body with
  | native lib name => cases hbody
  | method r' =>
      obtain rfl : r' = r := Option.some.inj hbody
      exact ⟨type, hf⟩

/-- **An edit of an op leaves the operands in front of it and behind it.** -/
theorem exists_operands (hr : g.routine? f = some r) (hop : r.ops[p]? = some op) :
    ∃ after, g.operands = (g.opsBefore f p).flatMap (·.operands) ++ (op.operands ++ after) ∧
      ∀ op', (g.setOp f p op').operands =
        (g.opsBefore f p).flatMap (·.operands) ++ (op'.operands ++ after) := by
  obtain ⟨type, hf⟩ := exists_function hr
  obtain ⟨hflt, hfn⟩ := List.getElem?_eq_some_iff.mp hf
  obtain ⟨hplt, hpop⟩ := List.getElem?_eq_some_iff.mp hop
  have hbefore : g.opsBefore f p = (g.functions.take f).flatMap Function.ops ++ r.ops.take p := by
    rw [opsBefore, hr]
    rfl
  have hfunctions : g.functions =
      g.functions.take f ++ ⟨type, .method r⟩ :: g.functions.drop (f + 1) := by
    rw [← hfn, List.getElem_cons_drop, List.take_append_drop]
  have hops : r.ops = r.ops.take p ++ op :: r.ops.drop (p + 1) := by
    rw [← hpop, List.getElem_cons_drop, List.take_append_drop]
  refine ⟨(r.ops.drop (p + 1)).flatMap (·.operands) ++
    (g.functions.drop (f + 1)).flatMap fun fn => fn.ops.flatMap (·.operands), ?_, fun op' => ?_⟩
  · rw [operands, hbefore]
    conv_lhs => rw [hfunctions]
    have hcode : (⟨type, .method r⟩ : Function).ops = r.ops := rfl
    rw [List.flatMap_append, List.flatMap_cons, hcode]
    conv_lhs => rw [hops]
    simp only [List.flatMap_append, List.flatMap_cons, List.flatMap_assoc, List.append_assoc]
  · have hedited : (g.setOp f p op').functions = g.functions.take f ++
        ⟨type, .method { r with ops := r.ops.take p ++ op' :: r.ops.drop (p + 1) }⟩ ::
          g.functions.drop (f + 1) := by
      rw [setOp, updateRoutine, List.modify_eq_take_cons_drop hflt, hfn]
      simp only [Function.mapRoutine, List.set_eq_take_append_cons_drop, hplt, if_true]
    rw [operands, hbefore, hedited]
    simp only [List.flatMap_append, List.flatMap_cons, List.flatMap_assoc, List.append_assoc,
      Function.ops, Function.routine?]

variable {dst object : UInt32} {index value : Int32}

/-- What operands of one kind there are does not depend on an op that has none of the kind. -/
theorem filterMap_operands_setOp {α : Type} (k : Operand → Option α) (op' : Op)
    (hr : g.routine? f = some r) (hop : r.ops[p]? = some op) (h : op.operands.filterMap k = [])
    (h' : op'.operands.filterMap k = []) :
    (g.setOp f p op').operands.filterMap k = g.operands.filterMap k := by
  obtain ⟨after, hold, hnew⟩ := exists_operands hr hop
  rw [hold, hnew]
  simp only [List.filterMap_append, h, h', List.nil_append]

/-- The integers of the code with one more in its middle. -/
theorem exists_ints_setOp (hr : g.routine? f = some r)
    (hop : r.ops[p]? = some (Op.field dst object index)) (value : Int32) :
    ∃ after, g.ints = g.intsBefore f p ++ after ∧
      (g.setOp f p (Op.int dst value)).ints = g.intsBefore f p ++ value :: after := by
  obtain ⟨after, hold, hnew⟩ := exists_operands hr hop
  refine ⟨after.filterMap Operand.int?, ?_, ?_⟩
  · rw [ints, hold, List.filterMap_append, List.filterMap_append]
    rfl
  · rw [ints, hnew, List.filterMap_append, List.filterMap_append]
    rfl

/-- The other pools do not change. -/
theorem pools_setOp (hr : g.routine? f = some r)
    (hop : r.ops[p]? = some (Op.field dst object index)) (value : Int32) :
    (g.setOp f p (Op.int dst value)).pools =
      { g.pools with ints := (g.setOp f p (Op.int dst value)).ints.eraseDups } := by
  have hfloats : (g.setOp f p (Op.int dst value)).floats = g.floats :=
    filterMap_operands_setOp Operand.float? (Op.int dst value) hr hop rfl rfl
  have hblocks : (g.setOp f p (Op.int dst value)).blocks = g.blocks := by
    have hfound := filterMap_operands_setOp Operand.block? (Op.int dst value) hr hop rfl rfl
    rw [blocks, blocks, hfound]
    rfl
  have htexts : (g.setOp f p (Op.int dst value)).texts = g.texts := by
    have hfound := filterMap_operands_setOp (Operand.text? g.version) (Op.int dst value) hr hop
      rfl rfl
    rw [texts_eq, texts_eq, names_setOp, ← hfound]
    rfl
  simp only [pools, hfloats, hblocks, htexts]

/-- The values of the code can still be kept. -/
theorem valuePools_setOp {q : ValuePools} (hr : g.routine? f = some r)
    (hop : r.ops[p]? = some (Op.field dst object index)) (value : Int32)
    (h : g.inventory.valuePools (g.functions.map Function.poolValues) = .ok q) :
    g.inventory.valuePools
        ((g.setOp f p (Op.int dst value)).functions.map Function.poolValues) =
      .ok { q with ints := (g.setOp f p (Op.int dst value)).ints.eraseDups } := by
  obtain ⟨hstorable, rfl⟩ := valuePools_eq_ok_iff.mp h
  obtain ⟨after, hold, hnew⟩ := exists_operands hr hop
  rw [← pools_setOp hr hop value, ← inventory_setOp g f p (Op.int dst value)]
  refine valuePools_eq_ok_iff.mpr ⟨fun o ho v hv => ?_, rfl⟩
  rw [hnew] at ho
  rcases List.mem_append.mp ho with ho | ho
  · exact hstorable o (by rw [hold]; exact List.mem_append_left _ ho) v hv
  rcases List.mem_append.mp ho with ho | ho
  · -- the new op has a register and an integer, and an integer can be kept
    rcases List.mem_pair.mp ho with rfl | rfl
    · cases hv
    · obtain rfl := Option.some.inj hv
      trivial
  · exact hstorable o (by rw [hold]; simp [ho]) v hv

end Graph

/-! ## Methods -/

/-- What becomes of a method when the field load at position `p` of method `f` becomes the load of a
value: that instruction loads the value into the same register, and the others follow the pool. -/
structure Method.Retargets (f p : Nat) (dst : UInt32) (value : Int32) (old new : List Int32)
    (a b : Method) : Prop where
  /-- Nothing but instructions changes. -/
  rest : { b with instructions := a.instructions } = a
  length_eq : b.instructions.length = a.instructions.length
  load : a.index = f → ∃ raw object field index,
    a.instructions[p]? = some ⟨.field, [raw, object, field]⟩ ∧
      b.instructions[p]? = some ⟨.int, [raw, index]⟩ ∧ raw.toUInt32 = dst ∧
      Indexes new index value
  others : ∀ q i j, ¬(a.index = f ∧ q = p) → a.instructions[q]? = some i →
    b.instructions[q]? = some j → i.Follows old new j

namespace Inventory

variable {has : Inventory} {pools : ValuePools} {ints : List Int32} {f p : Nat}
  {dst object : UInt32} {field value : Int32}

theorem flattenNative_mapRoutine (edit : Routine → Routine) (i : Nat) (fn : Function) :
    has.flattenNative i (fn.mapRoutine edit) = has.flattenNative i fn := by
  obtain ⟨type, _ | _⟩ := fn <;> rfl

/-- The code of a method, before its op at `p` is replaced. -/
theorem exists_flattenOps (hints : pools.ints ⊆ ints) (hfew : ints.length ≤ int32Limit)
    {ops : List Op} {is : List Instruction} (h : ops.mapM (has.flattenOp pools) = .ok is) :
    ∃ js, ops.mapM (has.flattenOp { pools with ints }) = .ok js ∧
      List.Forall₂ (Instruction.Follows pools.ints ints) is js :=
  exists_mapM_related h fun _ _ _ hi => exists_flattenOp_withInts hints hfew hi

/-- The instruction of a field load, and that of the load which takes its place. -/
theorem exists_flattenOp_load (hvalue : value ∈ ints) (hfew : ints.length ≤ int32Limit)
    {i : Instruction} (h : has.flattenOp pools (Op.field dst object field) = .ok i) :
    ∃ raw object field index, i = ⟨.field, [raw, object, field]⟩ ∧ raw.toUInt32 = dst ∧
      has.flattenOp { pools with ints } (Op.int dst value) = .ok ⟨.int, [raw, index]⟩ ∧
      Indexes ints index value := by
  simp only [flattenOp, Op.field, List.mapM_cons, List.mapM_nil, bind_eq_ok_iff, pure_eq_ok,
    Except.ok.injEq] at h
  obtain ⟨_, ⟨raw, hraw, _, ⟨object', _, _, ⟨field', _, _, rfl, rfl⟩, rfl⟩, rfl⟩, rfl⟩ := h
  obtain ⟨index, hindex⟩ : ∃ index, has.flattenOperand { pools with ints } (.int value) = .ok index :=
    exists_operandIndex .int (.int value) hvalue hfew
  refine ⟨raw, object', field', index, rfl, ?_, ?_, indexes_of_flattenOperand hindex⟩
  · obtain ⟨number, hnumber, hlt, rfl⟩ := operandIndex_eq_ok_iff.mp hraw
    obtain rfl := Option.some.inj hnumber
    exact UInt32.ofNat_toNat
  · exact flattenOp_int_eq_ok_iff.mpr ⟨raw, index, hraw, hindex, rfl⟩

/-- **A method can be flattened again after the edit, and only its loads of integers change.** -/
theorem exists_flattenMethod_setOp (hints : pools.ints ⊆ ints) (hvalue : value ∈ ints)
    (hfew : ints.length ≤ int32Limit) {fn : Function} {n : Nat} {a : Option Method}
    (hload : n = f → fn.ops[p]? = some (Op.field dst object field))
    (h : has.flattenMethod pools n fn = .ok a) :
    ∃ b, has.flattenMethod { pools with ints } n
        (if n = f then fn.mapRoutine fun r => { r with ops := r.ops.set p (Op.int dst value) }
          else fn) = .ok b ∧
      Option.Rel (Method.Retargets f p dst value pools.ints ints) a b := by
  obtain ⟨type, body⟩ := fn
  cases body with
  | native lib name =>
      obtain rfl := Except.ok.inj h
      exact ⟨none, by split <;> rfl, .none⟩
  | method r =>
      obtain ⟨is, his, htype, hregisters, rfl⟩ := flattenMethod_method_eq_ok_iff.mp h
      obtain ⟨js, hjs, hfollow⟩ := exists_flattenOps hints hfew his
      have hothers {q : Nat} {i j : Instruction} (hi : is[q]? = some i) (hj : js[q]? = some j) :
          i.Follows pools.ints ints j := by
        obtain ⟨j', hj', hij⟩ := getElem?_of_forall₂ hfollow hi
        obtain rfl := Option.some.inj (hj.symm.trans hj')
        exact hij
      by_cases hn : n = f
      · -- the method that is edited
        have hop : r.ops[p]? = some (Op.field dst object field) := hload hn
        obtain ⟨i, hi, hfield⟩ := getElem?_of_forall₂ (mapM_eq_ok_iff.mp his) hop
        obtain ⟨raw, object', field', index, rfl, hdst, hint, hindex⟩ :=
          exists_flattenOp_load hvalue hfew hfield
        have hlt : p < js.length := by
          rw [← hfollow.length_eq]
          exact (List.getElem?_eq_some_iff.mp hi).1
        rw [if_pos hn]
        refine ⟨_, flattenMethod_method_eq_ok_iff.mpr
          ⟨_, mapM_set hjs hint p, htype, hregisters, rfl⟩, .some ⟨?_, ?_, ?_, ?_⟩⟩
        · simp only [List.length_set, hfollow.length_eq]
        · simp only [List.length_set, hfollow.length_eq]
        · exact fun _ => ⟨raw, object', field', index, hi, List.getElem?_set_self hlt, hdst, hindex⟩
        · intro q i j hq hi hj
          have hne : p ≠ q := fun he => hq ⟨hn, he.symm⟩
          rw [List.getElem?_set_ne hne] at hj
          exact hothers hi hj
      · rw [if_neg hn]
        refine ⟨_, flattenMethod_method_eq_ok_iff.mpr ⟨js, hjs, htype, hregisters, rfl⟩,
          .some ⟨?_, hfollow.length_eq.symm, fun he => absurd he hn, fun q i j _ => hothers⟩⟩
        simp only [hfollow.length_eq]

end Inventory

/-! ## The program -/

namespace Graph

variable {s : Strategy} {g : Graph} {m : Module} {f p : Nat} {r : Routine} {dst object : UInt32}
  {field : Int32}

theorem ints_of_flatten (h : g.flatten s = .ok m) : m.ints = g.ints.eraseDups := by
  obtain ⟨natives, q, methods, stages⟩ := flatten_eq_ok_iff.mp h
  obtain ⟨_, rfl⟩ := valuePools_eq_ok_iff.mp stages.pools
  exact congrArg Module.ints stages.module_eq

/-- Every operand of a program that was flattened has a number. -/
theorem exists_flattenOperand (h : g.flatten s = .ok m) {o : Operand} (ho : o ∈ g.operands) :
    ∃ raw, g.inventory.flattenOperand g.pools o = .ok raw := by
  obtain ⟨natives, q, methods, stages⟩ := flatten_eq_ok_iff.mp h
  obtain ⟨_, rfl⟩ := valuePools_eq_ok_iff.mp stages.pools
  obtain ⟨fn, hfn, hcode⟩ := List.mem_flatMap.mp ho
  obtain ⟨op, hop, hoperand⟩ := List.mem_flatMap.mp hcode
  obtain ⟨n, hn⟩ := List.mem_iff_getElem?.mp hfn
  have hnumbered : (fn, n) ∈ g.functions.zipIdx := List.mem_zipIdx_iff_getElem?.mpr hn
  obtain ⟨method, _, hmethod⟩ := exists_of_mem_mapM stages.methods hnumbered
  obtain ⟨type, _ | r⟩ := fn
  · simp [Function.ops, Function.routine?] at hop
  obtain ⟨is, his, _⟩ := Inventory.flattenMethod_method_eq_ok_iff.mp hmethod
  obtain ⟨i, _, hi⟩ := exists_of_mem_mapM his hop
  obtain ⟨args, hargs, _⟩ := bind_eq_ok_iff.mp hi
  obtain ⟨raw, _, hraw⟩ := exists_of_mem_mapM hargs hoperand
  exact ⟨raw, hraw⟩

/-- A pool that code was flattened with is short enough for all its indices. -/
theorem length_ints_le_of_flatten (h : g.flatten s = .ok m) : m.ints.length ≤ int32Limit := by
  rw [ints_of_flatten h]
  rcases Nat.eq_zero_or_pos g.ints.eraseDups.length with hzero | hpos
  · rw [hzero]
    exact Nat.zero_le _
  -- the last integer of the pool is mentioned by an op, which was given its index
  have hlast : g.ints.eraseDups.length - 1 < g.ints.eraseDups.length := by omega
  have hmem : g.ints.eraseDups[g.ints.eraseDups.length - 1] ∈ g.ints :=
    List.mem_eraseDups.mp (List.getElem_mem hlast)
  obtain ⟨o, ho, hvalue⟩ := List.mem_filterMap.mp hmem
  obtain ⟨raw, hraw⟩ := exists_flattenOperand h ho
  cases o with
  | int v =>
      obtain rfl := Option.some.inj hvalue
      obtain ⟨index, hindex, hlt, _⟩ := Inventory.operandIndex_eq_ok_iff.mp hraw
      have hidx := List.idxOf?_eq_some_iff.mp hindex
      have hsame := (nodup_eraseDups g.ints).getElem_inj_iff.mp hidx.2.1
      omega
  | _ => cases hvalue

/-- There is room for the integer exactly when it is there already or an index is left. -/
theorem length_ints_setOp_le_iff (h : g.flatten s = .ok m) (hr : g.routine? f = some r)
    (hop : r.ops[p]? = some (Op.field dst object field)) (value : Int32) :
    (g.setOp f p (Op.int dst value)).ints.eraseDups.length ≤ int32Limit ↔
      value ∈ m.ints ∨ m.ints.length < int32Limit := by
  obtain ⟨after, hold, hnew⟩ := exists_ints_setOp hr hop value
  rw [hnew, (perm_eraseDups_insert _ after value).length_eq, ← hold, ← ints_of_flatten h, intern]
  split
  · next hmem => exact iff_of_true (length_ints_le_of_flatten h) (.inl hmem)
  · next hmem =>
    rw [List.length_append, List.length_singleton]
    exact ⟨fun hle => .inr hle, fun hor => hor.resolve_left hmem⟩

/-- **The edited program can be flattened if its integers have indices, and nothing changes but the
pool of integers and the methods.** -/
theorem exists_flatten_setOp (h : g.flatten s = .ok m) (hr : g.routine? f = some r)
    (hop : r.ops[p]? = some (Op.field dst object field)) {value : Int32} {ints : List Int32}
    (hints : (g.setOp f p (Op.int dst value)).ints.eraseDups = ints)
    (hfew : ints.length ≤ int32Limit) :
    ∃ methods, (g.setOp f p (Op.int dst value)).flatten s = .ok { m with ints, methods } ∧
      List.Forall₂ (Method.Retargets f p dst value m.ints ints) m.methods methods := by
  obtain ⟨natives, q, fs, stages⟩ := flatten_eq_ok_iff.mp h
  obtain ⟨after, hold, hnew⟩ := exists_ints_setOp hr hop value
  have hpool : q.ints = g.ints.eraseDups := by
    rw [(valuePools_eq_ok_iff.mp stages.pools).2]
    rfl
  have hsub : q.ints ⊆ ints := by
    intro v hv
    rw [hpool, List.mem_eraseDups, hold] at hv
    rw [← hints, List.mem_eraseDups, hnew]
    rcases List.mem_append.mp hv with hv | hv
    · exact List.mem_append_left _ hv
    · exact List.mem_append_right _ (List.mem_cons_of_mem _ hv)
  have hvalue : value ∈ ints := by
    rw [← hints, List.mem_eraseDups, hnew]
    simp
  have hnumbered : (g.setOp f p (Op.int dst value)).functions.zipIdx = g.functions.zipIdx.map
      fun x => (if x.2 = f then
        x.1.mapRoutine fun r => { r with ops := r.ops.set p (Op.int dst value) } else x.1, x.2) :=
    zipIdx_modify _ _ _
  -- the edited method is the one with the field load
  have hload {x : Function × Nat} (hx : x ∈ g.functions.zipIdx) (hn : x.2 = f) :
      x.1.ops[p]? = some (Op.field dst object field) := by
    obtain ⟨type, hf⟩ := exists_function hr
    have hx := List.mem_zipIdx_iff_getElem?.mp hx
    rw [hn, hf] at hx
    rw [← Option.some.inj hx]
    exact hop
  obtain ⟨bs, hbs, hrel⟩ := exists_mapM_related stages.methods fun x hx a ha =>
    Inventory.exists_flattenMethod_setOp hsub hvalue hfew (hload hx) ha
  refine ⟨bs.filterMap id, flatten_eq_ok_iff.mpr ⟨natives, { q with ints }, bs, ?_⟩, ?_⟩
  · have hinventory := inventory_setOp g f p (Op.int dst value)
    refine ⟨?_, stages.globals, ?_, ?_, ?_, ?_, ?_, ?_⟩
    · rw [hinventory]
      exact stages.types
    · rw [hinventory, hnumbered, List.mapM_map]
      rw [← stages.natives]
      congr 1
      funext x
      simp only [Function.comp]
      split
      · exact Inventory.flattenNative_mapRoutine _ _ _
      · rfl
    · rw [hinventory]
      exact stages.constants
    · rw [hinventory, ← hints]
      exact valuePools_setOp hr hop value stages.pools
    · rw [hinventory, hnumbered, List.mapM_map]
      exact hbs
    · rw [setOp, updateRoutine, List.length_modify]
      exact stages.entrypoint
    · rw [stages.module_eq]
      rfl
  · have hmethods : m.methods = fs.filterMap id := congrArg Module.methods stages.module_eq
    have hmints : m.ints = q.ints := congrArg Module.ints stages.module_eq
    rw [hmethods, hmints]
    exact List.rel_filterMap (fun _ _ hab => hab) hrel

end Graph

/-! ## What stays the same -/

/-- Two methods have the same instructions, apart from the one at position `p` of method `f`. -/
def Method.AgreesExcept (f p : Nat) (a b : Method) : Prop :=
  ∀ q, ¬(a.index = f ∧ q = p) → b.instructions[q]? = a.instructions[q]?

theorem Indexes.unique {pool : List Int32} {raw raw' value : Int32} (hpool : pool.Nodup)
    (h : Indexes pool raw value) (h' : Indexes pool raw' value) : raw = raw' := by
  obtain ⟨hlt, _⟩ := List.getElem?_eq_some_iff.mp h.2
  have hnat : raw.toInt.toNat = raw'.toInt.toNat :=
    (List.getElem?_inj hlt hpool).mp (h.2.trans h'.2.symm)
  have hpos := h.1
  have hpos' := h'.1
  rw [Int32.lt_iff_toInt_lt] at hpos hpos'
  refine Int32.toInt_inj.mp ?_
  simp only [Int32.toInt_zero] at hpos hpos'
  omega

/-- An instruction that follows a pool which only grows stays what it is. -/
theorem Instruction.Follows.eq {old new : List Int32} {i j : Instruction} (h : i.Follows old new j)
    (hgrows : old <+: new) (hnew : new.Nodup) : j = i := by
  cases h with
  | other => rfl
  | load was is =>
      obtain ⟨more, rfl⟩ := hgrows
      have hlt := (List.getElem?_eq_some_iff.mp was.2).1
      have hthere : Indexes (old ++ more) _ _ :=
        ⟨was.1, (List.getElem?_append_left hlt).trans was.2⟩
      rw [hthere.unique hnew is]

theorem Method.Retargets.agreesExcept {f p : Nat} {dst : UInt32} {value : Int32}
    {old new : List Int32} {a b : Method} (h : Method.Retargets f p dst value old new a b)
    (hgrows : old <+: new) (hnew : new.Nodup) : Method.AgreesExcept f p a b := by
  intro q hq
  cases hi : a.instructions[q]? with
  | none =>
      rw [List.getElem?_eq_none_iff] at hi ⊢
      rw [h.length_eq]
      exact hi
  | some i =>
      obtain ⟨hlt, _⟩ := List.getElem?_eq_some_iff.mp hi
      rw [← h.length_eq] at hlt
      have hj := List.getElem?_eq_getElem hlt
      rw [hj, (h.others q i _ hq hi hj).eq hgrows hnew]

/-- **What one load for another does to a flattened program.** The edited program can be flattened
unless the integer would be one too many. The integer is in the pool where the code now mentions it
first. Otherwise only loads of integers change, and they load what they did. The pool just grows at
its end and the other instructions stay the same exactly when the integer was mentioned before, or no
other one is mentioned first behind the edit. -/
theorem Graph.flatten_setOp_int {s : Strategy} {g : Graph} {m : Module} (h : g.flatten s = .ok m)
    {f p : Nat} {r : Routine} {dst object : UInt32} {field : Int32} (hr : g.routine? f = some r)
    (hop : r.ops[p]? = some (Op.field dst object field)) (value : Int32) :
    ((∃ m', (g.setOp f p (Op.int dst value)).flatten s = .ok m') ↔
      value ∈ m.ints ∨ m.ints.length < int32Limit) ∧
    ∀ m', (g.setOp f p (Op.int dst value)).flatten s = .ok m' →
      m'.ints = internAt (g.intsBefore f p) m.ints value ∧
      { m' with ints := m.ints, methods := m.methods } = m ∧
      List.Forall₂ (Method.Retargets f p dst value m.ints m'.ints) m.methods m'.methods ∧
      ((m'.ints = intern m.ints value ∧
          List.Forall₂ (Method.AgreesExcept f p) m.methods m'.methods) ↔
        value ∈ g.intsBefore f p ∨
          ∀ v, m.ints[(g.intsBefore f p).eraseDups.length]? = some v → v = value) := by
  refine ⟨?_, fun m' hm' => ?_⟩
  · rw [← length_ints_setOp_le_iff h hr hop value]
    constructor
    · rintro ⟨m', hm'⟩
      rw [← ints_of_flatten hm']
      exact length_ints_le_of_flatten hm'
    · intro hfew
      obtain ⟨methods, hflat, _⟩ := exists_flatten_setOp h hr hop rfl hfew
      exact ⟨_, hflat⟩
  · have hints' := ints_of_flatten hm'
    obtain ⟨methods, hflat, hmethods⟩ :=
      exists_flatten_setOp h hr hop hints'.symm (length_ints_le_of_flatten hm')
    have hm'_eq := Except.ok.inj (hm'.symm.trans hflat)
    have hretargets : List.Forall₂ (Method.Retargets f p dst value m.ints m'.ints) m.methods
        m'.methods := by
      have hmethods_eq : m'.methods = methods := congrArg Module.methods hm'_eq
      rwa [hmethods_eq]
    obtain ⟨after, hold, hnew⟩ := exists_ints_setOp hr hop value
    have hpool : m'.ints = (g.intsBefore f p ++ value :: after).eraseDups := by rw [hints', hnew]
    have hm : m.ints = (g.intsBefore f p ++ after).eraseDups := by rw [ints_of_flatten h, hold]
    have hiff := eraseDups_insert_eq_intern_iff (g.intsBefore f p) after value
    rw [← hpool, ← hm] at hiff
    refine ⟨by rw [hpool, eraseDups_insert, hm], by rw [hm'_eq], hretargets, ?_⟩
    rw [← hiff]
    -- a pool that only grows at its end leaves every index as it is
    refine ⟨And.left, fun hend => ⟨hend, hretargets.imp fun a b hab => hab.agreesExcept ?_ ?_⟩⟩
    · rw [hend]
      exact intern_extends m.ints value
    · rw [hpool]
      exact nodup_eraseDups _

/-- A program with a field load between loads of integers. -/
def loadingGraph : Graph :=
  { version := 5, types := [.atom .i32, .callable .function ⟨[], 0⟩],
    functions := [⟨1, .method { name := none, parent := none, registers := [0, 0],
                                ops := [.int 0 7] }⟩,
                  ⟨1, .method { name := none, parent := none, registers := [0, 0, 0],
                                ops := [.int 1 3, .field 1 0 0, .int 2 5, .int 2 7] }⟩],
    globals := [], constants := [], entrypoint := 1 }

theorem flatten_setOp_int_loadingGraph :
    ∃ m m', loadingGraph.flatten .sequential = .ok m ∧
      (loadingGraph.setOp 1 1 (Op.int 1 0)).flatten .sequential = .ok m' ∧
      m.ints = [7, 3, 5] ∧ m'.ints = [7, 3, 0, 5] ∧
      m'.ints = internAt (loadingGraph.intsBefore 1 1) m.ints 0 ∧
      List.Forall₂ (Method.Retargets 1 1 1 0 m.ints m'.ints) m.methods m'.methods := by
  obtain ⟨m, hm, hints⟩ : ∃ m, loadingGraph.flatten .sequential = .ok m ∧ m.ints = [7, 3, 5] :=
    ⟨_, rfl, rfl⟩
  have hop : [Op.int 1 3, .field 1 0 0, .int 2 5, .int 2 7][1]? = some (Op.field 1 0 0) := rfl
  obtain ⟨hroom, hedited⟩ := Graph.flatten_setOp_int hm (f := 1) (p := 1) rfl hop 0
  obtain ⟨m', hm'⟩ := hroom.mpr (.inr (by rw [hints]; decide))
  obtain ⟨hpool, _, hmethods, _⟩ := hedited m' hm'
  refine ⟨m, m', hm, hm', hints, ?_, hpool, hmethods⟩
  rw [hpool, hints]
  decide

/-- The pool need not grow at its end: in the program above, the integer goes in front of one that
the code mentions later. -/
theorem not_forall_intern_setOp :
    ¬∀ (s : Strategy) (g : Graph) (m : Module) (f p : Nat) (r : Routine) (dst object : UInt32)
        (field : Int32), g.flatten s = .ok m → g.routine? f = some r →
        r.ops[p]? = some (Op.field dst object field) →
        ∃ m', (g.setOp f p (Op.int dst 0)).flatten s = .ok m' ∧ m'.ints = intern m.ints 0 ∧
          List.Forall₂ (Method.AgreesExcept f p) m.methods m'.methods := by
  intro hall
  obtain ⟨m', hm', hints, _⟩ := hall .sequential loadingGraph _ 1 1 _ 1 0 0 rfl rfl rfl
  obtain rfl := Except.ok.inj hm'
  exact absurd hints (by decide)

end HashLink
