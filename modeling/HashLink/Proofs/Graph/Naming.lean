import HashLink.Graph.Resolve
import HashLink.Proofs.Graph.Ancestors

/-!
# Names of methods

Naming touches the name and the parent of methods and nothing else (`Function.anonymous` is a
function up to that), and it fails in one of two ways: a binding names a field that its type does
not have, or a method that has a name already.

When it succeeds can be said without running it. Dispatch tables never fail. Bindings have to lead
to a field (`BindingsFound`), and to a method at most once and never to one in a dispatch table: as
far as that is concerned all that matters of a function is whether it has a name.
-/

namespace HashLink

/-! ## What naming leaves alone -/

/-- A function without the name that a type gives it. -/
def Function.anonymous (f : Function) : Function :=
  f.mapRoutine fun r => { r with name := none, parent := none }

@[simp] theorem Function.anonymous_named (f : Function) (name : Option String)
    (parent : Option Nat) :
    (f.mapRoutine fun r => { r with name, parent }).anonymous = f.anonymous := by
  obtain ⟨type, body⟩ := f
  cases body <;> rfl

theorem Function.anonymous_withOps (f : Function) (ops : List Op) :
    (f.withOps ops).anonymous = f.anonymous.withOps ops := by
  obtain ⟨type, body⟩ := f
  cases body <;> rfl

theorem map_anonymous_nameByProto (functions : List Function) (n : Naming) :
    (nameByProto functions n).map Function.anonymous = functions.map Function.anonymous := by
  refine List.ext_getElem? fun i => ?_
  rw [nameByProto, List.getElem?_map, List.getElem?_map, List.getElem?_modify,
    Option.map_eq_map, Option.map_map]
  refine congrArg (Option.map · functions[i]?) (funext fun f => ?_)
  dsimp only [Function.comp]
  split
  · exact Function.anonymous_named f (some n.name) (some n.owner)
  · rfl

theorem map_anonymous_foldl (namings : List Naming) (functions : List Function) :
    (namings.foldl nameByProto functions).map Function.anonymous =
      functions.map Function.anonymous := by
  induction namings generalizing functions with
  | nil => rfl
  | cons n namings ih => rw [List.foldl_cons, ih, map_anonymous_nameByProto]

theorem nameByBinding_eq_ok {functions functions' : List Function} {n : Naming}
    (h : nameByBinding functions n = .ok functions') : functions' = nameByProto functions n := by
  unfold nameByBinding at h
  split at h
  · simp at h
  · exact (Except.ok.inj h).symm

theorem foldlM_nameByBinding_eq_ok {namings : List Naming} {functions functions' : List Function}
    (h : namings.foldlM nameByBinding functions = .ok functions') :
    functions' = namings.foldl nameByProto functions := by
  induction namings generalizing functions with
  | nil => exact (Except.ok.inj h).symm
  | cons n namings ih =>
      rw [List.foldlM_cons, bind_eq_ok_iff] at h
      obtain ⟨next, hnext, hrest⟩ := h
      rw [ih hrest, nameByBinding_eq_ok hnext, List.foldl_cons]

/-- **Naming changes nothing but the names and parents of methods.** -/
theorem map_anonymous_nameMethods {types : List GraphType} {functions named : List Function}
    (h : nameMethods types functions = .ok named) :
    named.map Function.anonymous = functions.map Function.anonymous := by
  obtain ⟨bindings, _, hfold⟩ := bind_eq_ok_iff.mp h
  rw [foldlM_nameByBinding_eq_ok hfold, map_anonymous_foldl, map_anonymous_foldl]

/-! ## When naming succeeds -/

section Targets

variable {ν σ γ ν' σ' γ' : Type} {above : σ → Option Nat} {above' : σ' → Option Nat}

/-- The functions in the dispatch table of a descriptor. -/
def TypeDef.protoTargets (t : TypeDef ν σ γ) : List Nat :=
  match t.object? with
  | some layout => layout.protos.map (·.function)
  | none => []

/-- The functions in the bindings of a descriptor. -/
def TypeDef.bindingTargets (t : TypeDef ν σ γ) : List Nat :=
  match t.object? with
  | some layout => layout.bindings.map (·.function)
  | none => []

/-- A function is in at most one binding, and in none if it is in a dispatch table. -/
def NamedOnce (types : List (TypeDef ν σ γ)) (function : Nat) : Prop :=
  (types.flatMap TypeDef.bindingTargets).count function ≤ 1 ∧
    (function ∈ types.flatMap TypeDef.bindingTargets →
      function ∉ types.flatMap TypeDef.protoTargets)

instance (types : List (TypeDef ν σ γ)) (function : Nat) : Decidable (NamedOnce types function) :=
  inferInstanceAs (Decidable (_ ∧ (_ → _)))

theorem NamedOnce.alike {types : List (TypeDef ν σ γ)} {types' : List (TypeDef ν' σ' γ')}
    (h : List.Forall₂ (TypeDef.Alike above above') types types') (function : Nat) :
    NamedOnce types function ↔ NamedOnce types' function := by
  have htargets : types.flatMap TypeDef.bindingTargets = types'.flatMap TypeDef.bindingTargets ∧
      types.flatMap TypeDef.protoTargets = types'.flatMap TypeDef.protoTargets := by
    induction h with
    | nil => exact ⟨rfl, rfl⟩
    | @cons t t' _ _ halike _ ih =>
        have hone : t.bindingTargets = t'.bindingTargets ∧ t.protoTargets = t'.protoTargets := by
          unfold TypeDef.Alike at halike
          unfold TypeDef.bindingTargets TypeDef.protoTargets
          generalize t.object? = o, t'.object? = o' at halike
          cases halike with
          | none => exact ⟨rfl, rfl⟩
          | some ho => exact ⟨congrArg (List.map (·.function)) ho.bindings, ho.protos⟩
        simp only [List.flatMap_cons, hone, ih, and_self]
  rw [NamedOnce, htargets.1, htargets.2, NamedOnce]

end Targets

/-- Whether a method has a name. There is no answer for a native, or where there is no function. -/
def named? (functions : List Function) (i : Nat) : Option Bool :=
  (functions[i]?.bind (·.routine?)).map (·.name.isSome)

theorem named?_nameByProto (functions : List Function) (n : Naming) (i : Nat) :
    named? (nameByProto functions n) i =
      if n.function = i then (named? functions i).map fun _ => true else named? functions i := by
  unfold named? nameByProto
  rw [List.getElem?_modify]
  by_cases h : n.function = i
  · simp only [h, if_true]
    cases functions[i]? with
    | none => rfl
    | some f =>
        obtain ⟨type, body⟩ := f
        cases body <;> rfl
  · simp [h]

/-- A method has a name after the dispatch tables if it had one before or is in one of them. -/
theorem named?_foldl (namings : List Naming) (functions : List Function) (i : Nat) :
    named? (namings.foldl nameByProto functions) i =
      (named? functions i).map (· || decide (i ∈ namings.map (·.function))) := by
  induction namings generalizing functions with
  | nil => simp
  | cons n namings ih =>
      rw [List.foldl_cons, ih, named?_nameByProto]
      by_cases h : n.function = i
      · simp [h, Function.comp_def]
      · have hne : ¬i = n.function := fun he => h he.symm
        simp [h, hne]

theorem exists_nameByBinding_iff {functions : List Function} {n : Naming} :
    (∃ functions', nameByBinding functions n = .ok functions') ↔
      named? functions n.function ≠ some true := by
  unfold nameByBinding named?
  split
  · next h => simp [h]
  · next hnot =>
    refine ⟨fun _ h => ?_, fun _ => ⟨_, rfl⟩⟩
    obtain ⟨r, hr, hname⟩ := Option.map_eq_some_iff.mp h
    obtain ⟨name, parent, registers, ops⟩ := r
    obtain ⟨text, rfl⟩ := Option.isSome_iff_exists.mp hname
    exact hnot text parent registers ops hr

/-- One step: the first binding has to find its method without a name, and leaves it with one. -/
theorem exists_foldlM_nameByBinding_cons {n : Naming} {namings : List Naming}
    {functions : List Function} :
    (∃ functions', (n :: namings).foldlM nameByBinding functions = .ok functions') ↔
      named? functions n.function ≠ some true ∧
        ∃ functions', namings.foldlM nameByBinding (nameByProto functions n) = .ok functions' := by
  rw [← exists_nameByBinding_iff]
  simp only [List.foldlM_cons, bind_eq_ok_iff]
  constructor
  · intro h
    obtain ⟨functions', next, hnext, hrest⟩ := h
    exact ⟨⟨next, hnext⟩, functions', nameByBinding_eq_ok hnext ▸ hrest⟩
  · intro h
    obtain ⟨⟨next, hnext⟩, functions', hrest⟩ := h
    exact ⟨functions', next, hnext, nameByBinding_eq_ok hnext ▸ hrest⟩

/-- **Bindings give names one after another exactly when no method would get a second name.** -/
theorem exists_foldlM_nameByBinding_iff {namings : List Naming} {functions : List Function} :
    (∃ functions', namings.foldlM nameByBinding functions = .ok functions') ↔
      ∀ i b, named? functions i = some b →
        (namings.map (·.function)).count i + b.toNat ≤ 1 := by
  -- a name that a method has already counts like a binding that comes first
  induction namings generalizing functions with
  | nil =>
      refine ⟨fun _ i b _ => ?_, fun _ => ⟨functions, rfl⟩⟩
      simpa using Bool.toNat_le b
  | cons n namings ih =>
      rw [exists_foldlM_nameByBinding_cons, ih]
      constructor
      · intro h i b hb
        have hrest := h.2 i
        rw [named?_nameByProto, hb] at hrest
        rw [List.map_cons, List.count_cons]
        by_cases hi : n.function = i
        · have hfalse : b = false := by
            cases b with
            | false => rfl
            | true => exact absurd (hi ▸ hb) h.1
          simp only [hi, if_true, Option.map_some, Option.some.injEq] at hrest
          have := hrest true rfl
          simp_all
        · simp only [hi, if_false] at hrest
          simpa [hi] using hrest b rfl
      · intro h
        refine ⟨fun htrue => ?_, fun i b hb => ?_⟩
        · have := h n.function true htrue
          simp at this
        · rw [named?_nameByProto] at hb
          by_cases hi : n.function = i
          · simp only [hi, if_true, Option.map_eq_some_iff] at hb
            obtain ⟨b', hb', rfl⟩ := hb
            have := h i b' hb'
            rw [List.map_cons, List.count_cons] at this
            simp only [hi, beq_self_eq_true, if_true] at this
            simp only [Bool.toNat_true]
            omega
          · simp only [hi, if_false] at hb
            have := h i b hb
            rw [List.map_cons, List.count_cons_of_ne hi] at this
            exact this

/-! ### The names that types give -/

theorem flatMap_zipIdx_fst {α β : Type} (f : α → List β) (xs : List α) (k : Nat) :
    ((xs.zipIdx k).flatMap fun x => f x.1) = xs.flatMap f := by
  conv_rhs => rw [← List.zipIdx_map_fst k xs, List.flatMap_map]

theorem map_function_protoNamings (types : List GraphType) :
    (protoNamings types).map (·.function) = types.flatMap TypeDef.protoTargets := by
  rw [protoNamings, List.map_flatMap, ← flatMap_zipIdx_fst TypeDef.protoTargets types 0]
  refine congrArg (List.flatMap · types.zipIdx) (funext fun x => ?_)
  obtain ⟨t, owner⟩ := x
  unfold TypeDef.protoTargets
  dsimp only
  cases t.object? with
  | none => rfl
  | some layout => exact List.map_map

theorem bindingNaming_eq_ok_iff {owner : Nat} {fields : List (Field String)} {b : Binding}
    {n : Naming} :
    bindingNaming owner fields b = .ok n ↔
      ∃ field, fields[b.field]? = some field ∧ n = ⟨b.function, field.name, owner⟩ := by
  unfold bindingNaming
  split
  · next field h => simp [h, eq_comm]
  · next h => simp [h]

theorem map_function_of_typeBindingNamings {types : List GraphType} {owner : Nat} {t : GraphType}
    {namings : List Naming} (h : typeBindingNamings types owner t = .ok namings) :
    namings.map (·.function) = t.bindingTargets := by
  unfold typeBindingNamings at h
  unfold TypeDef.bindingTargets
  split at h
  · next layout ho =>
    rw [ho]
    split at h
    · next hempty =>
      obtain rfl := Except.ok.inj h
      dsimp only
      rw [List.isEmpty_iff.mp hempty]
      rfl
    · obtain ⟨fields, _, hnamings⟩ := bind_eq_ok_iff.mp h
      refine map_eq_of_mapM hnamings fun b n hn => ?_
      obtain ⟨field, _, rfl⟩ := bindingNaming_eq_ok_iff.mp hn
      rfl
  · next ho =>
    obtain rfl := Except.ok.inj h
    rw [ho]
    rfl

theorem exists_typeBindingNamings_iff {types : List GraphType} {owner : Nat} {t : GraphType} :
    (∃ namings, typeBindingNamings types owner t = .ok namings) ↔
      ∀ layout, t.object? = some layout → layout.bindings ≠ [] →
        ∃ l, Inherits id types owner l ∧
          ∀ b ∈ layout.bindings, b.field < (l.flatMap (·.fields)).length := by
  unfold typeBindingNamings
  cases ho : t.object? with
  | none => simp
  | some layout =>
      by_cases hempty : layout.bindings = []
      · simp [hempty]
      · -- inherited fields come first, which does not change how many there are
        have hlength (l : List (ObjectDef String (Option Nat) (Option Nat))) :
            (l.reverse.flatMap (·.fields)).length = (l.flatMap (·.fields)).length :=
          ((List.reverse_perm l).flatMap_right _).length_eq
        have hone (fields : List (Field String)) (b : Binding) :
            (∃ n, bindingNaming owner fields b = .ok n) ↔ b.field < fields.length := by
          simp only [bindingNaming_eq_ok_iff]
          constructor
          · intro h
            obtain ⟨_, field, hfield, _⟩ := h
            exact (List.getElem?_eq_some_iff.mp hfield).1
          · intro h
            exact ⟨_, _, List.getElem?_eq_getElem h, rfl⟩
        simp only [List.isEmpty_iff, hempty, if_false, bind_eq_ok_iff, allFields_eq_ok_iff,
          Option.some.injEq, forall_eq', ne_eq, not_false_eq_true, true_implies]
        constructor
        · intro h
          obtain ⟨namings, fields, ⟨l, hl, rfl⟩, hnamings⟩ := h
          refine ⟨l, hl, fun b hb => ?_⟩
          rw [← hlength, ← hone]
          exact exists_mapM_eq_ok_iff.mp ⟨namings, hnamings⟩ b hb
        · intro h
          obtain ⟨l, hl, hfields⟩ := h
          have hall : ∀ b ∈ layout.bindings,
              ∃ n, bindingNaming owner (l.reverse.flatMap (·.fields)) b = .ok n := by
            intro b hb
            rw [hone, hlength]
            exact hfields b hb
          obtain ⟨namings, hnamings⟩ := exists_mapM_eq_ok_iff.mpr hall
          exact ⟨namings, _, ⟨l, hl, rfl⟩, hnamings⟩

/-- **Bindings name fields exactly when they are found along the chains of their types.** -/
theorem exists_bindingNamings_iff {types : List GraphType} :
    (∃ namings, bindingNamings types = .ok namings) ↔ BindingsFound id types := by
  simp only [bindingNamings, exists_bind_eq_ok_iff, pure_eq_ok, Except.ok.injEq, exists_eq',
    and_true, exists_mapM_eq_ok_iff, located_eq_ok_iff, exists_typeBindingNamings_iff]
  constructor
  · intro h owner t layout ht
    exact h (t, owner) (List.mem_zipIdx_iff_getElem?.mpr ht) layout
  · intro h x hx layout
    exact h x.2 x.1 layout (List.mem_zipIdx_iff_getElem?.mp hx)

theorem map_function_of_bindingNamings {types : List GraphType} {namings : List Naming}
    (h : bindingNamings types = .ok namings) :
    namings.map (·.function) = types.flatMap TypeDef.bindingTargets := by
  obtain ⟨each, heach, hflat⟩ := bind_eq_ok_iff.mp h
  obtain rfl := Except.ok.inj hflat
  have hsame := map_eq_of_mapM (k := fun x => x.1.bindingTargets) heach fun x ns hns =>
    map_function_of_typeBindingNamings (located_eq_ok_iff.mp hns)
  rw [List.map_flatten, hsame, ← flatMap_zipIdx_fst TypeDef.bindingTargets types 0]
  rfl

/-- **Methods without names can be named exactly when bindings lead to fields and no method gets two
names from them.** -/
theorem exists_nameMethods_iff {types : List GraphType} {functions : List Function}
    (hnew : ∀ i, named? functions i ≠ some true) :
    (∃ named, nameMethods types functions = .ok named) ↔
      BindingsFound id types ∧ ∀ i, named? functions i = some false → NamedOnce types i := by
  rw [← exists_bindingNamings_iff]
  simp only [nameMethods, bind_eq_ok_iff]
  have hfold (namings : List Naming) (h : bindingNamings types = .ok namings) :
      (∃ named, namings.foldlM nameByBinding ((protoNamings types).foldl nameByProto functions) =
          .ok named) ↔ ∀ i, named? functions i = some false → NamedOnce types i := by
    rw [exists_foldlM_nameByBinding_iff, map_function_of_bindingNamings h]
    refine forall_congr' fun i => ?_
    -- once the dispatch tables are through, a method has a name if it is in one of them
    have hpos : i ∈ types.flatMap TypeDef.bindingTargets ↔
        0 < (types.flatMap TypeDef.bindingTargets).count i := List.count_pos_iff.symm
    rw [named?_foldl, map_function_protoNamings, NamedOnce, hpos]
    cases hi : named? functions i with
    | none => simp
    | some b =>
        cases b with
        | true => exact absurd hi (hnew i)
        | false =>
            by_cases hp : i ∈ types.flatMap TypeDef.protoTargets
            · simp only [hp, decide_true, Bool.or_true, Option.map_some, Option.some.injEq,
                forall_eq', Bool.toNat_true, true_implies, not_true_eq_false, imp_false]
              omega
            · simp [hp]
  constructor
  · intro h
    obtain ⟨named, namings, hnamings, hnamed⟩ := h
    exact ⟨⟨namings, hnamings⟩, (hfold namings hnamings).mp ⟨named, hnamed⟩⟩
  · intro h
    obtain ⟨⟨namings, hnamings⟩, honce⟩ := h
    obtain ⟨named, hnamed⟩ := (hfold namings hnamings).mpr honce
    exact ⟨named, namings, hnamings, hnamed⟩

/-! ## How naming fails -/

/-- An error of a binding: a method with two names, or a field that is not found. -/
def GraphError.IsBinding : GraphError → Prop
  | ⟨none, .multipleBindings _⟩ => True
  | ⟨some (.type _), .missing .field _⟩ => True
  | ⟨some (.type _), .unexpectedKind _ _⟩ => True
  | ⟨some (.type _), .superclassCycle _⟩ => True
  | _ => False

theorem typeBindingNamings_error {types : List GraphType} {owner : Nat} {t : GraphType}
    {fault : Fault} (hsup : SupersExist types) (howner : owner < types.length)
    (h : typeBindingNamings types owner t = .error fault) :
    GraphError.IsBinding ⟨some (.type owner), fault⟩ := by
  unfold typeBindingNamings at h
  split at h
  · next layout _ =>
    split at h
    · simp at h
    · rcases bind_eq_error_iff.mp h with h | ⟨fields, _, h⟩
      · rcases allFields_error hsup howner h with ⟨id, kind, rfl⟩ | ⟨id, rfl⟩ <;> trivial
      · obtain ⟨b, _, hb⟩ := exists_of_mapM_eq_error h
        unfold bindingNaming at hb
        split at hb
        · simp at hb
        · obtain rfl := Except.error.inj hb
          trivial
  · simp at h

theorem bindingNamings_error {types : List GraphType} {e : GraphError} (hsup : SupersExist types)
    (h : bindingNamings types = .error e) : e.IsBinding := by
  rcases bind_eq_error_iff.mp h with h | ⟨_, _, h⟩
  · obtain ⟨⟨t, owner⟩, hmem, he⟩ := exists_of_mapM_eq_error h
    obtain ⟨hfault, hplace⟩ := located_eq_error_iff.mp he
    have howner := (List.getElem?_eq_some_iff.mp (List.mem_zipIdx_iff_getElem?.mp hmem)).1
    obtain ⟨place, fault⟩ := e
    obtain rfl : place = some (.type owner) := hplace
    exact typeBindingNamings_error hsup howner hfault
  · simp at h

theorem foldlM_nameByBinding_error {namings : List Naming} {functions : List Function}
    {e : GraphError} (h : namings.foldlM nameByBinding functions = .error e) : e.IsBinding := by
  induction namings generalizing functions with
  | nil => simp at h
  | cons n namings ih =>
      rw [List.foldlM_cons] at h
      rcases bind_eq_error_iff.mp h with h | ⟨next, _, h⟩
      · unfold nameByBinding at h
        split at h
        · obtain rfl := Except.error.inj h
          trivial
        · simp at h
      · exact ih h

/-- **Naming fails only at a binding.** -/
theorem nameMethods_error {types : List GraphType} {functions : List Function} {e : GraphError}
    (hsup : SupersExist types) (h : nameMethods types functions = .error e) : e.IsBinding := by
  rcases bind_eq_error_iff.mp h with h | ⟨_, _, h⟩
  · exact bindingNamings_error hsup h
  · exact foldlM_nameByBinding_error h

end HashLink
