import HashLink.Proofs.Graph.Inheritance
import Mathlib.Data.Fintype.Pigeonhole

/-!
# Following superclasses step by step

The search for the fields of an object knows of a circle only that the chain has become longer than
the list of types. Here the chain is followed without a bound: `ancestor?` gives the type any number
of steps above another one. Three things can happen to it. It ends at a type without a superclass, it
runs into something that is no object, where it cannot go on either, or it comes back to a type and
then never ends.

A chain with more members than there are types comes back, by counting, and one that comes back is
longer than any bound. So the search reports a circle exactly when there is one, and never in place of
a type that is missing or of the wrong kind (`Graph.allFields_follows_chain`).
-/

namespace HashLink

variable {types : List GraphType} {child c : Nat}

/-! ## The chain -/

/-- The layout of a type of the program that is an object or a struct. -/
def layout? (types : List GraphType) (c : Nat) :
    Option (ObjectDef String (Option Nat) (Option Nat)) :=
  types[c]?.bind TypeDef.object?

/-- The fields that a type declares itself. -/
def ownFields (types : List GraphType) (c : Nat) : List (Field String) :=
  match layout? types c with
  | some layout => layout.fields
  | none => []

/-- The superclass of a type, which only an object can have. -/
def super? (types : List GraphType) (c : Nat) : Option Nat := (layout? types c).bind (·.super)

/-- The type so many steps above another one, if the chain goes that far. -/
def ancestor? (types : List GraphType) (child : Nat) : Nat → Option Nat
  | 0 => some child
  | k + 1 => (ancestor? types child k).bind (super? types)

/-- Some type is on the chain twice. -/
def ComesBack (types : List GraphType) (child : Nat) : Prop :=
  ∃ j k c, j < k ∧ ancestor? types child j = some c ∧ ancestor? types child k = some c

/-- The first type on the chain with a property. -/
def FirstAbove (types : List GraphType) (child : Nat) (P : Nat → Prop) (c : Nat) : Prop :=
  ∃ k, ancestor? types child k = some c ∧ P c ∧
    ∀ j < k, ∀ c', ancestor? types child j = some c' → ¬P c'

/-- A chain goes on from any of its members as the chain of that member. -/
theorem ancestor?_add (types : List GraphType) (child j k : Nat) :
    ancestor? types child (j + k) = (ancestor? types child j).bind (ancestor? types · k) := by
  induction k with
  | zero => simp [ancestor?]
  | succ k ih =>
      rw [← Nat.add_assoc, ancestor?, ih, Option.bind_assoc]
      rfl

theorem ancestor?_succ_of_super? {up : Nat} (h : super? types child = some up) (k : Nat) :
    ancestor? types child (k + 1) = ancestor? types up k := by
  rw [Nat.add_comm, ancestor?_add]
  simp [ancestor?, h]

theorem ancestor?_succ_of_super?_eq_none (h : super? types child = none) (k : Nat) :
    ancestor? types child (k + 1) = none := by
  rw [Nat.add_comm, ancestor?_add]
  simp [ancestor?, h]

/-- There are no gaps in a chain. -/
theorem isSome_ancestor?_of_le {j k : Nat} (h : (ancestor? types child k).isSome) (hjk : j ≤ k) :
    (ancestor? types child j).isSome := by
  obtain ⟨d, rfl⟩ := Nat.exists_eq_add_of_le hjk
  rw [ancestor?_add] at h
  exact Option.isSome_of_isSome_bind h

/-- Only the last member of a chain is without a superclass. -/
theorem exists_super?_of_lt {j k : Nat} (h : (ancestor? types child k).isSome) (hjk : j < k)
    (hc : ancestor? types child j = some c) : ∃ up, super? types c = some up := by
  have hnext := isSome_ancestor?_of_le h (Nat.succ_le_of_lt hjk)
  rw [ancestor?, hc, Option.bind_some] at hnext
  exact Option.isSome_iff_exists.mp hnext

theorem lt_length_of_super? {up : Nat} (h : super? types c = some up) : c < types.length := by
  obtain ⟨layout, hlayout, _⟩ := Option.bind_eq_some_iff.mp h
  obtain ⟨t, ht, _⟩ := Option.bind_eq_some_iff.mp hlayout
  exact (List.getElem?_eq_some_iff.mp ht).1

/-! ## Circles -/

/-- A chain that comes back never ends. -/
theorem ComesBack.isSome_ancestor? (h : ComesBack types child) (n : Nat) :
    (ancestor? types child n).isSome := by
  obtain ⟨j, k, c, hjk, hj, hk⟩ := h
  have hsome : (ancestor? types child k).isSome := by rw [hk]; rfl
  induction n using Nat.strongRecOn with
  | ind n ih =>
      rcases Nat.lt_or_ge k n with hkn | hnk
      · -- from place `k` on the chain does what it did from place `j` on
        obtain ⟨d, rfl⟩ := Nat.exists_eq_add_of_le (Nat.le_of_lt hkn)
        have hearlier := ih (j + d) (Nat.add_lt_add_right hjk d)
        rw [ancestor?_add, hj] at hearlier
        rw [ancestor?_add, hk]
        exact hearlier
      · exact isSome_ancestor?_of_le hsome hnk

/-- A chain with more members than there are types comes back. -/
theorem comesBack_of_isSome_ancestor? (h : (ancestor? types child (types.length + 1)).isSome) :
    ComesBack types child := by
  -- all members but the last one have a superclass, so they are types of the program
  have hmember (k : Fin (types.length + 1)) :
      ∃ c : Fin types.length, ancestor? types child k = some c.val := by
    obtain ⟨c, hc⟩ := Option.isSome_iff_exists.mp (isSome_ancestor?_of_le h (Nat.le_of_lt k.isLt))
    obtain ⟨up, hup⟩ := exists_super?_of_lt h k.isLt hc
    exact ⟨⟨c, lt_length_of_super? hup⟩, hc⟩
  choose member hmember using hmember
  obtain ⟨j, k, hne, hsame⟩ := Fintype.exists_ne_map_eq_of_card_lt member (by simp)
  have hk : ancestor? types child k = some (member j).val := by rw [hmember k, hsame]
  rcases Nat.lt_or_gt_of_ne (Fin.val_ne_of_ne hne) with hlt | hgt
  · exact ⟨j, k, member j, hlt, hmember j, hk⟩
  · exact ⟨k, j, member j, hgt, hk, hmember j⟩

/-- **A chain comes back exactly when it has more members than there are types.** -/
theorem comesBack_iff :
    ComesBack types child ↔ (ancestor? types child (types.length + 1)).isSome :=
  ⟨fun h => h.isSome_ancestor? (types.length + 1), comesBack_of_isSome_ancestor?⟩

/-! ## Where a chain cannot go on -/

/-- What is wrong with a type that is no object of the program. -/
def objectFault? (types : List GraphType) (c : Nat) : Option Fault :=
  match types[c]? with
  | none => some (.missing .type (asSigned64 c))
  | some t =>
    match t.object? with
    | none => some (.unexpectedKind c t.kind)
    | some _ => none

theorem layout?_of_objectFault? {fault : Fault} (h : objectFault? types c = some fault) :
    layout? types c = none := by
  unfold objectFault? at h
  unfold layout?
  split at h
  · next ht => rw [ht]; rfl
  · next t ht =>
    split at h
    · next ho => rw [ht]; exact ho
    · simp at h

theorem super?_of_layout?_eq_none (h : layout? types c = none) : super? types c = none := by
  rw [super?, h]
  rfl

/-- What is no object is at the end of its chain, wherever it is. -/
theorem le_of_layout?_eq_none {j k : Nat} (hc : ancestor? types child j = some c)
    (h : layout? types c = none) (hk : (ancestor? types child k).isSome) : k ≤ j := by
  refine Nat.le_of_not_lt fun hjk => ?_
  obtain ⟨up, hup⟩ := exists_super?_of_lt hk hjk hc
  rw [super?_of_layout?_eq_none h] at hup
  cases hup

/-- So there is at most one such type on a chain, and it is the first one. -/
theorem firstAbove_iff {P : Nat → Prop} (h : ∀ c, P c → layout? types c = none) :
    FirstAbove types child P c ↔ (∃ k, ancestor? types child k = some c) ∧ P c := by
  constructor
  · intro h
    obtain ⟨k, hc, hP, _⟩ := h
    exact ⟨⟨k, hc⟩, hP⟩
  · intro h
    obtain ⟨⟨k, hc⟩, hP⟩ := h
    refine ⟨k, hc, hP, fun j hjk c' hc' hP' => ?_⟩
    have hsome : (ancestor? types child k).isSome := by rw [hc]; rfl
    exact Nat.not_le_of_lt hjk (le_of_layout?_eq_none hc' (h c' hP') hsome)

theorem objectFault?_eq_missing_iff {pool : Pool} {index : Int} :
    objectFault? types c = some (.missing pool index) ↔
      types.length ≤ c ∧ pool = .type ∧ index = asSigned64 c := by
  unfold objectFault?
  split
  · next ht =>
    have hc := List.getElem?_eq_none_iff.mp ht
    simp only [Option.some.injEq, Fault.missing.injEq, hc, true_and, eq_comm]
  · next t ht =>
    have hc : ¬types.length ≤ c := Nat.not_le_of_lt (List.getElem?_eq_some_iff.mp ht).1
    split <;> simp [hc]

theorem objectFault?_eq_unexpectedKind_iff {id : Nat} {kind : TypeKind} :
    objectFault? types c = some (.unexpectedKind id kind) ↔
      id = c ∧ ∃ t, types[c]? = some t ∧ t.object? = none ∧ t.kind = kind := by
  unfold objectFault?
  split
  · next ht => simp [ht]
  · next t ht =>
    split
    · next ho => simp [ht, ho, eq_comm]
    · next ho => simp [ht, ho]

theorem objectFault?_ne_superclassCycle {id : Nat} :
    objectFault? types c ≠ some (.superclassCycle id) := by
  unfold objectFault?
  split
  · simp
  · split <;> simp

theorem objectFault?_of_layout? {layout : ObjectDef String (Option Nat) (Option Nat)}
    (h : layout? types c = some layout) : objectFault? types c = none := by
  obtain ⟨t, ht, ho⟩ := Option.bind_eq_some_iff.mp h
  simp only [objectFault?, ht, ho]

theorem exists_objectFault?_or_layout? (types : List GraphType) (c : Nat) :
    (∃ fault, objectFault? types c = some fault) ∨ ∃ layout, layout? types c = some layout := by
  unfold objectFault? layout?
  cases ht : types[c]? with
  | none => exact .inl ⟨_, rfl⟩
  | some t =>
      cases ho : t.object? with
      | none => exact .inl ⟨.unexpectedKind c t.kind, by simp only [ho]⟩
      | some layout => exact .inr ⟨layout, ho⟩

/-! ## The search -/

section Search

variable {start rounds : Nat} {fault : Fault}

theorem superclassChain_of_objectFault? (h : objectFault? types child = some fault) :
    superclassChain types start (rounds + 1) child = .error fault := by
  rw [superclassChain]
  unfold objectFault? at h
  cases ht : types[child]? with
  | none =>
      rw [ht] at h
      exact congrArg Except.error (Option.some.inj h)
  | some t =>
      cases ho : t.object? with
      | none =>
          simp only [ht, ho] at h ⊢
          exact congrArg Except.error (Option.some.inj h)
      | some layout => simp [ht, ho] at h

theorem superclassChain_top {layout : ObjectDef String (Option Nat) (Option Nat)}
    (h : layout? types child = some layout) (hsuper : layout.super = none) :
    superclassChain types start (rounds + 1) child = .ok [layout] := by
  obtain ⟨t, ht, ho⟩ := Option.bind_eq_some_iff.mp h
  simp only [superclassChain, ht, ho, hsuper]

theorem superclassChain_under {layout : ObjectDef String (Option Nat) (Option Nat)} {up : Nat}
    (h : layout? types child = some layout) (hsuper : layout.super = some up) :
    superclassChain types start (rounds + 1) child =
      do return layout :: (← superclassChain types start rounds up) := by
  obtain ⟨t, ht, ho⟩ := Option.bind_eq_some_iff.mp h
  simp only [superclassChain, ht, ho, hsuper]

/-- **A search fails at a type that is no object, or because the chain is longer than its bound.** -/
theorem superclassChain_eq_error_iff :
    superclassChain types start rounds child = .error fault ↔
      (∃ k < rounds, ∃ c, ancestor? types child k = some c ∧ objectFault? types c = some fault) ∨
        (ancestor? types child rounds).isSome ∧ fault = .superclassCycle start := by
  induction rounds generalizing child with
  | zero => simp [superclassChain, ancestor?, eq_comm]
  | succ rounds ih =>
      rw [Nat.exists_lt_succ_left]
      simp only [ancestor?.eq_1, Option.some.injEq, exists_eq_left']
      rcases exists_objectFault?_or_layout? types child with ⟨fault', hfault⟩ | ⟨layout, hlayout⟩
      · have hend := ancestor?_succ_of_super?_eq_none (super?_of_layout?_eq_none (layout?_of_objectFault? hfault))
        simp [superclassChain_of_objectFault? hfault, hend, hfault]
      · rw [objectFault?_of_layout? hlayout]
        cases hup : layout.super with
        | none =>
            have hsuper : super? types child = none := by simp [super?, hlayout, hup]
            simp [superclassChain_top hlayout hup, ancestor?_succ_of_super?_eq_none hsuper]
        | some up =>
            have hsuper : super? types child = some up := by simp [super?, hlayout, hup]
            simp only [superclassChain_under hlayout hup, ancestor?_succ_of_super? hsuper,
              reduceCtorEq, false_or, ← ih, bind_eq_error_iff, pure_eq_ok, and_false, exists_false,
              or_false]

/-- **The search for fields fails at a type that is no object, or in a circle.** The bound plays no
part in it any more. -/
theorem allFields_eq_error_iff :
    allFields types child = .error fault ↔
      (∃ k c, ancestor? types child k = some c ∧ objectFault? types c = some fault) ∨
        ComesBack types child ∧ fault = .superclassCycle child := by
  have hsearch : allFields types child = .error fault ↔
      superclassChain types child (types.length + 1) child = .error fault := by
    simp [allFields, bind_eq_error_iff]
  rw [hsearch, superclassChain_eq_error_iff, comesBack_iff]
  refine or_congr_left ⟨fun h => ?_, fun h => ?_⟩
  · obtain ⟨k, _, c, hc, hfault⟩ := h
    exact ⟨k, c, hc, hfault⟩
  · obtain ⟨k, c, hc, hfault⟩ := h
    refine ⟨k, Nat.lt_of_not_le fun hlong => ?_, c, hc, hfault⟩
    -- a chain that long comes back and goes on past the fault
    have hsome : (ancestor? types child k).isSome := by rw [hc]; rfl
    have hback := comesBack_of_isSome_ancestor? (isSome_ancestor?_of_le hsome hlong)
    have := le_of_layout?_eq_none hc (layout?_of_objectFault? hfault) (hback.isSome_ancestor? (k + 1))
    omega

end Search

/-- The layouts of a chain are those of its members. -/
theorem inherits_iff {l : List (ObjectDef String (Option Nat) (Option Nat))} :
    Inherits id types child l ↔
      ∃ chain : List Nat, (∀ k, chain[k]? = ancestor? types child k) ∧
        chain.map (layout? types) = l.map some := by
  constructor
  · intro h
    induction h with
    | @top child t layout type object super =>
        have hlayout : layout? types child = some layout := by rw [layout?, type]; exact object
        have hsuper : super? types child = none := by rw [super?, hlayout]; exact super
        refine ⟨[child], fun k => ?_, by simp [hlayout]⟩
        cases k with
        | zero => rfl
        | succ k => rw [ancestor?_succ_of_super?_eq_none hsuper]; rfl
    | @under child up t layout layouts type object super _ ih =>
        have hlayout : layout? types child = some layout := by rw [layout?, type]; exact object
        have hsuper : super? types child = some up := by rw [super?, hlayout]; exact super
        obtain ⟨chain, hchain, hlayouts⟩ := ih
        refine ⟨child :: chain, fun k => ?_, by simp [hlayout, hlayouts]⟩
        cases k with
        | zero => rfl
        | succ k => rw [ancestor?_succ_of_super? hsuper, ← hchain]; rfl
  · intro h
    obtain ⟨chain, hchain, hlayouts⟩ := h
    induction chain generalizing child l with
    | nil => simpa [ancestor?] using hchain 0
    | cons c chain ih =>
        obtain rfl : c = child := by simpa [ancestor?] using hchain 0
        have hnext (k : Nat) : chain[k]? = ancestor? types c (k + 1) := hchain (k + 1)
        cases l with
        | nil => simp at hlayouts
        | cons layout layouts =>
            obtain ⟨hlayout, hlayouts⟩ := List.cons_eq_cons.mp hlayouts
            obtain ⟨t, ht, ho⟩ := Option.bind_eq_some_iff.mp hlayout
            cases hup : layout.super with
            | none =>
                have hsuper : super? types c = none := by simp [super?, hlayout, hup]
                have hempty : chain = [] := by
                  have hzero := hnext 0
                  rw [ancestor?_succ_of_super?_eq_none hsuper] at hzero
                  simpa using hzero
                obtain rfl : layouts = [] := by simpa [hempty] using hlayouts
                exact .top ht ho hup
            | some up =>
                have hsuper : super? types c = some up := by simp [super?, hlayout, hup]
                refine .under ht ho hup (ih (fun k => ?_) hlayouts)
                rw [hnext, ancestor?_succ_of_super? hsuper]

theorem flatMap_ownFields {chain : List Nat}
    {l : List (ObjectDef String (Option Nat) (Option Nat))}
    (h : chain.map (layout? types) = l.map some) :
    chain.reverse.flatMap (ownFields types) = l.reverse.flatMap (·.fields) := by
  induction chain generalizing l with
  | nil =>
      obtain rfl : l = [] := by simpa using h.symm
      rfl
  | cons c chain ih =>
      cases l with
      | nil => simp at h
      | cons layout layouts =>
          obtain ⟨hlayout, hlayouts⟩ := List.cons_eq_cons.mp h
          have hown : ownFields types c = layout.fields := by rw [ownFields, hlayout]
          simp only [List.reverse_cons, List.flatMap_append, ih hlayouts, List.flatMap_singleton, hown]

theorem exists_layouts {chain : List Nat} (h : ∀ c ∈ chain, (layout? types c).isSome) :
    ∃ l : List (ObjectDef String (Option Nat) (Option Nat)),
      chain.map (layout? types) = l.map some := by
  induction chain with
  | nil => exact ⟨[], rfl⟩
  | cons c chain ih =>
      rw [List.forall_mem_cons] at h
      obtain ⟨layout, hlayout⟩ := Option.isSome_iff_exists.mp h.1
      obtain ⟨l, hl⟩ := ih h.2
      exact ⟨layout :: l, by rw [List.map_cons, hlayout, hl, List.map_cons]⟩

/-! ## Fields along the chain -/

theorem allFields_eq_ok_iff_chain {fields : List (Field String)} :
    allFields types child = .ok fields ↔
      ∃ chain : List Nat, (∀ k, chain[k]? = ancestor? types child k) ∧
        (∀ c ∈ chain, (layout? types c).isSome) ∧
        fields = chain.reverse.flatMap (ownFields types) := by
  rw [allFields_eq_ok_iff]
  constructor
  · intro h
    obtain ⟨l, hl, rfl⟩ := h
    obtain ⟨chain, hchain, hlayouts⟩ := inherits_iff.mp hl
    refine ⟨chain, hchain, fun c hc => ?_, (flatMap_ownFields hlayouts).symm⟩
    have hmem : layout? types c ∈ l.map some := hlayouts ▸ List.mem_map_of_mem hc
    obtain ⟨layout, _, hlayout⟩ := List.mem_map.mp hmem
    rw [← hlayout]
    rfl
  · intro h
    obtain ⟨chain, hchain, hobjects, rfl⟩ := h
    obtain ⟨l, hlayouts⟩ := exists_layouts hobjects
    exact ⟨l, inherits_iff.mpr ⟨chain, hchain, hlayouts⟩, flatMap_ownFields hlayouts⟩

theorem allFields_eq_missing_iff {index : Int} :
    allFields types child = .error (.missing .type index) ↔
      ∃ c, FirstAbove types child (types.length ≤ ·) c ∧ index = asSigned64 c := by
  have hend (c : Nat) (h : types.length ≤ c) : layout? types c = none := by
    rw [layout?, List.getElem?_eq_none h]
    rfl
  simp only [allFields_eq_error_iff, objectFault?_eq_missing_iff, firstAbove_iff hend, reduceCtorEq,
    and_false, or_false, true_and]
  constructor
  · intro h
    obtain ⟨k, c, hc, hmissing, hindex⟩ := h
    exact ⟨c, ⟨⟨k, hc⟩, hmissing⟩, hindex⟩
  · intro h
    obtain ⟨c, ⟨⟨k, hc⟩, hmissing⟩, hindex⟩ := h
    exact ⟨k, c, hc, hmissing, hindex⟩

theorem allFields_eq_unexpectedKind_iff {kind : TypeKind} :
    allFields types child = .error (.unexpectedKind c kind) ↔
      FirstAbove types child (fun c => ∃ t, types[c]? = some t ∧ t.object? = none) c ∧
        types[c]?.map (·.kind) = some kind := by
  have hend (c : Nat) (h : ∃ t, types[c]? = some t ∧ t.object? = none) : layout? types c = none := by
    obtain ⟨t, ht, ho⟩ := h
    rw [layout?, ht]
    exact ho
  simp only [allFields_eq_error_iff, objectFault?_eq_unexpectedKind_iff, firstAbove_iff hend,
    reduceCtorEq, and_false, or_false]
  constructor
  · intro h
    obtain ⟨k, _, hc, rfl, t, ht, ho, rfl⟩ := h
    exact ⟨⟨⟨k, hc⟩, t, ht, ho⟩, by rw [ht]; rfl⟩
  · intro h
    obtain ⟨⟨⟨k, hc⟩, t, ht, ho⟩, hkind⟩ := h
    rw [ht] at hkind
    exact ⟨k, c, hc, rfl, t, ht, ho, Option.some.inj hkind⟩

theorem allFields_eq_superclassCycle_iff {id : Nat} :
    allFields types child = .error (.superclassCycle id) ↔ id = child ∧ ComesBack types child := by
  rw [and_comm]
  simp only [allFields_eq_error_iff, objectFault?_ne_superclassCycle, and_false, exists_false,
    false_or, Fault.superclassCycle.injEq]

theorem fault_of_allFields {fault : Fault} (h : allFields types child = .error fault) :
    (∃ index, fault = .missing .type index) ∨ (∃ c kind, fault = .unexpectedKind c kind) ∨
      fault = .superclassCycle child := by
  rcases allFields_eq_error_iff.mp h with ⟨_, c, _, hfault⟩ | ⟨_, hfault⟩
  · unfold objectFault? at hfault
    split at hfault
    · exact .inl ⟨_, (Option.some.inj hfault).symm⟩
    · split at hfault
      · exact .inr (.inl ⟨c, _, (Option.some.inj hfault).symm⟩)
      · simp at hfault
  · exact .inr (.inr hfault)

theorem lt_length_of_ancestor? (hsup : SupersExist types) (hchild : child < types.length) {k : Nat}
    (hc : ancestor? types child k = some c) : c < types.length := by
  induction k generalizing c with
  | zero =>
      obtain rfl := Option.some.inj hc
      exact hchild
  | succ k ih =>
      obtain ⟨below, _, hsuper⟩ := Option.bind_eq_some_iff.mp hc
      obtain ⟨layout, hlayout, hup⟩ := Option.bind_eq_some_iff.mp hsuper
      obtain ⟨t, ht, ho⟩ := Option.bind_eq_some_iff.mp hlayout
      exact hsup t (List.mem_of_getElem? ht) layout ho c hup

/-- Without a superclass that is missing, a search fails only at a type that is no object or in a
circle. -/
theorem allFields_error {fault : Fault} (hsup : SupersExist types) (hchild : child < types.length)
    (h : allFields types child = .error fault) :
    (∃ id kind, fault = .unexpectedKind id kind) ∨ ∃ id, fault = .superclassCycle id := by
  rcases fault_of_allFields h with ⟨index, rfl⟩ | hkind | hcycle
  · obtain ⟨c, ⟨k, hc, hmissing, _⟩, _⟩ := allFields_eq_missing_iff.mp h
    exact absurd hmissing (Nat.not_le_of_lt (lt_length_of_ancestor? hsup hchild hc))
  · exact .inl hkind
  · exact .inr ⟨child, hcycle⟩

/-- **The fields of an object are those along its chain.** They are found exactly when the chain ends
and has nothing but objects on it, and the fields of the last type on it come first. A type on it that
is missing or of another kind is reported, and a circle exactly when some type is on the chain
twice. -/
theorem Graph.allFields_follows_chain (g : Graph) (child : Nat) :
    (∀ fields, g.allFields child = .ok fields ↔
      ∃ chain : List Nat, (∀ k, chain[k]? = ancestor? g.types child k) ∧
        (∀ c ∈ chain, (layout? g.types c).isSome) ∧
        fields = chain.reverse.flatMap (ownFields g.types)) ∧
    (∀ index, g.allFields child = .error ⟨none, .missing .type index⟩ ↔
      ∃ c, FirstAbove g.types child (g.types.length ≤ ·) c ∧ index = asSigned64 c) ∧
    (∀ c kind, g.allFields child = .error ⟨none, .unexpectedKind c kind⟩ ↔
      FirstAbove g.types child (fun c => ∃ t, g.types[c]? = some t ∧ t.object? = none) c ∧
        g.types[c]?.map (·.kind) = some kind) ∧
    (∀ id, g.allFields child = .error ⟨none, .superclassCycle id⟩ ↔
      id = child ∧ ComesBack g.types child) ∧
    (∀ e, g.allFields child = .error e → e.location = none ∧
      ((∃ index, e.fault = .missing .type index) ∨ (∃ c kind, e.fault = .unexpectedKind c kind) ∨
        e.fault = .superclassCycle child)) := by
  simp only [Graph.allFields, unlocated_eq_ok_iff, unlocated_eq_error_iff, and_true]
  exact ⟨fun _ => allFields_eq_ok_iff_chain, fun _ => allFields_eq_missing_iff,
    fun _ _ => allFields_eq_unexpectedKind_iff, fun _ => allFields_eq_superclassCycle_iff,
    fun _ h => ⟨h.2, fault_of_allFields h.1⟩⟩

-- a chain through every type is found, and closing it makes it a circle
example :
    let layout (super : Option Nat) (field : String) : GraphType :=
      .object .object ⟨"", super, none, [⟨field, 0⟩], [], []⟩
    allFields [layout none "a", layout (some 0) "b", layout (some 1) "c"] 2 =
        .ok [⟨"a", 0⟩, ⟨"b", 0⟩, ⟨"c", 0⟩] ∧
      allFields [layout (some 2) "a", layout (some 0) "b", layout (some 1) "c"] 1 =
        .error (.superclassCycle 1) := ⟨rfl, rfl⟩

end HashLink
