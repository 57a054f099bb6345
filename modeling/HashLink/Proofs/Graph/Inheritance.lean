import HashLink.Graph.Basic
import HashLink.Proofs.Traversal
import Mathlib.Data.Fintype.Card

/-!
# Superclass chains

`Inherits` says what the chain of a type is, for stored and for resolved types alike: the type
itself and, as long as there is a superclass, its chain. A type has at most one chain, and a chain
cannot come back to a type, since that type would then have two chains of different lengths. So a
chain is no longer than the list of types, and the bound on the search for one never cuts a chain
off.

Bindings count fields along a chain; `BindingsFound` is what they need of the types.
-/

namespace HashLink

variable {ν σ γ : Type} {above : σ → Option Nat} {types : List (TypeDef ν σ γ)}

/-- The layouts of a type and of the types above it, in this order; `above` reads a superclass. -/
inductive Inherits (above : σ → Option Nat) (types : List (TypeDef ν σ γ)) :
    Nat → List (ObjectDef ν σ γ) → Prop
  /-- A type without a superclass. -/
  | top {id : Nat} {t : TypeDef ν σ γ} {layout : ObjectDef ν σ γ} (type : types[id]? = some t)
      (object : t.object? = some layout) (super : above layout.super = none) :
      Inherits above types id [layout]
  /-- A type below another one. -/
  | under {id up : Nat} {t : TypeDef ν σ γ} {layout : ObjectDef ν σ γ}
      {layouts : List (ObjectDef ν σ γ)} (type : types[id]? = some t)
      (object : t.object? = some layout) (super : above layout.super = some up)
      (rest : Inherits above types up layouts) : Inherits above types id (layout :: layouts)

namespace Inherits

/-- A type has at most one chain. -/
theorem unique {id : Nat} {l l' : List (ObjectDef ν σ γ)} (h : Inherits above types id l)
    (h' : Inherits above types id l') : l = l' := by
  induction h generalizing l' with
  | top type object super =>
      cases h' with
      | top type' object' => simp_all
      | under type' object' super' => simp_all
  | under type object super _ ih =>
      cases h' with
      | top type' object' super' => simp_all
      | under type' object' super' rest' =>
          obtain rfl := Option.some.inj (type.symm.trans type')
          obtain rfl := Option.some.inj (object.symm.trans object')
          obtain rfl := Option.some.inj (super.symm.trans super')
          rw [ih rest']

/-- What is left of a chain is the chain of a type. -/
theorem drop {id : Nat} {l : List (ObjectDef ν σ γ)} (h : Inherits above types id l) {k : Nat}
    (hk : k < l.length) : ∃ j : Fin types.length, Inherits above types j (l.drop k) := by
  induction h generalizing k with
  | @top id _ _ type object super =>
      obtain rfl : k = 0 := by simpa using hk
      obtain ⟨hid, _⟩ := List.getElem?_eq_some_iff.mp type
      exact ⟨⟨id, hid⟩, .top type object super⟩
  | @under id _ _ _ _ type object super rest ih =>
      cases k with
      | zero =>
          obtain ⟨hid, _⟩ := List.getElem?_eq_some_iff.mp type
          exact ⟨⟨id, hid⟩, .under type object super rest⟩
      | succ k => exact ih (by simpa using hk)

/-- **A chain never comes back to a type.** -/
theorem length_le {id : Nat} {l : List (ObjectDef ν σ γ)} (h : Inherits above types id l) :
    l.length ≤ types.length := by
  -- the type at every place of the chain; its own chain is what is left from there on
  choose owner howner using fun k : Fin l.length => h.drop k.isLt
  have hinj : Function.Injective owner := by
    intro k k' he
    have hdrop := (howner k).unique (he ▸ howner k')
    have hlen := congrArg List.length hdrop
    rw [List.length_drop, List.length_drop] at hlen
    exact Fin.ext (by omega)
  simpa using Fintype.card_le_of_injective owner hinj

end Inherits

/-! ## Descriptors that differ in names only

The chains of a stored type and of what it resolves to are the same as far as superclasses and
numbers of fields go. Nothing distinguishes the two sides, so one direction is enough. -/

section Alike

variable {ν' σ' γ' : Type} {above' : σ' → Option Nat} {types' : List (TypeDef ν' σ' γ')}

/-- Two layouts with the same superclass, as many fields, and functions in the same places. -/
structure ObjectDef.Alike (above : σ → Option Nat) (above' : σ' → Option Nat)
    (o : ObjectDef ν σ γ) (o' : ObjectDef ν' σ' γ') : Prop where
  super : above o.super = above' o'.super
  fields : o.fields.length = o'.fields.length
  protos : o.protos.map (·.function) = o'.protos.map (·.function)
  bindings : o.bindings = o'.bindings

/-- Two descriptors that are both no objects, or objects with layouts that are alike. -/
def TypeDef.Alike (above : σ → Option Nat) (above' : σ' → Option Nat) (t : TypeDef ν σ γ)
    (t' : TypeDef ν' σ' γ') : Prop :=
  Option.Rel (ObjectDef.Alike above above') t.object? t'.object?

theorem TypeDef.Alike.symm {t : TypeDef ν σ γ} {t' : TypeDef ν' σ' γ'}
    (h : t.Alike above above' t') : t'.Alike above' above t := by
  unfold TypeDef.Alike at h ⊢
  generalize t.object? = o, t'.object? = o' at h
  cases h with
  | none => exact .none
  | some h => exact .some ⟨h.super.symm, h.fields.symm, h.protos.symm, h.bindings.symm⟩

theorem TypeDef.Alike.object?_eq_some {t : TypeDef ν σ γ} {t' : TypeDef ν' σ' γ'}
    {layout : ObjectDef ν σ γ} (h : t.Alike above above' t') (ho : t.object? = some layout) :
    ∃ layout', t'.object? = some layout' ∧ layout.Alike above above' layout' := by
  unfold TypeDef.Alike at h
  rw [ho] at h
  generalize t'.object? = o' at h ⊢
  cases h with
  | some h => exact ⟨_, rfl, h⟩

theorem Inherits.alike (h : List.Forall₂ (TypeDef.Alike above above') types types') {id : Nat}
    {l : List (ObjectDef ν σ γ)} (hl : Inherits above types id l) :
    ∃ l', Inherits above' types' id l' ∧ List.Forall₂ (ObjectDef.Alike above above') l l' := by
  induction hl with
  | top type object super =>
      obtain ⟨t', type', ht⟩ := getElem?_of_forall₂ h type
      obtain ⟨layout', object', ho⟩ := ht.object?_eq_some object
      exact ⟨[layout'], .top type' object' (ho.super ▸ super), .cons ho .nil⟩
  | under type object super _ ih =>
      obtain ⟨t', type', ht⟩ := getElem?_of_forall₂ h type
      obtain ⟨layout', object', ho⟩ := ht.object?_eq_some object
      obtain ⟨l', hrest, hall⟩ := ih
      exact ⟨layout' :: l', .under type' object' (ho.super ▸ super) hrest, .cons ho hall⟩

theorem length_flatMap_fields {l : List (ObjectDef ν σ γ)} {l' : List (ObjectDef ν' σ' γ')}
    (h : List.Forall₂ (ObjectDef.Alike above above') l l') :
    (l.flatMap (·.fields)).length = (l'.flatMap (·.fields)).length := by
  induction h with
  | nil => rfl
  | cons ho _ ih =>
      rw [List.flatMap_cons, List.flatMap_cons, List.length_append, List.length_append, ih,
        ho.fields]

/-- Every binding leads to a field: the chain above its type ends, with nothing but objects on it,
and has enough fields. -/
def BindingsFound (above : σ → Option Nat) (types : List (TypeDef ν σ γ)) : Prop :=
  ∀ id t layout, types[id]? = some t → t.object? = some layout → layout.bindings ≠ [] →
    ∃ l, Inherits above types id l ∧ ∀ b ∈ layout.bindings, b.field < (l.flatMap (·.fields)).length

theorem BindingsFound.alike (h : List.Forall₂ (TypeDef.Alike above above') types types')
    (hfound : BindingsFound above types) : BindingsFound above' types' := by
  intro id t' layout' ht' ho' hne
  obtain ⟨t, ht, halike⟩ := getElem?_of_forall₂ h.flip ht'
  obtain ⟨layout, ho, hlayout⟩ := (TypeDef.Alike.symm halike).object?_eq_some ho'
  have hsame : layout'.bindings = layout.bindings := hlayout.bindings
  obtain ⟨l, hl, hfields⟩ := hfound id t layout ht ho (hsame ▸ hne)
  obtain ⟨l', hl', hll'⟩ := hl.alike h
  refine ⟨l', hl', fun b hb => ?_⟩
  rw [← length_flatMap_fields hll']
  exact hfields b (hsame ▸ hb)

theorem bindingsFound_iff (h : List.Forall₂ (TypeDef.Alike above above') types types') :
    BindingsFound above types ↔ BindingsFound above' types' :=
  ⟨fun hfound => hfound.alike h,
    fun hfound => hfound.alike (h.flip.imp fun _ _ ht => TypeDef.Alike.symm ht)⟩

end Alike

/-! ## Searching for the chain -/

theorem superclassChain_eq_ok_iff {types : List GraphType} {start rounds child : Nat}
    {l : List (ObjectDef String (Option Nat) (Option Nat))} :
    superclassChain types start rounds child = .ok l ↔
      Inherits id types child l ∧ l.length ≤ rounds := by
  induction rounds generalizing child l with
  | zero =>
      -- every chain has at least the type itself
      simp only [superclassChain, reduceCtorEq, false_iff]
      rintro ⟨h, hlen⟩
      cases h <;> simp at hlen
  | succ rounds ih =>
      rw [superclassChain]
      constructor
      · intro h
        split at h
        · simp at h
        · next t ht =>
          split at h
          · simp at h
          · next layout ho =>
            split at h
            · next hs =>
              obtain rfl := Except.ok.inj h
              exact ⟨.top ht ho hs, by simp⟩
            · next up hs =>
              obtain ⟨layouts, hrest, hl⟩ := bind_eq_ok_iff.mp h
              obtain rfl := Except.ok.inj hl
              obtain ⟨hchain, hlen⟩ := ih.mp hrest
              exact ⟨.under ht ho hs hchain, by simpa using hlen⟩
      · rintro ⟨h, hlen⟩
        cases h with
        | top type object super =>
            rw [id] at super
            simp only [type, object, super]
        | @under _ up _ layout layouts type object super rest =>
            have hrest := ih.mpr ⟨rest, by simpa using hlen⟩
            rw [id] at super
            simp only [type, object, super, hrest, ok_bind, pure_eq_ok]

/-- **The search finds a chain whenever there is one.** -/
theorem allFields_eq_ok_iff {types : List GraphType} {child : Nat} {fields : List (Field String)} :
    allFields types child = .ok fields ↔
      ∃ l, Inherits id types child l ∧ fields = l.reverse.flatMap (·.fields) := by
  unfold allFields
  simp only [bind_eq_ok_iff, superclassChain_eq_ok_iff, pure_eq_ok, Except.ok.injEq]
  constructor
  · rintro ⟨l, ⟨h, _⟩, rfl⟩
    exact ⟨l, h, rfl⟩
  · rintro ⟨l, h, rfl⟩
    exact ⟨l, ⟨h, Nat.le_succ_of_le h.length_le⟩, rfl⟩

/-- Every superclass is a type of the program. -/
def SupersExist (types : List GraphType) : Prop :=
  ∀ t ∈ types, ∀ layout, t.object? = some layout → ∀ up, layout.super = some up → up < types.length

end HashLink
