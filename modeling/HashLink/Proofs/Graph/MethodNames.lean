import HashLink.Proofs.Graph.Resolved
import Mathlib.Data.List.Flatten
import Mathlib.Data.List.NodupEquivFin

/-!
# The name that a method ends up with

`Graph.Named` says who names a method, without running the two passes that do it: the last entry for
it in a dispatch table, or else the only binding to it, or else nobody. Every method of a resolved
program has exactly this name (`Module.resolve_names_methods`).

Both passes give one name after another, and the last one for a method is the one that it keeps. What
is left to show is that the last name in the list of all names belongs to the last entry when entries
are ordered by the number of their type and then by their place in it. So the first section is about
the places that the entries of lists have when the lists are joined.
-/

namespace HashLink

/-! ## Entries of joined lists -/

section Rows

variable {α : Type} {rows : List (List α)} {row row' : List α} {i j i' j' : Nat} {a a' : α}

/-- Where entry `j` of row `i` is when the rows are joined. -/
def rowOffset (rows : List (List α)) (i j : Nat) : Nat := (rows.take i).flatten.length + j

theorem getElem?_rowOffset (hrow : rows[i]? = some row) (ha : row[j]? = some a) :
    rows.flatten[rowOffset rows i j]? = some a := by
  obtain ⟨hi, rfl⟩ := List.getElem?_eq_some_iff.mp hrow
  obtain ⟨hj, _⟩ := List.getElem?_eq_some_iff.mp ha
  have hsplit : rows.flatten = (rows.take i).flatten ++ (rows[i] ++ (rows.drop (i + 1)).flatten) := by
    rw [← List.flatten_cons, List.getElem_cons_drop, ← List.flatten_append, List.take_append_drop]
  rw [hsplit, rowOffset, List.getElem?_append_right (Nat.le_add_right _ _), Nat.add_sub_cancel_left,
    List.getElem?_append_left hj, ha]

/-- Entries of a later row come later. -/
theorem rowOffset_lt (hrow : rows[i]? = some row) (ha : row[j]? = some a) (hii' : i < i') :
    rowOffset rows i j < rowOffset rows i' j' := by
  obtain ⟨hj, _⟩ := List.getElem?_eq_some_iff.mp ha
  have hpart : (rows.take (i + 1)).flatten.length ≤ (rows.take i').flatten.length :=
    (List.take_sublist_take_left hii').flatten.length_le
  have htake : rows.take (i + 1) = rows.take i ++ [row] := by
    rw [List.take_add_one, hrow]
    rfl
  rw [htake, List.flatten_append, List.length_append] at hpart
  simp only [List.flatten_singleton] at hpart
  unfold rowOffset
  omega

theorem exists_rowOffset {k : Nat} (h : rows.flatten[k]? = some a) :
    ∃ i row j, rows[i]? = some row ∧ row[j]? = some a ∧ k = rowOffset rows i j := by
  induction rows generalizing k with
  | nil => simp at h
  | cons first rows ih =>
      rw [List.flatten_cons] at h
      rcases Nat.lt_or_ge k first.length with hk | hk
      · rw [List.getElem?_append_left hk] at h
        exact ⟨0, first, k, rfl, h, by simp [rowOffset]⟩
      · rw [List.getElem?_append_right hk] at h
        obtain ⟨i, row, j, hrow, ha, hoffset⟩ := ih h
        refine ⟨i + 1, row, j, hrow, ha, ?_⟩
        simp only [rowOffset, List.take_succ_cons, List.flatten_cons, List.length_append] at hoffset ⊢
        omega

/-- **The order of joined rows is the order by row and then by place in the row.** -/
theorem le_of_rowOffset_le (hrow : rows[i]? = some row) (ha : row[j]? = some a)
    (h : rowOffset rows i' j' ≤ rowOffset rows i j) : i' < i ∨ i' = i ∧ j' ≤ j := by
  rcases Nat.lt_trichotomy i' i with hlt | rfl | hgt
  · exact .inl hlt
  · exact .inr ⟨rfl, Nat.le_of_add_le_add_left h⟩
  · exact absurd (rowOffset_lt hrow ha hgt) (Nat.not_lt_of_le h)

/-- The last entry of a list with a property. -/
theorem exists_last_of_getLast?_filter {xs : List α} {p : α → Bool}
    (h : (xs.filter p).getLast? = some a) :
    ∃ k : Nat, xs[k]? = some a ∧ p a ∧ ∀ (k' : Nat) (a' : α), xs[k']? = some a' → p a' → k' ≤ k := by
  induction xs using List.reverseRecOn with
  | nil => simp at h
  | append_singleton xs x ih =>
      have hlt {k' : Nat} {a' : α} (hk' : (xs ++ [x])[k']? = some a') : k' < xs.length + 1 := by
        simpa using (List.getElem?_eq_some_iff.mp hk').1
      by_cases hx : p x
      · obtain rfl : x = a := by simpa [hx] using h
        exact ⟨xs.length, by simp, hx, fun k' a' hk' _ => Nat.le_of_lt_succ (hlt hk')⟩
      · obtain ⟨k, hk, hp, hlast⟩ := ih (by simpa [hx] using h)
        refine ⟨k, ?_, hp, fun k' a' hk' hp' => ?_⟩
        · rw [List.getElem?_append_left (List.getElem?_eq_some_iff.mp hk).1, hk]
        · rcases Nat.lt_succ_iff_lt_or_eq.mp (hlt hk') with hlt' | rfl
          · rw [List.getElem?_append_left hlt'] at hk'
            exact hlast k' a' hk' hp'
          · simp_all

/-- The last entry with a property in joined rows is the one in the last row that has one. -/
theorem exists_last_row {p : α → Bool} (h : (rows.flatten.filter p).getLast? = some a) :
    ∃ (i : Nat) (row : List α) (j : Nat), rows[i]? = some row ∧ row[j]? = some a ∧ p a ∧
      ∀ (i' : Nat) (row' : List α) (j' : Nat) (a' : α), rows[i']? = some row' →
        row'[j']? = some a' → p a' → i' < i ∨ i' = i ∧ j' ≤ j := by
  obtain ⟨k, hk, hp, hlast⟩ := exists_last_of_getLast?_filter h
  obtain ⟨i, row, j, hrow, ha, rfl⟩ := exists_rowOffset hk
  refine ⟨i, row, j, hrow, ha, hp, fun i' row' j' a' hrow' ha' hp' => ?_⟩
  exact le_of_rowOffset_le hrow ha (hlast _ a' (getElem?_rowOffset hrow' ha') hp')

/-- An entry that joined rows have only once has only one place. -/
theorem row_unique_of_count_le_one [DecidableEq α] (hcount : rows.flatten.count a ≤ 1)
    (hrow : rows[i]? = some row) (ha : row[j]? = some a) (hrow' : rows[i']? = some row')
    (ha' : row'[j']? = some a) : i' = i ∧ j' = j := by
  have hlast {k k' : Nat} (hk : rows.flatten[k]? = some a) (hk' : rows.flatten[k']? = some a) :
      k ≤ k' := by
    refine Nat.le_of_not_lt fun hlt => ?_
    obtain ⟨hl, hk⟩ := List.getElem?_eq_some_iff.mp hk
    obtain ⟨hl', hk'⟩ := List.getElem?_eq_some_iff.mp hk'
    have htwice : List.Duplicate a rows.flatten :=
      List.duplicate_iff_exists_distinct_get.mpr ⟨⟨k', hl'⟩, ⟨k, hl⟩, hlt, hk'.symm, hk.symm⟩
    have := List.duplicate_iff_two_le_count.mp htwice
    omega
  have hplace := getElem?_rowOffset hrow ha
  have hplace' := getElem?_rowOffset hrow' ha'
  have h := le_of_rowOffset_le hrow ha (hlast hplace' hplace)
  have h' := le_of_rowOffset_le hrow' ha' (hlast hplace hplace')
  omega

end Rows

/-! ## The last name counts -/

/-- The last name for a function. -/
def lastNaming? (namings : List Naming) (f : Nat) : Option Naming :=
  (namings.filter (·.function == f)).getLast?

theorem lastNaming?_append (namings more : List Naming) (f : Nat) :
    lastNaming? (namings ++ more) f = (lastNaming? more f).or (lastNaming? namings f) := by
  rw [lastNaming?, List.filter_append, List.getLast?_append]
  rfl

theorem lastNaming?_eq_none_iff {namings : List Naming} {f : Nat} :
    lastNaming? namings f = none ↔ f ∉ namings.map (·.function) := by
  simp [lastNaming?]

theorem mem_of_lastNaming? {namings : List Naming} {f : Nat} {n : Naming}
    (h : lastNaming? namings f = some n) : n ∈ namings ∧ n.function = f := by
  have hmem := List.mem_of_getLast? h
  simpa using List.mem_filter.mp hmem

/-- A method under a new name, if there is one. -/
def Routine.renamed (r : Routine) : Option Naming → Routine
  | some n => { r with name := some n.name, parent := some n.owner }
  | none => r

theorem Routine.renamed_renamed (r : Routine) (before : Option Naming) (n : Naming) :
    (r.renamed before).renamed (some n) = r.renamed (some n) := by
  cases before <;> rfl

theorem routine?_nameByProto (functions : List Function) (n : Naming) (f : Nat) :
    ((nameByProto functions n)[f]?.bind (·.routine?)) =
      (functions[f]?.bind (·.routine?)).map (·.renamed (if n.function = f then some n else none)) := by
  rw [nameByProto, List.getElem?_modify]
  cases functions[f]? with
  | none => rfl
  | some fn =>
      obtain ⟨type, body⟩ := fn
      by_cases h : n.function = f <;> cases body <;> simp [h] <;> rfl

/-- **A method keeps the last name that it is given.** -/
theorem routine?_foldl_nameByProto (namings : List Naming) (functions : List Function) (f : Nat) :
    ((namings.foldl nameByProto functions)[f]?.bind (·.routine?)) =
      (functions[f]?.bind (·.routine?)).map (·.renamed (lastNaming? namings f)) := by
  induction namings using List.reverseRecOn with
  | nil =>
      have hkeep : (fun r : Routine => r.renamed (lastNaming? [] f)) = fun r => r := rfl
      rw [List.foldl_nil, hkeep, Option.map_id']
  | append_singleton namings n ih =>
      rw [List.foldl_append, List.foldl_cons, List.foldl_nil, routine?_nameByProto, ih,
        Option.map_map, lastNaming?_append]
      refine congrArg (Option.map · _) (funext fun r => ?_)
      by_cases h : n.function = f
      · have hlast : lastNaming? [n] f = some n := by simp [lastNaming?, h]
        rw [hlast, Option.some_or, if_pos h]
        exact r.renamed_renamed _ n
      · have hlast : lastNaming? [n] f = none := by simp [lastNaming?, h]
        rw [hlast, Option.none_or, if_neg h]
        rfl

theorem routine?_headers (functions : List Function) (f : Nat) :
    ((functions.map Function.header)[f]?.bind (·.routine?)) =
      (functions[f]?.bind (·.routine?)).map fun r =>
        { name := none, parent := none, registers := r.registers, ops := [] } := by
  rw [List.getElem?_map]
  cases functions[f]? with
  | none => rfl
  | some fn =>
      obtain ⟨type, body⟩ := fn
      cases body <;> rfl

/-- The name of a method of a resolved program is the last one that a type gives it, and a method
that is bound to a field has no other name. -/
theorem Module.resolve_routine {m : Module} {s : Strategy} {g : Graph} {f : Nat} {r : Routine}
    (h : m.resolve s = .ok g) (hr : g.routine? f = some r) :
    ∃ bindings, bindingNamings g.types = .ok bindings ∧ NamedOnce g.types f ∧
      r.name = (lastNaming? (protoNamings g.types ++ bindings) f).map (·.name) ∧
      r.parent = (lastNaming? (protoNamings g.types ++ bindings) f).map (·.owner) := by
  obtain ⟨_, named, _, _, hnamed, hfunctions⟩ := resolve_functions h
  obtain ⟨bindings, hbindings, hfold⟩ := bind_eq_ok_iff.mp hnamed
  have hheader (i : Nat) : named? (g.functions.map Function.header) i =
      (g.routine? i).map fun _ => false := by
    rw [named?, routine?_headers, Option.map_map]
    rfl
  have hnew (i : Nat) : named? (g.functions.map Function.header) i ≠ some true := by
    rw [hheader]
    simp
  have honce : NamedOnce g.types f :=
    ((exists_nameMethods_iff hnew).mp ⟨named, hnamed⟩).2 f (by rw [hheader, hr]; rfl)
  refine ⟨bindings, hbindings, honce, ?_⟩
  -- the routine in `named` has the name, and what is left of `r` are its ops
  have hsame : named = (protoNamings g.types ++ bindings).foldl nameByProto
      (g.functions.map Function.header) := by
    rw [List.foldl_append]
    exact foldlM_nameByBinding_eq_ok hfold
  have hlast := routine?_foldl_nameByProto (protoNamings g.types ++ bindings)
    (g.functions.map Function.header) f
  obtain ⟨fn, hfn, hroutine⟩ := Option.bind_eq_some_iff.mp hr
  rw [← hsame, routine?_headers, hfn, Option.bind_some, hroutine] at hlast
  rw [← hfunctions] at hfn
  obtain ⟨fn', ops, hfn', _, rfl⟩ := List.getElem?_zipWith_eq_some.mp hfn
  rw [hfn'] at hlast
  obtain ⟨type, body⟩ := fn'
  cases body with
  | native lib name => cases hroutine
  | method routine =>
      obtain rfl := Option.some.inj hroutine
      have hrenamed := Option.some.inj hlast
      refine ⟨(congrArg Routine.name hrenamed).trans ?_, (congrArg Routine.parent hrenamed).trans ?_⟩
      · cases lastNaming? (protoNamings g.types ++ bindings) f <;> rfl
      · cases lastNaming? (protoNamings g.types ++ bindings) f <;> rfl

/-! ## Entries of types -/

namespace Graph

/-- Entry `place` of the dispatch table of type `owner`. -/
def ProtoAt (g : Graph) (owner place : Nat) (p : Proto String) : Prop :=
  ∃ layout, layout? g.types owner = some layout ∧ layout.protos[place]? = some p

/-- Binding `place` of type `owner`. -/
def BindingAt (g : Graph) (owner place : Nat) (b : Binding) : Prop :=
  ∃ layout, layout? g.types owner = some layout ∧ layout.bindings[place]? = some b

variable {g : Graph} {owner place f : Nat}

/-- The names in dispatch tables, type by type. -/
def protoRows (types : List GraphType) : List (List Naming) :=
  types.zipIdx.map fun (t, owner) =>
    match t.object? with
    | some layout => layout.protos.map fun p => ⟨p.function, p.name, owner⟩
    | none => []

theorem flatten_protoRows (types : List GraphType) :
    (protoRows types).flatten = protoNamings types := List.flatMap_def.symm

theorem mem_protoRows_iff {n : Naming} :
    (∃ row, (protoRows g.types)[owner]? = some row ∧ row[place]? = some n) ↔
      ∃ p, g.ProtoAt owner place p ∧ n = ⟨p.function, p.name, owner⟩ := by
  unfold protoRows ProtoAt layout?
  rw [List.getElem?_map, List.getElem?_zipIdx]
  cases g.types[owner]? with
  | none => simp
  | some t =>
      cases ho : t.object? with
      | none => simp [ho]
      | some layout => simp [ho, eq_comm]

theorem mem_bindingTargets_iff :
    (∃ row, (g.types.map TypeDef.bindingTargets)[owner]? = some row ∧ row[place]? = some f) ↔
      ∃ b, g.BindingAt owner place b ∧ b.function = f := by
  unfold TypeDef.bindingTargets BindingAt layout?
  rw [List.getElem?_map]
  cases g.types[owner]? with
  | none => simp
  | some t =>
      cases ho : t.object? with
      | none => simp [ho]
      | some layout => simp [ho]

/-- The last name in the dispatch tables comes from the last entry. -/
theorem exists_protoAt_of_lastNaming? {n : Naming}
    (h : lastNaming? (protoNamings g.types) f = some n) :
    ∃ place p, g.ProtoAt n.owner place p ∧ p.function = f ∧ n.name = p.name ∧
      ∀ owner' place' p', g.ProtoAt owner' place' p' → p'.function = f →
        owner' < n.owner ∨ owner' = n.owner ∧ place' ≤ place := by
  rw [← flatten_protoRows] at h
  obtain ⟨owner, row, place, hrow, hn, hf, hlast⟩ := exists_last_row h
  obtain ⟨p, hp, rfl⟩ := mem_protoRows_iff.mp ⟨row, hrow, hn⟩
  refine ⟨place, p, hp, by simpa using hf, rfl, fun owner' place' p' hp' hf' => ?_⟩
  obtain ⟨row', hrow', hn'⟩ := mem_protoRows_iff.mpr ⟨p', hp', rfl⟩
  exact hlast owner' row' place' _ hrow' hn' (by simpa using hf')

theorem mem_protoNamings_of_protoAt {p : Proto String} (h : g.ProtoAt owner place p) :
    p.function ∈ (protoNamings g.types).map (·.function) := by
  obtain ⟨row, hrow, hn⟩ := mem_protoRows_iff.mpr ⟨p, h, rfl⟩
  rw [← flatten_protoRows]
  refine List.mem_map.mpr ⟨_, List.mem_flatten.mpr ⟨row, ?_, List.mem_of_getElem? hn⟩, rfl⟩
  exact List.mem_of_getElem? hrow

theorem mem_bindingTargets_of_bindingAt {b : Binding} (h : g.BindingAt owner place b) :
    b.function ∈ g.types.flatMap TypeDef.bindingTargets := by
  obtain ⟨row, hrow, hf⟩ := mem_bindingTargets_iff.mpr ⟨b, h, rfl⟩
  rw [List.flatMap_def]
  exact List.mem_flatten.mpr ⟨row, List.mem_of_getElem? hrow, List.mem_of_getElem? hf⟩

/-- Every name of a bound field comes from a binding. -/
theorem exists_bindingAt_of_mem {bindings : List Naming} {n : Naming}
    (h : bindingNamings g.types = .ok bindings) (hn : n ∈ bindings) :
    ∃ place b fields field, g.BindingAt n.owner place b ∧ b.function = n.function ∧
      g.allFields n.owner = .ok fields ∧ fields[b.field]? = some field ∧ n.name = field.name := by
  obtain ⟨rows, hrows, hflat⟩ := bind_eq_ok_iff.mp h
  obtain rfl := Except.ok.inj hflat
  obtain ⟨row, hrow, hn⟩ := List.mem_flatten.mp hn
  obtain ⟨⟨t, owner⟩, hmem, ht⟩ := exists_of_mem_result hrows hrow
  have htype := List.mem_zipIdx_iff_getElem?.mp hmem
  rw [located_eq_ok_iff, typeBindingNamings] at ht
  split at ht
  · next layout ho =>
    split at ht
    · obtain rfl := Except.ok.inj ht
      simp at hn
    · obtain ⟨fields, hfields, hnamings⟩ := bind_eq_ok_iff.mp ht
      obtain ⟨b, hb, hbn⟩ := exists_of_mem_result hnamings hn
      obtain ⟨field, hfield, rfl⟩ := bindingNaming_eq_ok_iff.mp hbn
      obtain ⟨place, hplace⟩ := List.mem_iff_getElem?.mp hb
      refine ⟨place, b, fields, field, ⟨layout, ?_, hplace⟩, rfl, ?_, hfield, rfl⟩
      · rw [layout?, htype]
        exact ho
      · exact unlocated_eq_ok_iff.mpr hfields
  · obtain rfl := Except.ok.inj ht
    simp at hn

/-- A method that is bound once has one binding. -/
theorem bindingAt_unique {owner' place' : Nat} {b b' : Binding} (honce : NamedOnce g.types f)
    (h : g.BindingAt owner place b) (hf : b.function = f) (h' : g.BindingAt owner' place' b')
    (hf' : b'.function = f) : owner' = owner ∧ place' = place := by
  obtain ⟨row, hrow, hn⟩ := mem_bindingTargets_iff.mpr ⟨b, h, hf⟩
  obtain ⟨row', hrow', hn'⟩ := mem_bindingTargets_iff.mpr ⟨b', h', hf'⟩
  have hcount := honce.1
  rw [List.flatMap_def] at hcount
  exact row_unique_of_count_le_one hcount hrow hn hrow' hn'

/-! ## Who names a method -/

/-- The name and the parent of a method, by the entries that refer to it. -/
inductive Named (g : Graph) (f : Nat) : Option String → Option Nat → Prop
  /-- By the last entry for it in a dispatch table; no field is bound to it. -/
  | byProto {owner place : Nat} {p : Proto String} (entry : g.ProtoAt owner place p)
      (target : p.function = f)
      (last : ∀ owner' place' p', g.ProtoAt owner' place' p' → p'.function = f →
        owner' < owner ∨ owner' = owner ∧ place' ≤ place)
      (unbound : ∀ owner place b, g.BindingAt owner place b → b.function ≠ f) :
      Named g f (some p.name) (some owner)
  /-- By the only field that is bound to it; it is in no dispatch table. -/
  | byBinding {owner place : Nat} {b : Binding} {fields : List (Field String)}
      {field : Field String} (entry : g.BindingAt owner place b) (target : b.function = f)
      (only : ∀ owner' place' b', g.BindingAt owner' place' b' → b'.function = f →
        owner' = owner ∧ place' = place)
      (inherited : g.allFields owner = .ok fields) (found : fields[b.field]? = some field)
      (unlisted : ∀ owner place p, g.ProtoAt owner place p → p.function ≠ f) :
      Named g f (some field.name) (some owner)
  /-- By nobody. -/
  | anonymous (unlisted : ∀ owner place p, g.ProtoAt owner place p → p.function ≠ f)
      (unbound : ∀ owner place b, g.BindingAt owner place b → b.function ≠ f) : Named g f none none

end Graph

theorem Module.named_of_resolve {m : Module} {s : Strategy} {g : Graph} {f : Nat} {r : Routine}
    (h : m.resolve s = .ok g) (hr : g.routine? f = some r) : g.Named f r.name r.parent := by
  obtain ⟨bindings, hbindings, honce, hname, hparent⟩ := resolve_routine h hr
  rw [lastNaming?_append] at hname hparent
  have htargets := map_function_of_bindingNamings hbindings
  have hunbound (hnone : f ∉ g.types.flatMap TypeDef.bindingTargets) :
      ∀ owner place b, g.BindingAt owner place b → b.function ≠ f :=
    fun owner place b hb he => hnone (he ▸ Graph.mem_bindingTargets_of_bindingAt hb)
  cases hproto : lastNaming? (protoNamings g.types) f with
  | some n =>
      obtain ⟨place, p, hp, hf, hn, hlast⟩ := Graph.exists_protoAt_of_lastNaming? hproto
      have hlisted : f ∈ g.types.flatMap TypeDef.protoTargets := by
        rw [← map_function_protoNamings]
        exact hf ▸ Graph.mem_protoNamings_of_protoAt hp
      have hnone : f ∉ g.types.flatMap TypeDef.bindingTargets := fun hb => honce.2 hb hlisted
      have hbinding : lastNaming? bindings f = none := by
        rw [lastNaming?_eq_none_iff, htargets]
        exact hnone
      rw [hname, hparent, hbinding, hproto]
      simp only [Option.none_or, Option.map_some, hn]
      exact .byProto hp hf hlast (hunbound hnone)
  | none =>
      have hunlisted : ∀ owner place p, g.ProtoAt owner place p → p.function ≠ f := by
        intro owner place p hp he
        exact lastNaming?_eq_none_iff.mp hproto (he ▸ Graph.mem_protoNamings_of_protoAt hp)
      cases hbinding : lastNaming? bindings f with
      | some n =>
          obtain ⟨hmem, hfn⟩ := mem_of_lastNaming? hbinding
          obtain ⟨place, b, fields, field, hb, hf, hfields, hfield, hn⟩ :=
            Graph.exists_bindingAt_of_mem hbindings hmem
          rw [hname, hparent, hbinding, hproto]
          simp only [Option.or_none, Option.map_some, hn]
          have htarget : b.function = f := hf.trans hfn
          exact .byBinding hb htarget
            (fun owner' place' b' hb' hf' => Graph.bindingAt_unique honce hb htarget hb' hf')
            hfields hfield hunlisted
      | none =>
          rw [hname, hparent, hbinding, hproto]
          rw [lastNaming?_eq_none_iff, htargets] at hbinding
          exact .anonymous hunlisted (hunbound hbinding)

/-- **Methods are named by dispatch tables and bindings, and natives keep the name that they are
stored with.** -/
theorem Module.resolve_names_methods {m : Module} {s : Strategy} {g : Graph}
    (h : m.resolve s = .ok g) :
    (∀ f r, g.routine? f = some r → g.Named f r.name r.parent) ∧
      ∀ n ∈ m.natives, ∃ lib name, m.strings[n.lib]? = some lib ∧ m.strings[n.name]? = some name ∧
        g.functions[n.index]? = some ⟨n.type, .native lib name⟩ := by
  refine ⟨fun f r hr => named_of_resolve h hr, fun n hn => ?_⟩
  have hmem : FunctionRecord.native n ∈ m.functionRecords := by simp [functionRecords, hn]
  obtain ⟨function, hfunction, hresolved⟩ := exists_function_of_mem h hmem
  cases hresolved with
  | native typed lib_eq name_eq => exact ⟨_, _, lib_eq, name_eq, hfunction⟩

/-- A module with an entry for function 1 in two dispatch tables, an inherited field that is bound to
function 2, and a function 3 that no type knows. The table of the second type is also in the way of the
native. -/
def namingModule : Module where
  version := 5
  strings := ["Base", "first", "Derived", "last", "field", "std", "log"]
  types := [.atom .void, .callable .function ⟨[], 0⟩,
            .object .object ⟨0, -1, 0, [⟨4, 1⟩], [⟨1, 1, 0⟩], []⟩,
            .object .struct ⟨2, 2, 0, [], [⟨1, 1, 0⟩, ⟨3, 1, 0⟩, ⟨1, 0, 0⟩], [⟨0, 2⟩]⟩]
  natives := [⟨5, 6, 1, 0⟩]
  methods := [⟨1, 1, [], [], none, none⟩, ⟨1, 2, [], [], none, none⟩, ⟨1, 3, [], [], none, none⟩]

theorem resolve_names_namingModule :
    ∃ g, namingModule.resolve .sequential = .ok g ∧ g.Named 1 (some "last") (some 3) ∧
      g.Named 2 (some "field") (some 3) ∧ g.Named 3 none none ∧
      g.functions[0]? = some ⟨1, .native "std" "log"⟩ := by
  obtain ⟨g, hg, h1, h2, h3⟩ : ∃ g, namingModule.resolve .sequential = .ok g ∧
      g.routine? 1 = some ⟨some "last", some 3, [], []⟩ ∧
      g.routine? 2 = some ⟨some "field", some 3, [], []⟩ ∧
      g.routine? 3 = some ⟨none, none, [], []⟩ := ⟨_, rfl, rfl, rfl, rfl⟩
  obtain ⟨hmethods, hnatives⟩ := Module.resolve_names_methods hg
  obtain ⟨_, _, hlib, hname, hnative⟩ := hnatives ⟨5, 6, 1, 0⟩ (List.mem_singleton_self _)
  obtain rfl := Option.some.inj hlib
  obtain rfl := Option.some.inj hname
  exact ⟨g, hg, hmethods 1 _ h1, hmethods 2 _ h2, hmethods 3 _ h3, hnative⟩

end HashLink
