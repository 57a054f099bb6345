import HashLink.Graph.Flatten
import HashLink.Proofs.Traversal
import Mathlib.Algebra.GroupWithZero.Nat
import Mathlib.Data.List.Nodup
import Mathlib.Data.List.Perm.Subperm

/-!
# Values in pools

A pool only grows at its end, so the index of a value stays its index. Names are in the pool of
strings before any value of an instruction is, which is why a name has the same index in the pool of
names and in the finished pool of strings.

The second half is about programs whose values come out of pools that are already there. Interning
them succeeds, every value is in its pool afterwards, and no pool gets longer than the one that
its values came from, since it holds each of them once.
-/

namespace HashLink

variable {α : Type} [DecidableEq α]

/-! ## Interning -/

theorem mem_intern {pool : List α} {value a : α} : a ∈ intern pool value ↔ a ∈ pool ∨ a = value := by
  unfold intern
  split
  · next h =>
    constructor
    · exact Or.inl
    · rintro (ha | rfl)
      · exact ha
      · exact h
  · simp

theorem intern_extends (pool : List α) (value : α) : pool <+: intern pool value := by
  unfold intern
  split
  · exact List.prefix_refl pool
  · exact List.prefix_append pool [value]

theorem nodup_intern {pool : List α} (h : pool.Nodup) (value : α) : (intern pool value).Nodup := by
  unfold intern
  split
  · exact h
  · next hne =>
    rw [← List.concat_eq_append]
    exact h.concat hne

theorem mem_foldl_intern {pool values : List α} {a : α} :
    a ∈ values.foldl intern pool ↔ a ∈ pool ∨ a ∈ values := by
  induction values generalizing pool with
  | nil => simp
  | cons value values ih => rw [List.foldl_cons, ih, mem_intern, List.mem_cons, or_assoc]

theorem nodup_foldl_intern {pool : List α} (h : pool.Nodup) (values : List α) :
    (values.foldl intern pool).Nodup := by
  induction values generalizing pool with
  | nil => exact h
  | cons value values ih => exact ih (nodup_intern h value)

theorem Graph.mem_namePool {g : Graph} {name : String} : name ∈ g.namePool ↔ name ∈ g.names := by
  simp [namePool, mem_foldl_intern]

theorem Graph.nodup_namePool (g : Graph) : g.namePool.Nodup := nodup_foldl_intern List.nodup_nil _

/-! ## The pools of a program -/

namespace ValuePools

/-- Every pool of `p` starts with the pool of `q` of the same kind. -/
structure Extends (p q : ValuePools) : Prop where
  ints : q.ints <+: p.ints
  floats : q.floats <+: p.floats
  strings : q.strings <+: p.strings
  bytes : q.bytes <+: p.bytes

theorem Extends.refl (p : ValuePools) : Extends p p :=
  ⟨List.prefix_refl _, List.prefix_refl _, List.prefix_refl _, List.prefix_refl _⟩

theorem Extends.trans {p q r : ValuePools} (h : Extends p q) (h' : Extends q r) : Extends p r :=
  ⟨h'.ints.trans h.ints, h'.floats.trans h.floats, h'.strings.trans h.strings,
    h'.bytes.trans h.bytes⟩

/-- A value is in the pool that keeps it. -/
def Holds (version : UInt8) (p : ValuePools) : PoolValue → Prop
  | .int value => value ∈ p.ints
  | .float bits => bits ∈ p.floats
  | .string value => value ∈ p.strings
  | .bytes value =>
    if hasBytesPool version then value ∈ p.bytes
    else ∃ text, ofUtf8? value = some text ∧ text ∈ p.strings

theorem Holds.mono {version : UInt8} {p q : ValuePools} {value : PoolValue}
    (h : Holds version q value) (hx : Extends p q) : Holds version p value := by
  cases value with
  | int value => exact hx.ints.subset h
  | float bits => exact hx.floats.subset h
  | string value => exact hx.strings.subset h
  | bytes value =>
      simp only [Holds] at h ⊢
      split at h
      · next hb =>
        rw [if_pos hb]
        exact hx.bytes.subset h
      · next hb =>
        obtain ⟨text, ht, hm⟩ := h
        rw [if_neg hb]
        exact ⟨text, ht, hx.strings.subset hm⟩

theorem add_spec {version : UInt8} {p q : ValuePools} {value : PoolValue}
    (h : add version p value = .ok q) : Extends q p ∧ Holds version q value := by
  have hr := Extends.refl p
  cases value with
  | int value =>
      obtain rfl := Except.ok.inj h
      exact ⟨{ hr with ints := intern_extends _ _ }, mem_intern.mpr (.inr rfl)⟩
  | float bits =>
      obtain rfl := Except.ok.inj h
      exact ⟨{ hr with floats := intern_extends _ _ }, mem_intern.mpr (.inr rfl)⟩
  | string value =>
      obtain rfl := Except.ok.inj h
      exact ⟨{ hr with strings := intern_extends _ _ }, mem_intern.mpr (.inr rfl)⟩
  | bytes value =>
      simp only [add] at h
      simp only [Holds]
      split at h
      · next hb =>
        obtain rfl := Except.ok.inj h
        rw [if_pos hb]
        exact ⟨{ hr with bytes := intern_extends _ _ }, mem_intern.mpr (.inr rfl)⟩
      · next hb =>
        rw [if_neg hb]
        -- without a pool of their own, bytes are kept as the string that they spell
        split at h
        · next text ht =>
          obtain rfl := Except.ok.inj h
          exact ⟨{ hr with strings := intern_extends _ _ }, text, ht, mem_intern.mpr (.inr rfl)⟩
        · simp at h

/-- Pools only grow, and hold what was added. -/
theorem addAll_spec {version : UInt8} {p q : ValuePools} {values : List PoolValue}
    (h : addAll version p values = .ok q) :
    Extends q p ∧ ∀ value ∈ values, Holds version q value := by
  unfold addAll at h
  induction values generalizing p with
  | nil =>
      obtain rfl := Except.ok.inj h
      exact ⟨.refl _, by simp⟩
  | cons value values ih =>
      rw [List.foldlM_cons, bind_eq_ok_iff] at h
      obtain ⟨p', hadd, hrest⟩ := h
      obtain ⟨hx, hv⟩ := add_spec hadd
      obtain ⟨hx', hvs⟩ := ih hrest
      refine ⟨hx'.trans hx, fun value' hmem => ?_⟩
      rcases List.mem_cons.mp hmem with rfl | hmem
      · exact hv.mono hx'
      · exact hvs value' hmem

end ValuePools

open ValuePools

/-- **Names keep their index, and every value of the code is in its pool.** -/
theorem Inventory.valuePools_spec {has : Inventory} {values : List (List PoolValue)}
    {p : ValuePools} (h : has.valuePools values = .ok p) :
    has.names <+: p.strings ∧ ∀ vs ∈ values, ∀ value ∈ vs, Holds has.version p value := by
  suffices ∀ q : ValuePools, values.foldlM (addAll has.version) q = .ok p →
      Extends p q ∧ ∀ vs ∈ values, ∀ value ∈ vs, Holds has.version p value by
    obtain ⟨hx, hv⟩ := this _ (foldlM_located_eq_ok_iff.mp h)
    exact ⟨hx.strings, hv⟩
  clear h
  intro q h
  induction values generalizing q with
  | nil =>
      obtain rfl := Except.ok.inj h
      exact ⟨.refl _, by simp⟩
  | cons vs values ih =>
      rw [List.foldlM_cons, bind_eq_ok_iff] at h
      obtain ⟨q', hadd, hrest⟩ := h
      obtain ⟨hx, hv⟩ := addAll_spec hadd
      obtain ⟨hx', hvs⟩ := ih q' hrest
      refine ⟨hx'.trans hx, fun vs' hmem value hvalue => ?_⟩
      rcases List.mem_cons.mp hmem with rfl | hmem
      · exact (hv value hvalue).mono hx'
      · exact hvs vs' hmem value hvalue

/-! ## Values that come from a module -/

/-- Each entry of a pool once, and out of another pool. -/
structure Draws (pool source : List α) : Prop where
  once : pool.Nodup
  within : pool ⊆ source

omit [DecidableEq α] in
theorem Draws.subperm {pool source : List α} (h : Draws pool source) : pool.Subperm source :=
  h.once.subperm h.within

omit [DecidableEq α] in
/-- A pool takes no more room than the one it draws from. -/
theorem Draws.sum_le {pool source : List α} (h : Draws pool source) (size : α → Nat) :
    (pool.map size).sum ≤ (source.map size).sum := by
  obtain ⟨kept, hperm, hsub⟩ := h.subperm
  rw [← (hperm.map size).sum_nat]
  clear hperm h
  induction hsub with
  | slnil => exact Nat.le_refl _
  | cons a _ ih =>
      rw [List.map_cons, List.sum_cons]
      omega
  | cons_cons a _ ih =>
      rw [List.map_cons, List.map_cons, List.sum_cons, List.sum_cons]
      omega

theorem Draws.intern {pool source : List α} {value : α} (h : Draws pool source)
    (hvalue : value ∈ source) : Draws (intern pool value) source := by
  refine ⟨nodup_intern h.once value, fun a ha => ?_⟩
  rcases mem_intern.mp ha with ha | rfl
  · exact h.within ha
  · exact hvalue

/-- A value that a module keeps in one of its pools. -/
def Module.HasValue (m : Module) : PoolValue → Prop
  | .int value => value ∈ m.ints
  | .float bits => bits ∈ m.floats
  | .string value => value ∈ m.strings
  | .bytes value =>
    if hasBytesPool m.version then value ∈ m.bytes else ∃ text ∈ m.strings, utf8 text = value

namespace ValuePools

/-- Pools that hold nothing but values of a module. -/
structure DrawnFrom (p : ValuePools) (m : Module) : Prop where
  ints : Draws p.ints m.ints
  floats : Draws p.floats m.floats
  strings : Draws p.strings m.strings
  bytes : Draws p.bytes m.bytes

theorem DrawnFrom.add {p : ValuePools} {m : Module} {value : PoolValue} (hp : p.DrawnFrom m)
    (h : m.HasValue value) : ∃ q, add m.version p value = .ok q ∧ q.DrawnFrom m := by
  cases value with
  | int value => exact ⟨_, rfl, { hp with ints := hp.ints.intern h }⟩
  | float bits => exact ⟨_, rfl, { hp with floats := hp.floats.intern h }⟩
  | string value => exact ⟨_, rfl, { hp with strings := hp.strings.intern h }⟩
  | bytes value =>
      simp only [Module.HasValue] at h
      simp only [ValuePools.add]
      by_cases hb : hasBytesPool m.version = true
      · rw [if_pos hb] at h ⊢
        exact ⟨_, rfl, { hp with bytes := hp.bytes.intern h }⟩
      · rw [if_neg hb] at h ⊢
        obtain ⟨text, htext, rfl⟩ := h
        -- the bytes come from a string, so they spell one
        rw [ofUtf8?_utf8]
        exact ⟨_, rfl, { hp with strings := hp.strings.intern htext }⟩

theorem DrawnFrom.addAll {p : ValuePools} {m : Module} {values : List PoolValue}
    (hp : p.DrawnFrom m) (h : ∀ value ∈ values, m.HasValue value) :
    ∃ q, addAll m.version p values = .ok q ∧ q.DrawnFrom m := by
  unfold ValuePools.addAll
  induction values generalizing p with
  | nil => exact ⟨p, rfl, hp⟩
  | cons value values ih =>
      rw [List.forall_mem_cons] at h
      obtain ⟨p', hadd, hp'⟩ := hp.add h.1
      obtain ⟨q, hrest, hq⟩ := ih hp' h.2
      exact ⟨q, by rw [List.foldlM_cons, hadd, ok_bind, hrest], hq⟩

end ValuePools

/-- **Values that come from a module can be put into pools no larger than its own.** -/
theorem Inventory.exists_valuePools {has : Inventory} {m : Module}
    {values : List (List PoolValue)} (hversion : has.version = m.version)
    (hnames : Draws has.names m.strings) (h : ∀ vs ∈ values, ∀ value ∈ vs, m.HasValue value) :
    ∃ p, has.valuePools values = .ok p ∧ p.DrawnFrom m := by
  suffices ∀ q : ValuePools, q.DrawnFrom m →
      ∃ p, values.foldlM (addAll has.version) q = .ok p ∧ p.DrawnFrom m by
    -- at the start there are the names and nothing else
    obtain ⟨p, hp, hdrawn⟩ := this { strings := has.names }
      ⟨⟨List.nodup_nil, by simp⟩, ⟨List.nodup_nil, by simp⟩, hnames, ⟨List.nodup_nil, by simp⟩⟩
    exact ⟨p, foldlM_located_eq_ok_iff.mpr hp, hdrawn⟩
  intro q hq
  induction values generalizing q with
  | nil => exact ⟨q, rfl, hq⟩
  | cons vs values ih =>
      rw [List.forall_mem_cons] at h
      obtain ⟨q', hadd, hq'⟩ := hq.addAll h.1
      obtain ⟨p, hrest, hp⟩ := ih h.2 q' hq'
      rw [← hversion] at hadd
      exact ⟨p, by rw [List.foldlM_cons, hadd, ok_bind, hrest], hp⟩

end HashLink
