import HashLink.Graph.Resolve
import HashLink.Proofs.Traversal
import Mathlib.Data.List.Nodup

/-!
# The index space of functions

The function table of a module is the list of its function records in the order of their indices:
a list with the same records, in which the record at place `i` has index `i`. There is at most one
such list, and the table is found exactly when there is one.

Both directions go through the slots that the records are placed into. Placing moves a record from
the list into a slot and changes nothing else, so what is in the slots and what is still to be
placed are the same records at all times.
-/

namespace HashLink

/-- Whether a record is that of a native. -/
def FunctionRecord.isNative : FunctionRecord → Bool
  | .native _ => true
  | .method _ => false

/-! ## Placing records -/

theorem filterMap_set_none {α : Type} {slots : List (Option α)} {i : Nat} (a : α)
    (h : slots[i]? = some none) :
    ((slots.set i (some a)).filterMap id).Perm (a :: slots.filterMap id) := by
  induction slots generalizing i with
  | nil => simp at h
  | cons slot slots ih =>
      cases i with
      | zero =>
          simp only [List.getElem?_cons_zero, Option.some.injEq] at h
          subst h
          simp
      | succ i =>
          have hrest := ih (i := i) (by simpa using h)
          cases slot with
          | none => simpa using hrest
          | some b =>
              simp only [List.set_cons_succ, List.filterMap_cons, id]
              exact (hrest.cons b).trans (.swap a b _)

theorem length_placeRecords {slots slots' : List (Option FunctionRecord)}
    {rs : List FunctionRecord} (h : placeRecords slots rs = .ok slots') :
    slots'.length = slots.length := by
  fun_induction placeRecords slots rs with
  | case1 slots => simp_all
  | case2 | case3 => simp at h
  | case4 slots r rs _ ih => simpa using ih h

/-- No record is lost and none is made up. -/
theorem perm_placeRecords {slots slots' : List (Option FunctionRecord)} {rs : List FunctionRecord}
    (h : placeRecords slots rs = .ok slots') :
    (slots'.filterMap id).Perm (slots.filterMap id ++ rs) := by
  fun_induction placeRecords slots rs with
  | case1 slots => simp_all
  | case2 | case3 => simp at h
  | case4 slots r rs hfree ih =>
      have hmove : ((slots.set r.index (some r)).filterMap id ++ rs).Perm
          (r :: (slots.filterMap id ++ rs)) := (filterMap_set_none r hfree).append_right rs
      exact ((ih h).trans hmove).trans List.perm_middle.symm

/-- Every record ends up in the slot of its index. -/
theorem index_placeRecords {slots slots' : List (Option FunctionRecord)} {rs : List FunctionRecord}
    (h : placeRecords slots rs = .ok slots')
    (start : ∀ (i : Nat) (r : FunctionRecord), slots[i]? = some (some r) → r.index = i) :
    ∀ (i : Nat) (r : FunctionRecord), slots'[i]? = some (some r) → r.index = i := by
  fun_induction placeRecords slots rs with
  | case1 slots =>
      obtain rfl := Except.ok.inj h
      exact start
  | case2 | case3 => simp at h
  | case4 slots r rs hfree ih =>
      refine ih h fun i r' hr' => ?_
      rw [List.getElem?_set] at hr'
      split at hr'
      · next hi =>
        split at hr' <;> simp_all
      · exact start i r' hr'

/-- Records with different indices, all of them of free slots, can be placed. -/
theorem exists_placeRecords {slots : List (Option FunctionRecord)} {rs : List FunctionRecord}
    (free : ∀ r ∈ rs, slots[r.index]? = some none) (different : (rs.map (·.index)).Nodup) :
    ∃ slots', placeRecords slots rs = .ok slots' := by
  induction rs generalizing slots with
  | nil => exact ⟨slots, rfl⟩
  | cons r rs ih =>
      rw [List.map_cons, List.nodup_cons] at different
      rw [placeRecords, free r (by simp)]
      refine ih (fun r' hr' => ?_) different.2
      have hne : r.index ≠ r'.index := by
        intro he
        exact different.1 (he ▸ List.mem_map_of_mem hr')
      rw [List.getElem?_set_ne hne]
      exact free r' (List.mem_cons_of_mem r hr')

/-! ## The table -/

theorem eq_map_some_of_length_filterMap {α : Type} {slots : List (Option α)}
    (h : (slots.filterMap id).length = slots.length) :
    slots = (slots.filterMap id).map some := by
  induction slots with
  | nil => rfl
  | cons slot slots ih =>
      have hle := List.length_filterMap_le id slots
      cases slot with
      | none =>
          have hskip : ((none :: slots).filterMap id).length = (slots.filterMap id).length := rfl
          rw [hskip, List.length_cons] at h
          omega
      | some a =>
          have hrest := ih (Nat.succ.inj h)
          exact congrArg (some a :: ·) hrest

/-- A list in which every place holds the record of its own index. -/
theorem map_index_eq_range_iff {table : List FunctionRecord} {n : Nat} :
    table.map (·.index) = List.range n ↔
      table.length = n ∧ ∀ (i : Nat) (r : FunctionRecord), table[i]? = some r → r.index = i := by
  constructor
  · intro h
    have hlen : table.length = n := by simpa using congrArg List.length h
    refine ⟨hlen, fun i r hr => ?_⟩
    have hi : (table.map (·.index))[i]? = some r.index := by simp [hr]
    rw [h, List.getElem?_eq_some_iff] at hi
    obtain ⟨_, hi⟩ := hi
    simpa using hi.symm
  · rintro ⟨rfl, h⟩
    refine List.ext_getElem (by simp) fun i hi _ => ?_
    rw [List.length_map] at hi
    simpa using h i table[i] (List.getElem?_eq_getElem hi)

namespace Module

theorem length_functionRecords (m : Module) : m.functionRecords.length = m.functionCount := by
  simp [functionRecords, functionCount]

theorem method_mem_functionRecords_iff {m : Module} {f : Method} :
    FunctionRecord.method f ∈ m.functionRecords ↔ f ∈ m.methods := by
  simp [functionRecords]

theorem map_index_functionRecords (m : Module) :
    m.functionRecords.map (·.index) = m.functionIndices := by
  simp [functionRecords, functionIndices, Function.comp_def, FunctionRecord.index]

/-- As many records as slots, each in a slot of its own: no slot is empty. -/
theorem slots_full {m : Module} {slots : List (Option FunctionRecord)}
    (h : placeRecords (List.replicate m.functionCount none) m.functionRecords = .ok slots) :
    (slots.filterMap id).Perm m.functionRecords ∧ slots = (slots.filterMap id).map some := by
  have hperm : (slots.filterMap id).Perm m.functionRecords := by simpa using perm_placeRecords h
  refine ⟨hperm, eq_map_some_of_length_filterMap ?_⟩
  rw [hperm.length_eq, length_functionRecords, length_placeRecords h, List.length_replicate]

theorem functionTable_spec {m : Module} {table : List FunctionRecord}
    (h : m.functionTable = .ok table) :
    table.Perm m.functionRecords ∧ table.map (·.index) = List.range m.functionCount := by
  unfold functionTable at h
  obtain ⟨slots, hslots, hpure⟩ := bind_eq_ok_iff.mp h
  obtain rfl : slots.filterMap id = table := by simpa using hpure
  obtain ⟨hperm, hfull⟩ := slots_full hslots
  have hlen : (slots.filterMap id).length = m.functionCount := by
    rw [hperm.length_eq, length_functionRecords]
  have hindex := index_placeRecords hslots fun i r hr => by simp [List.getElem?_replicate] at hr
  refine ⟨hperm, map_index_eq_range_iff.mpr ⟨hlen, fun i r hr => hindex i r ?_⟩⟩
  rw [hfull, List.getElem?_map, hr]
  rfl

/-- Indices that are different and within bounds leave no slot empty. -/
theorem exists_functionTable {m : Module} (different : m.functionIndices.Nodup)
    (bounded : ∀ i ∈ m.functionIndices, i < m.functionCount) :
    ∃ table, m.functionTable = .ok table := by
  rw [← map_index_functionRecords] at different bounded
  have free : ∀ r ∈ m.functionRecords,
      (List.replicate m.functionCount (none : Option FunctionRecord))[r.index]? = some none :=
    fun r hr => by simp [bounded _ (List.mem_map_of_mem hr)]
  obtain ⟨slots, hslots⟩ := exists_placeRecords free different
  exact ⟨slots.filterMap id, by simp [functionTable, hslots]⟩

/-- **The function table is the list of records in the order of their indices.** -/
theorem functionTable_eq_ok_iff {m : Module} {table : List FunctionRecord} :
    m.functionTable = .ok table ↔
      table.Perm m.functionRecords ∧ table.map (·.index) = List.range m.functionCount := by
  refine ⟨functionTable_spec, fun ⟨hperm, hrange⟩ => ?_⟩
  have hindices : m.functionIndices.Perm (List.range m.functionCount) := by
    rw [← map_index_functionRecords, ← hrange]
    exact (hperm.map (·.index)).symm
  have different : m.functionIndices.Nodup := hindices.nodup_iff.mpr List.nodup_range
  obtain ⟨table', htable⟩ := exists_functionTable different
    fun i hi => List.mem_range.mp (hindices.mem_iff.mp hi)
  obtain ⟨hperm', hrange'⟩ := functionTable_spec htable
  -- there is only one such list
  suffices table = table' by rw [htable, this]
  rw [← map_index_functionRecords] at different
  refine List.ext_getElem (by rw [hperm.length_eq, hperm'.length_eq]) fun i hi hi' => ?_
  have h₁ := (map_index_eq_range_iff.mp hrange).2 i _ (List.getElem?_eq_getElem hi)
  have h₂ := (map_index_eq_range_iff.mp hrange').2 i _ (List.getElem?_eq_getElem hi')
  exact List.inj_on_of_nodup_map different (hperm.mem_iff.mp (List.getElem_mem hi))
    (hperm'.mem_iff.mp (List.getElem_mem hi')) (h₁.trans h₂.symm)

/-- Every number below the size of the index space is the index of one function. -/
theorem functionIndices_perm_range {m : Module} {table : List FunctionRecord}
    (h : m.functionTable = .ok table) : m.functionIndices.Perm (List.range m.functionCount) := by
  obtain ⟨hperm, hrange⟩ := functionTable_spec h
  rw [← map_index_functionRecords, ← hrange]
  exact (hperm.map (·.index)).symm

/-- No two methods have one index. -/
theorem nodup_methodIndices_of_functionTable {m : Module} {table : List FunctionRecord}
    (h : m.functionTable = .ok table) : (m.methods.map (·.index)).Nodup := by
  have hindices : m.functionIndices.Nodup :=
    (functionIndices_perm_range h).nodup_iff.mpr List.nodup_range
  exact (List.nodup_append.mp hindices).2.1

/-- The table holds every function record at its index. -/
theorem getElem?_functionTable_iff {m : Module} {table : List FunctionRecord}
    (h : m.functionTable = .ok table) {i : Nat} {r : FunctionRecord} :
    table[i]? = some r ↔ r ∈ m.functionRecords ∧ r.index = i := by
  obtain ⟨hperm, hrange⟩ := functionTable_spec h
  have hindex := (map_index_eq_range_iff.mp hrange).2
  constructor
  · intro hi
    exact ⟨hperm.mem_iff.mp (List.mem_of_getElem? hi), hindex i r hi⟩
  · intro hr
    obtain ⟨j, hj⟩ := List.mem_iff_getElem?.mp (hperm.mem_iff.mpr hr.1)
    rw [← hr.2, hindex j r hj]
    exact hj

/-- The table has as many natives as the module. -/
theorem countP_isNative {m : Module} {table : List FunctionRecord}
    (h : m.functionTable = .ok table) :
    table.countP FunctionRecord.isNative = m.natives.length := by
  have hnatives : m.natives.countP (FunctionRecord.isNative ∘ .native) = m.natives.length :=
    List.countP_eq_length.mpr fun _ _ => rfl
  have hmethods : m.methods.countP (FunctionRecord.isNative ∘ .method) = 0 :=
    List.countP_eq_zero.mpr fun _ _ => Bool.false_ne_true
  rw [(functionTable_spec h).1.countP_eq, functionRecords, List.countP_append, List.countP_map,
    List.countP_map, hnatives, hmethods, Nat.add_zero]

end Module

end HashLink
