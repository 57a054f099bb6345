import HashLink.Module.Verify
import HashLink.Proofs.Graph.Resolved

/-!
# One index space for natives and methods

Verification and resolving both look at the indices of functions before anything else, and in
different ways: one remembers the indices that it has seen, the other fills slots. They come to the same
verdict, down to the index that they complain about (`SameVerdict`), because at every record the filled
slots are those of the indices that came before.

What they accept are the numbers from zero on, each of them once. So every number belongs to one
record, the function table has no holes, and function `i` of a resolved program is what the record with
index `i` stands for (`Module.functionIndices_shared`).
-/

namespace HashLink

/-! ## The same verdict -/

/-- Both find nothing wrong, or the first fault of one is the fault of the other. -/
inductive SameVerdict {α : Type} : List VerifyError → Except Fault α → Prop
  | accepted (a : α) : SameVerdict [] (.ok a)
  | gap (index count : Nat) (rest : List VerifyError) :
      SameVerdict (.functionIndexGap index count :: rest) (.error (.functionIndexGap index count))
  | duplicate (index : Nat) (rest : List VerifyError) :
      SameVerdict (.duplicateFunction index :: rest) (.error (.duplicateFunction index))

theorem SameVerdict.map {α β : Type} {faults : List VerifyError} {x : Except Fault α}
    (h : SameVerdict faults x) (f : α → β) : SameVerdict faults (do return f (← x)) := by
  cases h with
  | accepted a => exact .accepted (f a)
  | gap index count rest => exact .gap index count rest
  | duplicate index rest => exact .duplicate index rest

theorem SameVerdict.eq_nil_iff {α : Type} {faults : List VerifyError} {x : Except Fault α}
    (h : SameVerdict faults x) : faults = [] ↔ ∃ a, x = .ok a := by
  cases h <;> simp

/-- One record after another: what is filled is what was seen. -/
theorem sameVerdict_placeRecords {slots : List (Option FunctionRecord)}
    {done : List FunctionRecord} (rest : List FunctionRecord)
    (hfree : ∀ i < slots.length, slots[i]? = some none ↔ i ∉ done.map (·.index)) :
    SameVerdict
      (((rest.map (·.index)).zipIdx done.length).flatMap fun (index, i) =>
        if slots.length ≤ index then [.functionIndexGap index slots.length]
        else if index ∈ ((done ++ rest).map (·.index)).take i then [.duplicateFunction index]
        else [])
      (placeRecords slots rest) := by
  induction rest generalizing slots done with
  | nil => exact .accepted slots
  | cons r rest ih =>
      have hseen : ((done ++ r :: rest).map (·.index)).take done.length = done.map (·.index) := by
        simp
      rw [List.map_cons, List.zipIdx_cons, List.flatMap_cons, placeRecords]
      dsimp only
      rw [hseen]
      cases hslot : slots[r.index]? with
      | none =>
          rw [if_pos (List.getElem?_eq_none_iff.mp hslot)]
          exact .gap r.index slots.length _
      | some slot =>
          have hlt : r.index < slots.length := (List.getElem?_eq_some_iff.mp hslot).1
          rw [if_neg (Nat.not_le_of_lt hlt)]
          cases slot with
          | some other =>
              have hmem : r.index ∈ done.map (·.index) := by
                refine Decidable.of_not_not fun hnew => ?_
                have := (hfree r.index hlt).mpr hnew
                simp [hslot] at this
              rw [if_pos hmem]
              exact .duplicate r.index _
          | none =>
              have hnext : ∀ i < (slots.set r.index (some r)).length,
                  (slots.set r.index (some r))[i]? = some none ↔
                    i ∉ (done ++ [r]).map (·.index) := by
                intro i hi
                rw [List.length_set] at hi
                rw [List.map_append, List.mem_append, not_or, ← hfree i hi, List.getElem?_set]
                by_cases hri : r.index = i
                · simp [hri, hi]
                · simp [hri, Ne.symm hri]
              rw [if_neg ((hfree r.index hlt).mp hslot), List.nil_append]
              simpa only [List.length_set, List.length_append, List.length_singleton,
                List.append_assoc, List.singleton_append] using ih hnext

namespace Module

variable {m : Module}

/-- **Verification and resolving say the same of the function indices.** -/
theorem sameVerdict (m : Module) : SameVerdict m.functionIndexFaults m.functionTable := by
  have hfree : ∀ i < (List.replicate m.functionCount (none : Option FunctionRecord)).length,
      (List.replicate m.functionCount (none : Option FunctionRecord))[i]? = some none ↔
        i ∉ ([] : List FunctionRecord).map (·.index) := by
    intro i hi
    rw [List.length_replicate] at hi
    simp [hi]
  have h := sameVerdict_placeRecords m.functionRecords hfree
  rw [List.length_replicate, List.nil_append, map_index_functionRecords] at h
  exact h.map (·.filterMap id)

/-! ## What is accepted -/

/-- The indices are accepted exactly when they are the numbers from zero on, each of them once. -/
theorem exists_functionTable_iff :
    (∃ table, m.functionTable = .ok table) ↔
      m.functionIndices.Perm (List.range m.functionCount) := by
  constructor
  · intro h
    obtain ⟨table, h⟩ := h
    exact functionIndices_perm_range h
  · intro h
    exact exists_functionTable (h.nodup_iff.mpr List.nodup_range)
      fun i hi => List.mem_range.mp (h.mem_iff.mp hi)

theorem isSome_findNative?_iff {i : Nat} :
    (m.findNative? i).isSome ↔ i ∈ m.natives.map (·.index) := by
  simp [findNative?]

theorem isSome_findMethod?_iff {i : Nat} :
    (m.findMethod? i).isSome ↔ i ∈ m.methods.map (·.index) := by
  simp [findMethod?]

/-- Every number below the size of the index space is the index of a native or of a method, and of
one of them only. -/
theorem exactly_one_found (h : m.functionIndices.Perm (List.range m.functionCount)) {i : Nat}
    (hi : i < m.functionCount) : (m.findNative? i).isSome = !(m.findMethod? i).isSome := by
  have hsplit : i ∈ m.natives.map (·.index) ∨ i ∈ m.methods.map (·.index) :=
    List.mem_append.mp (h.mem_iff.mpr (List.mem_range.mpr hi))
  have hdisjoint := (List.nodup_append.mp (h.nodup_iff.mpr List.nodup_range)).2.2
  rw [Bool.eq_iff_iff, isSome_findNative?_iff, Bool.not_eq_true', Bool.eq_false_iff, ne_eq,
    isSome_findMethod?_iff]
  constructor
  · intro hnative hmethod
    exact hdisjoint i hnative i hmethod rfl
  · exact hsplit.resolve_right

/-! ## The functions of a resolved program -/

/-- A function of a resolved program, and the one record with its index. -/
inductive Provides (m : Module) (g : Graph) (i : Nat) : Prop
  | native {n : Native} {lib name : String} (found : m.findNative? i = some n)
      (alone : m.findMethod? i = none) (lib_eq : m.strings[n.lib]? = some lib)
      (name_eq : m.strings[n.name]? = some name)
      (function : g.functions[i]? = some ⟨n.type, .native lib name⟩)
  | method {f : Method} {r : Routine} (found : m.findMethod? i = some f)
      (alone : m.findNative? i = none)
      (function : g.functions[i]? = some ⟨f.type, .method r⟩) (registers : r.registers = f.registers)
      (code : List.Forall₂ (fun i op => m.resolveInstruction i = .ok op) f.instructions r.ops)

theorem provides_of_resolve {s : Strategy} {g : Graph} {i : Nat} (h : m.resolve s = .ok g)
    (hi : i < m.functionCount) : m.Provides g i := by
  obtain ⟨table, _, htable, _⟩ := resolve_functions h
  have hone := exactly_one_found (functionIndices_perm_range htable) hi
  cases hmethod : m.findMethod? i with
  | some f =>
      have hmem : FunctionRecord.method f ∈ m.functionRecords :=
        method_mem_functionRecords_iff.mpr (List.mem_of_find?_eq_some hmethod)
      obtain rfl : f.index = i := by simpa using List.find?_some hmethod
      obtain ⟨function, hfunction, hresolved⟩ := exists_function_of_mem h hmem
      rw [hmethod] at hone
      cases hresolved with
      | method typed registers registers_eq code =>
          exact .method hmethod (by simpa using hone) hfunction registers_eq (mapM_eq_ok_iff.mp code)
  | none =>
      rw [hmethod] at hone
      obtain ⟨n, hnative⟩ := Option.isSome_iff_exists.mp hone
      have hmem : FunctionRecord.native n ∈ m.functionRecords := by
        simpa [functionRecords] using List.mem_of_find?_eq_some hnative
      obtain rfl : n.index = i := by simpa using List.find?_some hnative
      obtain ⟨function, hfunction, hresolved⟩ := exists_function_of_mem h hmem
      cases hresolved with
      | native typed lib_eq name_eq => exact .native hnative hmethod lib_eq name_eq hfunction

/-- **Natives and methods share one index space.** Verification and resolving refuse the same modules
for the same reason, accept exactly those whose function indices are the numbers from zero on, and then
every number belongs to one record and to the function that the record stands for. -/
theorem functionIndices_shared (m : Module) :
    SameVerdict m.functionIndexFaults m.functionTable ∧
    (∀ e ∈ m.functionIndexFaults.head?, m.verify = .error e) ∧
    (∀ fault, m.functionTable = .error fault → ∀ s, m.resolve s = .error ⟨none, fault⟩) ∧
    (m.functionIndexFaults = [] ↔ m.functionIndices.Perm (List.range m.functionCount)) ∧
    (∀ table, m.functionTable = .ok table →
      placeRecords (List.replicate m.functionCount none) m.functionRecords = .ok (table.map some) ∧
      ∀ i < m.functionCount, (m.findNative? i).isSome = !(m.findMethod? i).isSome) ∧
    (∀ s g, m.resolve s = .ok g →
      g.functions.length = m.functionCount ∧ ∀ i < m.functionCount, m.Provides g i) := by
  refine ⟨m.sameVerdict, fun e he => ?_, fun fault h s => ?_, ?_, fun table h => ?_, fun s g h => ?_⟩
  · obtain ⟨rest, hfaults⟩ := List.head?_eq_some_iff.mp he
    simp only [verify, faults, hfaults, List.cons_append]
  · simp [resolve, h, unlocated]
  · rw [m.sameVerdict.eq_nil_iff, exists_functionTable_iff]
  · obtain ⟨slots, hslots, htable⟩ := bind_eq_ok_iff.mp h
    obtain rfl : slots.filterMap id = table := by simpa using htable
    refine ⟨?_, fun i hi => exactly_one_found (functionIndices_perm_range h) hi⟩
    rw [hslots, ← (slots_full hslots).2]
  · exact ⟨length_functions h, fun i hi => provides_of_resolve h hi⟩

end Module

end HashLink
