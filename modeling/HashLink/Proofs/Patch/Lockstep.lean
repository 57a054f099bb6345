import HashLink.Proofs.Module.Growth
import HashLink.Proofs.Patch.InfiniteJumps
import HashLink.Proofs.Patch.Rollback

/-!
# The patch for infinite jumps in both modes, again and again

The patch runs any number of times on a module, and as often on the graph of the module. The run on
the module is told of the graph as it was in the beginning, and finds the getter there all the same.
The two runs stay in lockstep: neither form has been edited, or both have been (`Lockstep`). So every
repetition ends in the same way in both modes, and in the end the module resolves to the graph.

The edited module is verified if the module was. It has the register from the field load that was
replaced, and the index of a zero that is in its pool.
-/

namespace HashLink

/-- Two outcomes that differ at most in why a patch gave up. -/
inductive PatchOutcome.SameKind : PatchOutcome → PatchOutcome → Prop
  | applied : SameKind .applied .applied
  | reported : SameKind (.reported 1) (.reported 1)
  | failed (reason reason' : String) :
      SameKind (.rolledBack (.failed reason)) (.rolledBack (.failed reason'))

namespace Module

variable {m : Module} {f : Method} {i : Instruction} {position slot : Nat} {arg : Int32}

/-- A method without faults has none in an argument. -/
theorem argFault_of_methodFaults (h : m.methodFaults f = [])
    (hi : f.instructions[position]? = some i) (harg : i.args[slot]? = some arg) :
    m.argFault f position (i.opcode.shape.kindAt slot) arg = [] := by
  simp only [methodFaults, List.append_eq_nil_iff, List.flatMap_eq_nil_iff] at h
  have hfaults := h.1.2 (i, position) (List.mem_zipIdx_iff_getElem?.mpr hi)
  rw [instructionFaults, List.flatMap_eq_nil_iff] at hfaults
  exact hfaults (arg, slot) (List.mem_zipIdx_iff_getElem?.mpr harg)

end Module

namespace InfiniteJumps

variable {m m' : Module} {g g' : Graph} {s : Strategy} {id : Nat}

/-! ## The edited module -/

theorem map_index_modify_loadConstant (methods : List Method) (dst : Int32) (index place : Nat) :
    (methods.modify place (loadConstant dst index)).map (·.index) = methods.map (·.index) := by
  refine List.ext_getElem? fun j => ?_
  rw [List.getElem?_map, List.getElem?_map, List.getElem?_modify]
  cases methods[j]? with
  | none => rfl
  | some f =>
      by_cases hplace : place = j
      · simp only [hplace, if_true]
        rfl
      · simp only [hplace, if_false]
        rfl

theorem grows_loadZero (m : Module) (id : Nat) (dst : Int32) : m.Grows (loadZero m id dst) where
  version := rfl
  ints := (zeroIn_spec m.ints).1
  floats := List.prefix_refl _
  strings := List.prefix_refl _
  bytes := List.prefix_refl _
  debugFiles := List.prefix_refl _
  types := rfl
  globals := rfl
  natives := rfl
  methodIndices := map_index_modify_loadConstant ..
  constants := rfl
  entrypoint := rfl

/-- The load of a zero has no fault where the register has none. -/
theorem instructionFaults_loadZero (hfew : m.ints.length < int32Limit) {f : Method}
    {position : Nat} {dst : Int32}
    (hdst : (loadZero m id dst).argFault f position .register dst = []) :
    (loadZero m id dst).instructionFaults f ⟨.int, [dst, Int32.ofNat (zeroIn m.ints).1]⟩ position =
      [] := by
  obtain ⟨_, hzero, hindex, _⟩ := zeroIn_spec m.ints
  have hlt : (zeroIn m.ints).1 < int32Limit := Nat.lt_of_le_of_lt hindex hfew
  have hint : (loadZero m id dst).argFault f position .int (Int32.ofNat (zeroIn m.ints).1) = [] := by
    refine Module.operandFault_eq_nil_iff.mpr ⟨Int32.not_lt.mp (ofNat_not_neg hlt), ?_⟩
    rw [toInt_ofNat_of_lt hlt, Int.toNat_natCast]
    exact (List.getElem?_eq_some_iff.mp hzero).1
  rw [Module.instructionFaults, List.flatMap_eq_nil_iff]
  intro x hx
  simp only [List.zipIdx_cons, List.zipIdx_nil, List.mem_cons, List.not_mem_nil, or_false] at hx
  rcases hx with rfl | rfl
  · exact hdst
  · exact hint

/-- **The patch breaks nothing that verification looks at.** -/
theorem verify_editModule (hfew : m.ints.length < int32Limit) (hverify : m.verify = .ok ()) :
    (editModule g m).verify = .ok () := by
  cases htarget : rawTarget? g m with
  | none => rwa [editModule_of_rawTarget?_eq_none htarget]
  | some edit =>
      obtain ⟨id, dst⟩ := edit
      obtain ⟨_, f, i, hf, hi, hload⟩ := rawTarget?_eq_some_iff.mp htarget
      have hgrows := grows_loadZero m id dst
      simp only [editModule, htarget]
      refine hgrows.verify (fun hall f' hf' => ?_) hverify
      rcases mem_modify hf' with hsame | ⟨before, hbefore, rfl⟩
      · exact hgrows.methodFaults f' (hall f' hsame)
      · -- the method of the getter, which has a field load in the place
        obtain rfl : f = before := by
          rw [← List.find?_eq_getElem?_findIdx] at hbefore
          exact Option.some.inj (hf.symm.trans hbefore)
        have hmethod := hgrows.methodFaults f (hall f (List.mem_of_find?_eq_some hf))
        unfold rawFieldLoad? at hload
        split at hload
        · next hfield =>
          rw [List.head?_eq_getElem?] at hload
          have hdst := Module.argFault_of_methodFaults hmethod hi hload
          rw [hfield] at hdst
          exact Module.methodFaults_set hmethod (instructionFaults_loadZero hfew hdst)
        · cases hload

/-! ## One repetition -/

theorem Ends.sameKind {getter target : Bool} {outcome outcome' : PatchOutcome}
    (h : Ends getter target outcome) (h' : Ends getter target outcome') :
    outcome.SameKind outcome' := by
  cases h with
  | absent =>
      cases h'
      exact .reported
  | replaced =>
      cases h'
      exact .applied
  | unexpected reason =>
      cases h' with
      | unexpected reason' => exact .failed reason reason'

/-- Where two runs can be that started from a module and from its graph. -/
inductive Lockstep (m : Module) (g : Graph) : Module → Graph → Prop
  | before : Lockstep m g m g
  | after : Lockstep m g (editModule g m) (editGraph g)

namespace Lockstep

/-- **A repetition on both sides leads from lockstep to lockstep.** The module is edited by the graph
of the beginning. -/
theorem step (h : Lockstep m g m' g') : Lockstep m g (editModule g m') (editGraph g') := by
  cases h with
  | before => exact .after
  | after =>
      rw [editModule_editModule, editGraph_editGraph]
      exact .after

/-- There is a load to replace on both sides or on none. -/
theorem isSome_target? (hresolve : m.resolve s = .ok g) (h : Lockstep m g m' g') :
    (target? g').isSome = (rawTarget? g m').isSome := by
  cases h with
  | before =>
      cases hraw : rawTarget? g m with
      | none =>
          rw [target?_eq_none hresolve hraw]
          rfl
      | some edit =>
          obtain ⟨dst, htarget, _⟩ := exists_target? hresolve hraw
          rw [htarget]
          rfl
  | after =>
      rw [target?_editGraph, rawTarget?_editModule]
      rfl

theorem findGetter?_eq (h : Lockstep m g m' g') : findGetter? g' = findGetter? g := by
  cases h with
  | before => rfl
  | after => exact findGetter?_editGraph g

/-- **A repetition ends in the same way on both sides.** -/
theorem sameKind (hresolve : m.resolve s = .ok g) (h : Lockstep m g m' g') :
    (patch.raw g m').outcome.SameKind (patch.resolved m g').outcome := by
  have hraw := (raw_spec g m').2
  have hresolved := (resolved_spec m g').2
  rw [h.findGetter?_eq, h.isSome_target? hresolve] at hresolved
  exact hraw.sameKind hresolved

theorem resolve (hfew : m.ints.length < int32Limit) (hresolve : m.resolve s = .ok g)
    (h : Lockstep m g m' g') (s' : Strategy) : m'.resolve s' = .ok g' := by
  cases h with
  | before => exact Module.resolve_eq_ok_iff.mpr (Module.resolve_eq_ok_iff.mp hresolve)
  | after => exact resolve_editModule hfew hresolve

theorem verify (hfew : m.ints.length < int32Limit) (hverify : m.verify = .ok ())
    (h : Lockstep m g m' g') : m'.verify = .ok () := by
  cases h with
  | before => exact hverify
  | after => exact verify_editModule hfew hverify

/-! ## Any number of repetitions -/

/-- **Two runs that are in lockstep stay in lockstep, and end in the same way at every repetition.** -/
theorem run (hresolve : m.resolve s = .ok g) (h : Lockstep m g m' g') (source : String) (k : Nat) :
    List.Forall₂ (fun o o' => o.2.SameKind o'.2)
        (Program.applyAll .raw ⟨m', g⟩ (List.replicate k ⟨source, patch⟩)).outcomes
        (Program.applyAll .resolved ⟨m, g'⟩ (List.replicate k ⟨source, patch⟩)).outcomes ∧
      Lockstep m g
        (Program.applyAll .raw ⟨m', g⟩ (List.replicate k ⟨source, patch⟩)).program.module
        (Program.applyAll .resolved ⟨m, g'⟩ (List.replicate k ⟨source, patch⟩)).program.graph := by
  -- the graph that the raw run sees and the module that the resolved run sees never change
  induction k generalizing m' g' with
  | zero => exact ⟨.nil, h⟩
  | succ k ih =>
      simp only [List.replicate_succ, Program.applyAll, Program.apply, kept_raw, kept_resolved]
      obtain ⟨houtcomes, hend⟩ := ih h.step
      exact ⟨.cons (h.sameKind hresolve) houtcomes, hend⟩

end Lockstep

/-- **Patching a module and resolving it is resolving it and patching the graph, however often the
patch is applied.** Each application ends in the same way in both modes, and a verified module stays
one. -/
theorem patch_commutes_with_resolve (hfew : m.ints.length < 2 ^ 31) (h : m.resolve s = .ok g)
    (source : String) (k : Nat) :
    let patches : List SourcedPatch := List.replicate k ⟨source, patch⟩
    let raw := Program.applyAll .raw ⟨m, g⟩ patches
    let resolved := Program.applyAll .resolved ⟨m, g⟩ patches
    raw.outcomes.length = k ∧
      List.Forall₂ (fun o o' => o.2.SameKind o'.2) raw.outcomes resolved.outcomes ∧
      (∀ s', raw.program.module.resolve s' = .ok resolved.program.graph) ∧
      (m.verify = .ok () → raw.program.module.verify = .ok ()) := by
  intro patches raw resolved
  obtain ⟨houtcomes, hend⟩ := Lockstep.before.run h source k
  refine ⟨?_, houtcomes, hend.resolve hfew h, hend.verify hfew⟩
  have hsources := congrArg List.length (@Program.sources_applyAll .raw ⟨m, g⟩ patches)
  simpa [patches] using hsources

end InfiniteJumps

/-- A jumper whose getter can be patched once. There is a one in the pool, but no zero. -/
def jumperModule : Module where
  version := 5
  ints := [1]
  strings := ["Jumper", "airJumps", "get_airJumps"]
  types := [.atom .i32, .object .object ⟨0, -1, 0, [⟨1, 0⟩], [⟨2, 0, -1⟩], []⟩,
            .callable .function ⟨[1], 0⟩]
  methods := [⟨2, 0, [1, 0], [⟨.int, [1, 0]⟩, ⟨.label, []⟩, ⟨.field, [1, 0, 0]⟩, ⟨.ret, [1]⟩], none,
               none⟩]

/-- The patch, to be applied twice. -/
def patchTwice : List SourcedPatch := List.replicate 2 ⟨"jumps.so", InfiniteJumps.patch⟩

/-- Of two applications the second one finds no field load, in either mode. -/
theorem patch_commutes_jumperModule :
    ∃ g, jumperModule.resolve .sequential = .ok g ∧
      let raw := Program.applyAll .raw ⟨jumperModule, g⟩ patchTwice
      let resolved := Program.applyAll .resolved ⟨jumperModule, g⟩ patchTwice
      raw.outcomes.map (·.2.isKept) = [true, false] ∧ raw.program.module.ints = [1, 0] ∧
        List.Forall₂ (fun o o' => o.2.SameKind o'.2) raw.outcomes resolved.outcomes ∧
        (∀ s, raw.program.module.resolve s = .ok resolved.program.graph) ∧
        raw.program.module.verify = .ok () := by
  have hrun : ∃ g, jumperModule.resolve .sequential = .ok g ∧
      (Program.applyAll .raw ⟨jumperModule, g⟩ patchTwice).outcomes.map (·.2.isKept) =
        [true, false] ∧
      (Program.applyAll .raw ⟨jumperModule, g⟩ patchTwice).program.module.ints = [1, 0] :=
    ⟨_, rfl, rfl, rfl⟩
  obtain ⟨g, hresolve, hkept, hints⟩ := hrun
  obtain ⟨_, houtcomes, hcommutes, hverify⟩ :=
    InfiniteJumps.patch_commutes_with_resolve (by decide) hresolve "jumps.so" 2
  exact ⟨g, hresolve, hkept, hints, houtcomes, hcommutes, hverify rfl⟩

end HashLink
