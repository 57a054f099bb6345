import HashLink.Code.Instruction
import HashLink.Proofs.Wire.RoundTrip
import HashLink.Proofs.Wire.Writable

/-!
# Instructions on the wire

Which layout an instruction has depends on its opcode only through its shape, so there are three
cases and not one for each opcode: the arguments alone, a counted list of registers behind fixed
arguments, and a table of branches. `Shape.Accepts` says for each of them how many arguments can be
written.
-/

namespace HashLink

/-- The numbers of arguments that can be written under a shape. -/
def Shape.Accepts : Shape → Nat → Prop
  | .exactly kinds, n => n = kinds.length
  | .withRegisters kinds, n => kinds.length ≤ n ∧ n - kinds.length < varintLimit
  | .branches, n => 2 ≤ n ∧ n - 2 < varintLimit

namespace Instruction

open Emission Reader

/-- The arguments of an instruction are read back under the shape of its opcode. -/
theorem reads_writeArgs (o : Opcode) (args : List Int32) :
    Reads (readArgs o.shape) (writeArgs o args) args := by
  unfold writeArgs
  dsimp only
  generalize o.shape = shape
  cases shape with
  | exactly kinds =>
      dsimp only
      split
      · next h =>
        rw [readArgs, ← h]
        exact Reads.times fun a _ => reads_varint a
      · exact fun hf => absurd hf (not_finishes_fail _)
  | withRegisters kinds =>
      dsimp only
      split
      · exact fun hf => absurd hf (not_finishes_fail _)
      · next h =>
        have hlength : (args.take kinds.length).length = kinds.length := by
          rw [List.length_take]; omega
        have hfixed := Reads.times fun a (_ : a ∈ args.take kinds.length) => reads_varint a
        rw [hlength] at hfixed
        have hregisters := (Reads.counted
          (fun a (_ : a ∈ args.drop kinds.length) => reads_varint a)
          fun a _ => Output.atLeast_varint a).map (args.take kinds.length ++ ·)
        rw [List.take_append_drop] at hregisters
        rw [append_assoc]
        exact hfixed.bind hregisters
  | branches =>
      dsimp only
      split
      · next selector target targets =>
        have hoffsets := Reads.counted
          (fun a (_ : a ∈ (target :: targets).dropLast) => reads_varint a)
          fun a _ => Output.atLeast_varint a
        have hlast := (reads_varint ((target :: targets).getLast (List.cons_ne_nil _ _))).map
          (selector :: (target :: targets).dropLast ++ [·])
        rw [List.cons_append, List.dropLast_concat_getLast] at hlast
        rw [append_assoc, append_assoc, ← append_assoc (Output.index _)]
        refine (reads_varint selector).bind ?_
        exact hoffsets.bind hlast
      · exact fun hf => absurd hf (not_finishes_fail _)

/-- **An instruction is read back.** -/
theorem reads_write (i : Instruction) : Reads read (write i) i := by
  have htag : (Int32.ofNat i.opcode.tag).toInt = i.opcode.tag :=
    Int32.toInt_ofNat_of_lt (Nat.lt_trans i.opcode.tag_lt (by decide))
  have hneg : ¬ Int32.ofNat i.opcode.tag < 0 := by
    rw [Int32.lt_iff_toInt_lt, htag, Int32.toInt_zero]
    omega
  refine Reads.position_bind fun _ => (reads_varint _).bind ?_
  rw [if_neg hneg, htag, Int.toNat_natCast, Opcode.ofTag?_tag]
  exact (reads_writeArgs i.opcode i.args).map (Instruction.mk i.opcode)

theorem atLeast_write (i : Instruction) : AtLeast 1 (write i) :=
  (Output.atLeast_varint _).left _

/-! ## What can be written -/

theorem finishes_writeArgs {o : Opcode} {args : List Int32} :
    (writeArgs o args).Finishes ↔
      (∀ a ∈ args, a.toInt.natAbs < varintLimit) ∧ o.shape.Accepts args.length := by
  unfold writeArgs
  dsimp only
  generalize o.shape = shape
  cases shape with
  | exactly kinds =>
      dsimp only [Shape.Accepts]
      by_cases h : args.length = kinds.length
      · simp [h]
      · simp [h]
  | withRegisters kinds =>
      dsimp only [Shape.Accepts]
      by_cases h : args.length < kinds.length
      · rw [if_pos h]
        simp only [not_finishes_fail, false_iff, not_and]
        intro _ hle
        omega
      · have hall : (∀ a ∈ args, a.toInt.natAbs < varintLimit) ↔
            (∀ a ∈ args.take kinds.length, a.toInt.natAbs < varintLimit) ∧
              ∀ a ∈ args.drop kinds.length, a.toInt.natAbs < varintLimit := by
          rw [← List.forall_mem_append, List.take_append_drop]
        rw [if_neg h, hall]
        simp only [finishes_append, finishes_each, Output.finishes_varint, Output.finishes_index,
          List.length_drop]
        have hle : kinds.length ≤ args.length := Nat.le_of_not_lt h
        tauto
  | branches =>
      dsimp only [Shape.Accepts]
      split
      · next selector target targets =>
        have hall : (∀ a ∈ target :: targets, a.toInt.natAbs < varintLimit) ↔
            (∀ a ∈ (target :: targets).dropLast, a.toInt.natAbs < varintLimit) ∧
              ((target :: targets).getLast (List.cons_ne_nil _ _)).toInt.natAbs < varintLimit := by
          conv_lhs => rw [← List.dropLast_concat_getLast (List.cons_ne_nil target targets)]
          rw [List.forall_mem_append]
          simp
        have hlength : (target :: targets).dropLast.length =
            (selector :: target :: targets).length - 2 := by
          simp
        rw [List.forall_mem_cons, hall]
        simp only [finishes_append, finishes_each, Output.finishes_varint, Output.finishes_index,
          hlength]
        have htwo : 2 ≤ (selector :: target :: targets).length := by simp
        tauto
      · next hshort =>
        simp only [not_finishes_fail, false_iff, not_and]
        intro _ htwo
        rcases args with _ | ⟨selector, _ | ⟨target, targets⟩⟩
        · simp at htwo
        · simp at htwo
        · exact absurd rfl (hshort selector target targets)

/-- **An instruction can be written exactly when its arguments are small and as many as its shape
accepts.** -/
theorem finishes_write {i : Instruction} :
    (write i).Finishes ↔
      (∀ a ∈ i.args, a.toInt.natAbs < varintLimit) ∧ i.opcode.shape.Accepts i.args.length := by
  have htag : (Int32.ofNat i.opcode.tag).toInt.natAbs < varintLimit :=
    natAbs_ofNat_lt (Nat.lt_trans i.opcode.tag_lt (by decide))
  rw [write, finishes_append, finishes_writeArgs, Output.finishes_varint]
  exact and_iff_right htag

theorem yields_readArgs {limit : Nat} (s : Shape) :
    Yields limit (readArgs s) fun args =>
      (∀ a ∈ args, a.toInt.natAbs < varintLimit) ∧ s.Accepts args.length := by
  cases s with
  | exactly kinds =>
      exact (yields_varint.times _).mono fun args h => ⟨h.2, h.1⟩
  | withRegisters kinds =>
      refine (yields_varint.times _).bind fun fixed hfixed => ?_
      refine yields_varint.counted.map fun registers hregisters => ?_
      refine ⟨List.forall_mem_append.mpr ⟨hfixed.2, hregisters.2⟩, ?_⟩
      have hlen := hregisters.1
      rw [Shape.Accepts, List.length_append, hfixed.1]
      omega
  | branches =>
      refine yields_varint.bind fun selector hselector => ?_
      refine yields_varint.counted.bind fun offsets hoffsets => ?_
      refine yields_varint.map fun otherwise hotherwise => ?_
      refine ⟨?_, ?_⟩
      · intro a ha
        rcases List.mem_append.mp ha with ha | ha
        · rcases List.mem_cons.mp ha with rfl | ha
          · exact hselector
          · exact hoffsets.2 a ha
        · rw [List.mem_singleton.mp ha]
          exact hotherwise
      · have hlen := hoffsets.1
        rw [Shape.Accepts]
        simp only [List.length_append, List.length_cons, List.length_nil]
        omega

theorem yields_read {limit : Nat} : Yields limit read fun i => (write i).Finishes := by
  refine yields_position.bind fun offset _ => yields_varint.bind fun tag _ => ?_
  dsimp only
  split
  · next opcode _ =>
    refine (yields_readArgs opcode.shape).map fun args h => ?_
    exact finishes_write.mpr h
  · exact yields_throw _ _

end Instruction

end HashLink
