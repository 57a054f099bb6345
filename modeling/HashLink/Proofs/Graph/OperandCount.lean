import HashLink.Proofs.Code.Arity
import HashLink.Proofs.Code.InstructionCodec
import HashLink.Proofs.Graph.References

/-!
# How many operands resolving takes

The writer of instructions has a table of arities; resolving has none, it reads one operand for each
kind and then looks whether any are left. The two agree on every opcode but five. Calls of a known
function are one family to the resolver, so a call whose opcode says how many arguments it passes
resolves with any number of them, and the op has the opcode of that other number. The writer would
have refused the instruction.

Apart from these calls, an instruction with a wrong number of operands is refused for its number,
unless one of the operands that it does have stands for nothing: operands are read first, in order.
-/

namespace HashLink

/-- Calls that pass as many arguments as their opcode says. -/
def Opcode.isFixedCall : Opcode → Bool
  | .call0 | .call1 | .call2 | .call3 | .call4 => true
  | _ => false

/-! ## Two tables of arities -/

theorem Opcode.isOpenEnded_eq (o : Opcode) : o.isOpenEnded = (o.isCounted || o.isFixedCall) := by
  cases o <;> rfl

theorem Opcode.isPlainCall_of_isFixedCall {o : Opcode} (h : o.isFixedCall = true) :
    o.isPlainCall = true := by
  cases o <;> first | rfl | cases h

/-- The opcode of a call says how many operands it has. -/
theorem Opcode.fixed?_of_forCount {o : Opcode} {n : Nat} (h : o.isFixedCall = true)
    (hn : o.forCount n = o) : o.shape.fixed? = some n := by
  unfold forCount at hn
  rw [if_pos (isPlainCall_of_isFixedCall h)] at hn
  split at hn
  · rw [← hn]; rfl
  · rw [← hn]; rfl
  · rw [← hn]; rfl
  · rw [← hn]; rfl
  · rw [← hn]; rfl
  · rw [← hn] at h
    cases h

namespace Instruction

variable {i : Instruction}

/-- Where any number of operands can follow, two are enough. -/
theorem hasArity_iff_of_isOpenEnded (h : i.opcode.isOpenEnded = true) :
    i.HasArity ↔ 2 ≤ i.args.length := by
  have hfixed : i.opcode.shape.fixed? = some i.args.length → 2 ≤ i.args.length :=
    Opcode.two_le_fixed_of_isOpenEnded h i.args.length
  unfold HasArity
  simpa [h] using hfixed

/-- A call needs a result and a function. -/
theorem hasArity_of_isFixedCall (h : i.opcode.isFixedCall = true) :
    i.HasArity ↔ 2 ≤ i.args.length :=
  hasArity_iff_of_isOpenEnded (by rw [i.opcode.isOpenEnded_eq, h, Bool.or_true])

/-- Outside the calls, resolving and writing ask for the same numbers of operands. -/
theorem hasArity_iff_fitsOpcode (h : i.opcode.isFixedCall = false) :
    i.HasArity ↔ i.FitsOpcode := by
  have hopen := i.opcode.isOpenEnded_eq
  rw [h, Bool.or_false] at hopen
  cases hcounted : i.opcode.isCounted with
  | false =>
      unfold HasArity FitsOpcode
      simp [hopen, hcounted]
  | true =>
      rw [hasArity_iff_of_isOpenEnded (hopen.trans hcounted), FitsOpcode, if_pos hcounted]

/-- What is wrong with an instruction that has another number of operands than its opcode. -/
def countFault (i : Instruction) : Fault :=
  if i.args.length < i.opcode.leastArgs then .missingOperand i.opcode i.args.length
  else .trailingOperands i.opcode i.opcode.leastArgs i.args.length

/-- There are fewer operands than kinds, or as many kinds as the opcode has and more operands. -/
theorem kinds_of_not_hasArity (h : ¬i.HasArity) :
    (i.args.length < (i.opcode.opShape.kindsFor i.args.length).length ∧
        i.args.length < i.opcode.leastArgs) ∨
      (i.opcode.opShape.kindsFor i.args.length).length = i.opcode.leastArgs ∧
        i.opcode.leastArgs < i.args.length := by
  have hlength := mt i.length_kindsFor_iff.mp h
  cases hopen : i.opcode.isOpenEnded with
  | false =>
      obtain ⟨kinds, hshape, hop⟩ := Opcode.shape_of_not_isOpenEnded hopen
      have hleast : i.opcode.leastArgs = kinds.length := by
        rw [Opcode.leastArgs, hshape, Shape.fixed?, Option.getD_some]
      rw [hop, Shape.kindsFor] at hlength ⊢
      rw [hleast]
      omega
  | true =>
      -- nothing is too long here, so the instruction is short of its first two operands
      have hshort : i.args.length < 2 := by
        by_contra hlong
        exact h (.inr ⟨hopen, Nat.le_of_not_lt hlong⟩)
      have hleast : 2 ≤ i.opcode.leastArgs := by
        unfold Opcode.leastArgs
        cases hfixed : i.opcode.shape.fixed? with
        | none => exact Nat.le_refl 2
        | some n => exact Opcode.two_le_fixed_of_isOpenEnded hopen n hfixed
      refine .inl ⟨?_, Nat.lt_of_lt_of_le hshort hleast⟩
      rcases Opcode.opShape_of_isOpenEnded hopen with hop | ⟨first, second, hop⟩
      · simp only [hop, Shape.kindsFor, List.length_cons]
        omega
      · simp only [hop, Shape.kindsFor, List.length_append, List.length_cons]
        omega

end Instruction

/-! ## What stops the resolver -/

namespace Module

variable {m : Module} {opcode : Opcode} {kinds : List OperandKind} {raws : List Int32}

theorem length_le_of_resolveOperands {position : Nat} {operands : List Operand}
    (h : m.resolveOperands opcode position kinds raws = .ok operands) :
    kinds.length ≤ raws.length := by
  induction kinds generalizing position raws operands with
  | nil => exact Nat.zero_le _
  | cons kind kinds ih =>
      cases raws with
      | nil => cases h
      | cons raw raws =>
          rw [resolveOperands, bind_eq_ok_iff] at h
          obtain ⟨_, _, h⟩ := h
          rw [bind_eq_ok_iff] at h
          obtain ⟨_, hrest, _⟩ := h
          exact Nat.succ_le_succ (ih hrest)

/-- Reading stops at the first operand that stands for nothing; if there is none, it stops only when
the operands run out. -/
theorem resolveOperands_error (m : Module) (opcode : Opcode) (position : Nat)
    (kinds : List OperandKind) (raws : List Int32) :
    (∃ slot kind raw fault, kinds[slot]? = some kind ∧ raws[slot]? = some raw ∧
        m.resolveOperand opcode (position + slot) kind raw = .error fault ∧
        m.resolveOperands opcode position kinds raws = .error fault) ∨
      (∀ slot kind raw, kinds[slot]? = some kind → raws[slot]? = some raw →
        ∃ operand, m.resolveOperand opcode (position + slot) kind raw = .ok operand) ∧
      ∀ fault, m.resolveOperands opcode position kinds raws = .error fault →
        raws.length < kinds.length ∧ fault = .missingOperand opcode (position + raws.length) := by
  -- on the kinds, with the position moving along: the operands may end before the kinds do
  induction kinds generalizing position raws with
  | nil =>
      refine .inr ⟨fun slot kind raw hkind => ?_, fun fault h => ?_⟩
      · simp at hkind
      · cases h
  | cons kind kinds ih =>
      cases raws with
      | nil =>
          refine .inr ⟨fun slot kind raw _ hraw => ?_, fun fault h => ?_⟩
          · simp at hraw
          · exact ⟨by simp, (Except.error.inj h).symm⟩
      | cons raw raws =>
          rw [resolveOperands]
          cases hfirst : m.resolveOperand opcode position kind raw with
          | error fault => exact .inl ⟨0, kind, raw, fault, rfl, rfl, hfirst, rfl⟩
          | ok operand =>
              rw [ok_bind]
              rcases ih (position + 1) raws with ⟨slot, kind', raw', fault, hkind, hraw, hslot, hrest⟩ |
                ⟨hall, hends⟩
              · refine .inl ⟨slot + 1, kind', raw', fault, ?_, ?_, ?_, ?_⟩
                · exact hkind
                · exact hraw
                · rw [← hslot, Nat.add_comm slot 1, Nat.add_assoc]
                · rw [hrest, error_bind]
              · refine .inr ⟨fun slot kind' raw' hkind hraw => ?_, fun fault h => ?_⟩
                · cases slot with
                  | zero =>
                      obtain rfl := Option.some.inj hkind
                      obtain rfl := Option.some.inj hraw
                      exact ⟨operand, hfirst⟩
                  | succ slot =>
                      have hrest := hall slot kind' raw' hkind hraw
                      rwa [Nat.add_assoc, Nat.add_comm 1 slot] at hrest
                · rcases bind_eq_error_iff.mp h with h | ⟨_, _, h⟩
                  · obtain ⟨hlt, rfl⟩ := hends fault h
                    refine ⟨Nat.succ_lt_succ hlt, ?_⟩
                    rw [List.length_cons, Nat.add_assoc, Nat.add_comm 1]
                  · cases h

/-- An operand that an opcode has a place for, and that stands for nothing of the kind of the
place. -/
def OperandFault (m : Module) (i : Instruction) (fault : Fault) : Prop :=
  ∃ position raw, position < i.opcode.leastArgs ∧ i.args[position]? = some raw ∧
    m.resolveOperand i.opcode position (i.opcode.shape.kindAt position) raw = .error fault

/-- **A wrong number of operands never goes through.** The number is the fault, or an operand that was
read before the number showed. -/
theorem resolveInstruction_of_not_hasArity {i : Instruction} (h : ¬i.HasArity) :
    (m.resolveInstruction i = .error i.countFault ∧ ∀ fault, ¬m.OperandFault i fault) ∨
      ∃ fault, m.OperandFault i fault ∧ m.resolveInstruction i = .error fault := by
  have hcount := Instruction.kinds_of_not_hasArity h
  have hlength := mt i.length_kindsFor_iff.mp h
  rcases m.resolveOperands_error i.opcode 0 (i.opcode.opShape.kindsFor i.args.length) i.args with
    ⟨slot, kind, raw, fault, hkind, hraw, hslot, hstop⟩ | ⟨hall, hends⟩
  · -- an operand stands for nothing
    right
    have hslot_lt := (List.getElem?_eq_some_iff.mp hkind).1
    have hraw_lt := (List.getElem?_eq_some_iff.mp hraw).1
    refine ⟨fault, ⟨slot, raw, by omega, hraw, ?_⟩, ?_⟩
    · rw [Opcode.kindAt_of_kindsFor hkind, ← Nat.zero_add slot]
      exact hslot
    · unfold resolveInstruction
      dsimp only
      split
      · next fault' he => rw [Except.error.inj (he.symm.trans hstop)]
      · next operands he =>
        rw [hstop] at he
        cases he
  · -- every operand is in order, so what stops the resolver is their number
    left
    constructor
    · unfold resolveInstruction Instruction.countFault
      dsimp only
      split
      · next fault he =>
        obtain ⟨hlt, rfl⟩ := hends fault he
        rw [if_pos (by omega), Nat.zero_add]
      · next operands he =>
        have hle := length_le_of_resolveOperands he
        rw [dif_neg hlength, if_neg (by omega)]
        rcases hcount with ⟨hlt, _⟩ | ⟨heq, _⟩
        · omega
        · rw [heq]
    · intro fault hfault
      obtain ⟨position, raw, hposition, hraw, he⟩ := hfault
      have hraw_lt := (List.getElem?_eq_some_iff.mp hraw).1
      have hkind_lt : position < (i.opcode.opShape.kindsFor i.args.length).length := by omega
      have hkind := List.getElem?_eq_getElem hkind_lt
      obtain ⟨operand, hok⟩ := hall position _ raw hkind hraw
      rw [Nat.zero_add, ← Opcode.kindAt_of_kindsFor hkind, he] at hok
      cases hok

theorem hasArity_of_resolveInstruction {i : Instruction} {op : Op}
    (h : m.resolveInstruction i = .ok op) : i.HasArity := by
  obtain ⟨_, hkinds, hden⟩ := resolveInstruction_eq_ok_iff.mp h
  rw [← i.length_kindsFor_iff, ← hkinds, List.length_map, hden.length_eq]

/-- **Resolving and writing agree on the number of operands, but for calls that say it in their
opcode.** An instruction that resolves has a number of operands that the writer accepts, or it is such
a call with two operands or more, and the op is a call of another opcode. Every other instruction with
a number that the writer refuses is refused here as well: for its number, with what is missing or
too much, or for an operand that was read before. -/
theorem resolveInstruction_operandCount (m : Module) (i : Instruction) :
    ((Instruction.write i).error =
        some (.missingArguments i.opcode.name i.opcode.leastArgs i.args.length) ↔ ¬i.FitsOpcode) ∧
    (∀ op, m.resolveInstruction i = .ok op →
      i.FitsOpcode ∨
        i.opcode.isFixedCall = true ∧ 2 ≤ i.args.length ∧ op.opcode ≠ i.opcode) ∧
    (¬i.FitsOpcode → i.opcode.isFixedCall = false ∨ i.args.length < 2 →
      (m.resolveInstruction i = .error i.countFault ∧ ∀ fault, ¬m.OperandFault i fault) ∨
        ∃ fault, m.OperandFault i fault ∧ m.resolveInstruction i = .error fault) := by
  refine ⟨Instruction.error_write_eq_missingArguments_iff, ?_, ?_⟩
  · intro op hop
    have harity := hasArity_of_resolveInstruction hop
    cases hcall : i.opcode.isFixedCall with
    | false => exact .inl ((Instruction.hasArity_iff_fitsOpcode hcall).mp harity)
    | true =>
        have htwo := (Instruction.hasArity_of_isFixedCall hcall).mp harity
        -- a call that keeps its opcode has the operands that the opcode counts
        by_cases hsame : op.opcode = i.opcode
        · left
          rw [(resolveInstruction_eq_ok_iff.mp hop).1] at hsame
          have hcounted : i.opcode.isCounted = false := by
            generalize i.opcode = o at hcall
            cases o <;> first | rfl | cases hcall
          rw [Instruction.FitsOpcode, hcounted, if_neg Bool.false_ne_true]
          exact Opcode.fixed?_of_forCount hcall hsame
        · exact .inr ⟨rfl, htwo, hsame⟩
  · intro hfits hcall
    refine resolveInstruction_of_not_hasArity ?_
    rcases hcall with hcall | hshort
    · rwa [Instruction.hasArity_iff_fitsOpcode hcall]
    · cases hcall : i.opcode.isFixedCall with
      | false => rwa [Instruction.hasArity_iff_fitsOpcode hcall]
      | true =>
          rw [Instruction.hasArity_of_isFixedCall hcall]
          omega

end Module

/-- A program of one method, which calls itself and leaves out the argument it passes. -/
def hastyModule : Module where
  version := 5
  types := [.atom .i32, .callable .function ⟨[], 0⟩]
  methods := [⟨1, 0, [0], [⟨.call1, [0, 0]⟩], none, none⟩]

/-- An access to a field that is not named is refused for the operand it lacks, as the two that it
has are registers. -/
theorem operandCount_hastyModule :
    hastyModule.resolveInstruction ⟨.field, [0, 0]⟩ = .error (.missingOperand .field 2) := by
  rcases (hastyModule.resolveInstruction_operandCount ⟨.field, [0, 0]⟩).2.2 (by decide)
    (.inl rfl) with ⟨h, _⟩ | ⟨fault, ⟨position, raw, _, hraw, hfault⟩, _⟩
  · exact h
  · rcases position with _ | _ | position
    · cases Option.some.inj hraw
      cases hfault
    · cases Option.some.inj hraw
      cases hfault
    · simp at hraw

/-- The call of one argument that has none resolves to a call of no argument, which the writer would
have refused to write as it stands. -/
theorem exists_resolve_not_fitsOpcode :
    ∃ op, hastyModule.resolveInstruction ⟨.call1, [0, 0]⟩ = .ok op ∧ op.opcode = .call0 ∧
      ¬Instruction.FitsOpcode ⟨.call1, [0, 0]⟩ ∧
      (Instruction.write ⟨.call1, [0, 0]⟩).error = some (.missingArguments "Call1" 3 2) :=
  ⟨⟨.call0, [.register 0, .function 0], by decide⟩, by decide, rfl, by decide, by decide⟩

end HashLink
