import HashLink.Code.Instruction
import HashLink.Code.Op

/-!
# Kinds and numbers of operands

Two tables say of what kind an operand is: the layout of an opcode, by the place of the argument,
and the kinds of the op that an instruction stands for, for all arguments at once. Only the second
knows that calls are a family. They agree wherever both say something
(`Opcode.kindAt_of_kindsFor`), and an instruction has as many arguments as its op has kinds exactly
when it has the arity of its opcode.
-/

namespace HashLink

namespace Opcode

/-- Whether any number of operands can follow the first two. For calls of a known function this is
so because they are one family, whatever their opcodes. -/
def isOpenEnded : Opcode → Bool
  | .switch | .call0 | .call1 | .call2 | .call3 | .call4 | .callN | .callMethod | .callThis
  | .callClosure | .makeEnum => true
  | _ => false

theorem opShape_of_isOpenEnded {o : Opcode} (h : o.isOpenEnded = true) :
    o.opShape = .branches ∨ ∃ first second, o.opShape = .withRegisters [first, second] := by
  cases o <;> first | exact absurd h (by decide) | exact .inl rfl | exact .inr ⟨_, _, rfl⟩

theorem two_le_fixed_of_isOpenEnded {o : Opcode} (h : o.isOpenEnded = true) :
    ∀ n ∈ o.shape.fixed?, 2 ≤ n := by
  cases o <;> first | exact absurd h (by decide) | decide

theorem shape_of_not_isOpenEnded {o : Opcode} (h : o.isOpenEnded = false) :
    ∃ kinds, o.shape = .exactly kinds ∧ o.opShape = .exactly kinds := by
  cases o <;> first | exact absurd h (by decide) | exact ⟨_, rfl, rfl⟩

theorem shape_of_isPlainCall {o : Opcode} (h : o.isPlainCall = true) :
    o.shape = callN.shape ∨ ∃ n, o.shape = callShape n := by
  cases o <;> first | exact absurd h (by decide) | exact .inl rfl | exact .inr ⟨_, rfl⟩

theorem kindAt_callShape (n position : Nat) :
    (callShape n).kindAt position = callN.shape.kindAt position := by
  rcases position with _ | _ | position
  · rfl
  · rfl
  · -- from the third operand on there are registers only
    have hrest : (List.replicate n OperandKind.register)[position]?.getD .register = .register := by
      rw [List.getElem?_replicate]
      split <;> rfl
    simp only [callShape, shape, Shape.kindAt, List.getElem?_cons_succ, List.getElem?_nil,
      Option.getD_none]
    exact hrest

/-- The family of a call has the kinds of each of its members. -/
theorem kindAt_opShape (o : Opcode) (position : Nat) :
    o.opShape.kindAt position = o.shape.kindAt position := by
  by_cases h : o.isPlainCall
  · rw [opShape, if_pos h]
    rcases shape_of_isPlainCall h with hshape | ⟨n, hshape⟩
    · rw [hshape]
    · rw [hshape, kindAt_callShape]
  · rw [opShape, if_neg h]

end Opcode

theorem Shape.kindAt_of_kindsFor {s : Shape} {n position : Nat} {kind : OperandKind}
    (h : (s.kindsFor n)[position]? = some kind) : s.kindAt position = kind := by
  cases s with
  | exactly kinds => simp_all [kindsFor, kindAt]
  | withRegisters kinds =>
      rw [kindsFor, List.getElem?_append] at h
      simp only [kindAt]
      split at h
      · rw [h]
        rfl
      · next hge =>
        obtain ⟨_, rfl⟩ : _ ∧ OperandKind.register = kind := by
          simpa [List.getElem?_replicate] using h
        rw [List.getElem?_eq_none (by omega)]
        rfl
  | branches =>
      unfold kindAt
      rcases position with _ | _ | position
      · simpa [kindsFor] using h
      · simpa [kindsFor] using h
      · obtain ⟨_, rfl⟩ : _ ∧ OperandKind.offset = kind := by
          simpa [kindsFor, List.getElem?_replicate] using h
        rfl

/-- **The kinds of an op are the kinds that the opcode's layout gives the arguments.** -/
theorem Opcode.kindAt_of_kindsFor {o : Opcode} {n position : Nat} {kind : OperandKind}
    (h : (o.opShape.kindsFor n)[position]? = some kind) : o.shape.kindAt position = kind := by
  rw [← kindAt_opShape]
  exact Shape.kindAt_of_kindsFor h

/-- An instruction has the operands that its opcode always has, or at least two where any number can
follow. -/
def Instruction.HasArity (i : Instruction) : Prop :=
  i.opcode.shape.fixed? = some i.args.length ∨ i.opcode.isOpenEnded = true ∧ 2 ≤ i.args.length

instance (i : Instruction) : Decidable i.HasArity := inferInstanceAs (Decidable (_ ∨ _))

theorem Instruction.length_kindsFor_iff (i : Instruction) :
    (i.opcode.opShape.kindsFor i.args.length).length = i.args.length ↔ i.HasArity := by
  unfold HasArity
  cases h : i.opcode.isOpenEnded with
  | false =>
      obtain ⟨kinds, hshape, hop⟩ := Opcode.shape_of_not_isOpenEnded h
      simp [hshape, hop, Shape.kindsFor, Shape.fixed?]
  | true =>
      have hfixed : i.opcode.shape.fixed? = some i.args.length → 2 ≤ i.args.length :=
        Opcode.two_le_fixed_of_isOpenEnded h i.args.length
      have hlength : (i.opcode.opShape.kindsFor i.args.length).length =
          2 + (i.args.length - 2) := by
        rcases Opcode.opShape_of_isOpenEnded h with hop | ⟨first, second, hop⟩
        · simp only [hop, Shape.kindsFor, List.length_cons, List.length_replicate]
          omega
        · simp only [hop, Shape.kindsFor, List.length_append, List.length_cons, List.length_nil,
            List.length_replicate]
      rw [hlength]
      constructor
      · intro he
        exact .inr ⟨rfl, by omega⟩
      · intro he
        rcases he with he | ⟨_, he⟩
        · have := hfixed he
          omega
        · omega

end HashLink
