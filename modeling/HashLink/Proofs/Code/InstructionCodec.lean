import HashLink.Proofs.Code.InstructionWire

/-!
# The codec of instructions is exact

An instruction has a form on the wire exactly when its arguments are as many as its opcode has room
for and each of them has a form, and when the length of a counted list has one too. How many
arguments an opcode has room for is said twice: by opcode (`Instruction.FitsOpcode`), which is how a
caller knows it, and by layout (`Shape.Takes`), which is how the writer checks it.

Reading has no conditions of its own. What was written is read back up to its last byte, and what
was read, from the writer's bytes or from others, can be written.
-/

namespace HashLink

/-! ## Numbers of arguments -/

/-- Whether a count on the wire says how many arguments there are. -/
def Opcode.isCounted : Opcode → Bool
  | .switch | .callN | .callMethod | .callThis | .callClosure | .makeEnum => true
  | _ => false

/-- The least number of arguments. A table of branches has a selector and the branch taken
otherwise. -/
def Opcode.leastArgs (o : Opcode) : Nat := o.shape.fixed?.getD 2

/-- The numbers of arguments that a layout has room for. -/
def Shape.Takes : Shape → Nat → Prop
  | .exactly kinds, n => n = kinds.length
  | .withRegisters kinds, n => kinds.length ≤ n
  | .branches, n => 2 ≤ n

theorem Opcode.shape_of_isCounted {o : Opcode} (h : o.isCounted = true) :
    o.shape = .branches ∨ ∃ first second, o.shape = .withRegisters [first, second] := by
  cases o <;> first | exact absurd h (by decide) | exact .inl rfl | exact .inr ⟨_, _, rfl⟩

theorem Opcode.shape_of_not_isCounted {o : Opcode} (h : o.isCounted = false) :
    ∃ kinds, o.shape = .exactly kinds := by
  cases o <;> first | exact absurd h (by decide) | exact ⟨_, rfl⟩

namespace Instruction

/-- An instruction has at least two arguments where their number is on the wire, and otherwise the
number that its opcode always has. -/
def FitsOpcode (i : Instruction) : Prop :=
  if i.opcode.isCounted then 2 ≤ i.args.length else i.opcode.shape.fixed? = some i.args.length

instance (i : Instruction) : Decidable i.FitsOpcode :=
  inferInstanceAs (Decidable
    (if i.opcode.isCounted then 2 ≤ i.args.length else i.opcode.shape.fixed? = some i.args.length))

theorem fitsOpcode_iff {i : Instruction} : i.FitsOpcode ↔ i.opcode.shape.Takes i.args.length := by
  unfold FitsOpcode
  cases hcounted : i.opcode.isCounted with
  | true =>
      rw [if_pos rfl]
      rcases Opcode.shape_of_isCounted hcounted with hshape | ⟨first, second, hshape⟩
      · rw [hshape, Shape.Takes]
      · rw [hshape]
        exact Iff.rfl
  | false =>
      obtain ⟨kinds, hshape⟩ := Opcode.shape_of_not_isCounted hcounted
      rw [if_neg Bool.false_ne_true, hshape, Shape.fixed?, Option.some.injEq, eq_comm, Shape.Takes]

/-- The arguments that a count on the wire goes before: the registers behind the fixed arguments, or
the branches of a table without the one taken otherwise. -/
def counted (i : Instruction) : List Int32 :=
  match i.opcode.shape with
  | .exactly _ => []
  | .withRegisters kinds => i.args.drop kinds.length
  | .branches => i.args.tail.dropLast

theorem accepts_iff {i : Instruction} :
    i.opcode.shape.Accepts i.args.length ↔ i.FitsOpcode ∧ i.counted.length < varintLimit := by
  rw [fitsOpcode_iff]
  unfold counted
  cases i.opcode.shape with
  | exactly kinds =>
      have hempty : ([] : List Int32).length < varintLimit := by decide
      simp only [Shape.Accepts, Shape.Takes, hempty, and_true]
  | withRegisters kinds => simp only [Shape.Accepts, Shape.Takes, List.length_drop]
  | branches =>
      have hlength : i.args.tail.dropLast.length = i.args.length - 2 := by
        rw [List.length_dropLast, List.length_tail]
        omega
      simp only [Shape.Accepts, Shape.Takes, hlength]

end Instruction

/-! ## Why the writer stops -/

namespace Output

open Emission

theorem stopsOnly_varint (value : Int32) :
    StopsOnly (fun e => ∃ value, e = .varIntOutOfRange value) (varint value) := by
  unfold varint
  dsimp only
  split
  · exact (finishes_ofList _).stopsOnly
  · split
    · exact (finishes_ofList _).stopsOnly
    · split
      · exact (finishes_ofList _).stopsOnly
      · intro e he
        exact ⟨value.toInt, (Option.some.inj he).symm⟩

theorem stopsOnly_index (n : Nat) :
    StopsOnly (fun e => ∃ value, e = .varIntOutOfRange value) (index n) := by
  unfold index
  split
  · exact stopsOnly_varint _
  · intro e he
    exact ⟨asSigned64 n, (Option.some.inj he).symm⟩

end Output

namespace Instruction

open Emission Reader

/-- With a number of arguments that fits, only the size of a number can be in the way. -/
theorem stopsOnly_write {i : Instruction} (h : i.FitsOpcode) :
    StopsOnly (fun e => ∃ value, e = .varIntOutOfRange value) (write i) := by
  refine (Output.stopsOnly_varint _).append ?_
  have hargs (args : List Int32) := StopsOnly.each fun a (_ : a ∈ args) => Output.stopsOnly_varint a
  rw [fitsOpcode_iff] at h
  unfold writeArgs
  dsimp only
  cases hshape : i.opcode.shape with
  | exactly kinds =>
      rw [hshape, Shape.Takes] at h
      dsimp only
      rw [if_pos h]
      exact hargs _
  | withRegisters kinds =>
      rw [hshape, Shape.Takes] at h
      dsimp only
      rw [if_neg (Nat.not_lt.mpr h)]
      exact ((hargs _).append (Output.stopsOnly_index _)).append (hargs _)
  | branches =>
      rw [hshape, Shape.Takes] at h
      dsimp only
      split
      · exact (((Output.stopsOnly_varint _).append (Output.stopsOnly_index _)).append
          (hargs _)).append (Output.stopsOnly_varint _)
      · next hshort =>
        rcases hlist : i.args with _ | ⟨selector, _ | ⟨target, targets⟩⟩
        · simp [hlist] at h
        · simp [hlist] at h
        · exact absurd hlist (hshort selector target targets)

/-- With any other number of arguments the writer stops behind the opcode, because of that number. -/
theorem error_write_of_not_fitsOpcode {i : Instruction} (h : ¬i.FitsOpcode) :
    (write i).error =
      some (.missingArguments i.opcode.name i.opcode.leastArgs i.args.length) := by
  have htag : (Output.varint (Int32.ofNat i.opcode.tag)).error = none :=
    Output.finishes_varint.mpr (natAbs_ofNat_lt (Nat.lt_trans i.opcode.tag_lt (by decide)))
  rw [fitsOpcode_iff] at h
  rw [write, error_append, htag, Option.none_or]
  unfold writeArgs Opcode.leastArgs
  dsimp only
  cases hshape : i.opcode.shape with
  | exactly kinds =>
      rw [hshape, Shape.Takes] at h
      dsimp only
      rw [if_neg h]
      rfl
  | withRegisters kinds =>
      rw [hshape, Shape.Takes] at h
      dsimp only
      rw [if_pos (Nat.lt_of_not_le h)]
      rfl
  | branches =>
      rw [hshape, Shape.Takes] at h
      dsimp only
      split
      · next hargs => simp [hargs] at h
      · rfl

/-- **The writer refuses a number of arguments exactly when it does not fit the opcode.** -/
theorem error_write_eq_missingArguments_iff {i : Instruction} :
    (write i).error =
      some (.missingArguments i.opcode.name i.opcode.leastArgs i.args.length) ↔ ¬i.FitsOpcode := by
  refine ⟨fun herror hfits => ?_, error_write_of_not_fitsOpcode⟩
  obtain ⟨_, he⟩ := stopsOnly_write hfits _ herror
  cases he

/-! ## There and back -/

theorem finishes_write_iff {i : Instruction} :
    (write i).Finishes ↔
      i.FitsOpcode ∧ (∀ a ∈ i.args, a.toInt.natAbs < varintLimit) ∧
        i.counted.length < varintLimit := by
  rw [finishes_write, accepts_iff]
  exact and_left_comm

theorem read_of_toExcept {i : Instruction} {b : List UInt8} (h : (write i).toExcept = .ok b)
    (position : Nat) (s : List UInt8) :
    read ⟨position, b ++ s⟩ = .ok i ⟨position + b.length, s⟩ :=
  (reads_write i).of_toExcept h position s

theorem finishes_of_read {i : Instruction} {c c' : Cursor} (h : read c = .ok i c') :
    (write i).Finishes :=
  (yields_read c (Nat.le_refl _) i c' h).2

/-- **The codec of instructions is exact.** An instruction can be written if and only if the number of
its arguments fits its opcode, every argument has a magnitude below 2^29, and the counted list has
fewer than 2^29 entries. What was written is read back and nothing behind it is touched. Whatever was
read, wherever it came from, can be written and is then read back. -/
theorem codec_exact (i : Instruction) :
    ((∃ b, (write i).toExcept = .ok b) ↔
      i.FitsOpcode ∧ (∀ a ∈ i.args, a.toInt.natAbs < 2 ^ 29) ∧ i.counted.length < 2 ^ 29) ∧
    (∀ b, (write i).toExcept = .ok b →
      ∀ position s, read ⟨position, b ++ s⟩ = .ok i ⟨position + b.length, s⟩) ∧
    ∀ c c', read c = .ok i c' →
      ∃ b, (write i).toExcept = .ok b ∧
        ∀ position s, read ⟨position, b ++ s⟩ = .ok i ⟨position + b.length, s⟩ := by
  have hwritten : (write i).Finishes → (write i).toExcept = .ok (write i).items :=
    fun hf => toExcept_eq_ok_iff.mpr ⟨hf, rfl⟩
  have hfinishes : (∃ b, (write i).toExcept = .ok b) ↔ (write i).Finishes :=
    ⟨fun ⟨_, hb⟩ => (toExcept_eq_ok_iff.mp hb).1, fun hf => ⟨_, hwritten hf⟩⟩
  refine ⟨?_, fun b hb => read_of_toExcept hb, ?_⟩
  · rw [hfinishes]
    exact finishes_write_iff
  · intro c c' hread
    have hb := hwritten (finishes_of_read hread)
    exact ⟨_, hb, read_of_toExcept hb⟩

end Instruction

/-- A table of three branches, one of them backwards and one as far away as a branch can be. -/
def farSwitch : Instruction := ⟨.switch, [4, 1, -3, 0x1FFFFFFF, 9]⟩

/-- The table with its selector and its backward branch in longer forms than the writer gives them. -/
def longhandSwitch : List UInt8 :=
  [70, 0x80, 4, 3, 1, 0xE0, 0, 0, 3, 0xDF, 0xFF, 0xFF, 0xFF, 9]

theorem codec_exact_farSwitch :
    farSwitch.FitsOpcode ∧
      (∃ b, (Instruction.write farSwitch).toExcept = .ok b ∧ b.length = 11 ∧
        ∀ position s, Instruction.read ⟨position, b ++ s⟩ = .ok farSwitch ⟨position + b.length, s⟩) ∧
      Instruction.read (.ofBytes longhandSwitch) = .ok farSwitch ⟨14, []⟩ ∧
      ∃ b, (Instruction.write farSwitch).toExcept = .ok b ∧
        ∀ position s, Instruction.read ⟨position, b ++ s⟩ =
          .ok farSwitch ⟨position + b.length, s⟩ := by
  have hfits : farSwitch.FitsOpcode := by decide
  have hwritten : (Instruction.write farSwitch).toExcept = .ok (Instruction.write farSwitch).items :=
    rfl
  have hread : Instruction.read (.ofBytes longhandSwitch) = .ok farSwitch ⟨14, []⟩ := rfl
  obtain ⟨_, hback, hagain⟩ := Instruction.codec_exact farSwitch
  exact ⟨hfits, ⟨_, hwritten, by decide, hback _ hwritten⟩, hread, hagain _ _ hread⟩

end HashLink
