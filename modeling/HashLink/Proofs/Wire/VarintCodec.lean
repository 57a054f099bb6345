import HashLink.Proofs.Wire.Writable

/-!
# The codec of variable-length integers is exact

A number has three forms on the wire, of one, two and four bytes, and the longer ones also hold what
would fit a shorter one: leading zeros are allowed, and so is a zero with a sign. The writer takes
the shortest form, and only magnitudes of 2^29 and more have none. The reader takes any form, so it
is not the inverse of the writer: what it took can be written again, but perhaps in fewer bytes.

Everything is said once for a writer and a reader of values of any kind (`ExactCodec`) and then
holds for signed numbers and for counts and indices alike.
-/

namespace HashLink

open Emission

/-- From one place in the input to another, over the given bytes. -/
structure Cursor.Over (c : Cursor) (used : List UInt8) (c' : Cursor) : Prop where
  rest : c.rest = used ++ c'.rest
  position : c'.position = c.position + used.length

theorem Cursor.over_mk (position : Nat) (used rest : List UInt8) :
    Cursor.Over ⟨position, used ++ rest⟩ used ⟨position + used.length, rest⟩ := ⟨rfl, rfl⟩

/-- A writer and a reader for the values that have a form. -/
structure ExactCodec {α : Type} (write : α → Output) (read : Reader α) (HasForm : α → Prop)
    (refusal : α → EncodeError) : Prop where
  /-- A value can be written exactly if it has a form. -/
  writes_iff : ∀ a, (∃ b, (write a).toExcept = .ok b) ↔ HasForm a
  /-- What is written goes behind what is there. -/
  appended : ∀ a b, (write a).toExcept = .ok b → ∀ buffer,
    ofList buffer ++ write a = ofList (buffer ++ b)
  /-- A value without a form is refused, and leaves what is there as it is. -/
  refused : ∀ a, ¬HasForm a → ∀ buffer, ofList buffer ++ write a = ⟨buffer, some (refusal a)⟩
  /-- What was written is read back, and nothing behind it is touched. -/
  reads_back : ∀ a b, (write a).toExcept = .ok b → ∀ position s,
    read ⟨position, b ++ s⟩ = .ok a ⟨position + b.length, s⟩
  /-- What was read has a form, and the one that is written for it is no longer. -/
  shortest : ∀ c a c', read c = .ok a c' → HasForm a ∧
    ∃ used b, c.Over used c' ∧ (write a).toExcept = .ok b ∧ b.length ≤ used.length

/-- A codec is exact if values without a form leave nothing, what is written is read back, and no
form is shorter than the written one. -/
theorem ExactCodec.of_reads {α : Type} {write : α → Output} {read : Reader α}
    {HasForm : α → Prop} {refusal : α → EncodeError}
    (hform : ∀ a, (write a).Finishes ↔ HasForm a)
    (hfail : ∀ a, ¬HasForm a → write a = .fail (refusal a))
    (hback : ∀ a, Reader.Reads read (write a) a)
    (hshort : ∀ c a c', read c = .ok a c' → HasForm a ∧
      ∃ used, c.Over used c' ∧ (write a).items.length ≤ used.length) :
    ExactCodec write read HasForm refusal where
  writes_iff a := by
    rw [← hform a]
    refine ⟨?_, fun hf => ⟨_, toExcept_eq_ok_iff.mpr ⟨hf, rfl⟩⟩⟩
    rintro ⟨b, hb⟩
    exact (toExcept_eq_ok_iff.mp hb).1
  appended a b hb buffer := by
    obtain ⟨hf, rfl⟩ := toExcept_eq_ok_iff.mp hb
    rw [append_def]
    exact congrArg (Emission.mk _) hf
  refused a ha buffer := by
    rw [hfail a ha, append_def]
    exact congrArg (Emission.mk · _) (List.append_nil buffer)
  reads_back a _ hb := (hback a).of_toExcept hb
  shortest c a c' h := by
    obtain ⟨ha, used, hover, hlength⟩ := hshort c a c' h
    exact ⟨ha, used, _, hover, toExcept_eq_ok_iff.mpr ⟨(hform a).mpr ha, rfl⟩, hlength⟩

/-! ## Lengths -/

/-- How many bytes the shortest form of a number takes. -/
def varintSize (value : Int32) : Nat :=
  if 0 ≤ value ∧ value.toInt.natAbs < 0x80 then 1
  else if value.toInt.natAbs < 0x2000 then 2
  else 4

theorem varintSize_le_two {value : Int32} (h : value.toInt.natAbs < 0x2000) :
    varintSize value ≤ 2 := by
  unfold varintSize
  split
  · omega
  · exact Nat.le_refl 2

theorem varintSize_le_four (value : Int32) : varintSize value ≤ 4 := by
  unfold varintSize
  split
  · omega
  · split <;> omega

theorem Output.length_varint {value : Int32} (h : value.toInt.natAbs < varintLimit) :
    (varint value).items.length = varintSize value := by
  unfold varint varintSize
  dsimp only
  split
  · rfl
  · split
    · rfl
    · rfl

theorem Output.error_varint {value : Int32} (h : ¬value.toInt.natAbs < varintLimit) :
    varint value = .fail (.varIntOutOfRange value.toInt) := by
  have hlimit : varintLimit = 0x20000000 := rfl
  unfold varint
  dsimp only
  rw [if_neg (by omega), if_neg (by omega), if_neg h]

/-! ## What was read -/

namespace Reader

/-- **A number takes at least the bytes of its shortest form**, in whatever form it was read. -/
theorem exists_used_of_varint {c c' : Cursor} {value : Int32} (h : varint c = .ok value c') :
    ∃ used, c.Over used c' ∧ varintSize value ≤ used.length := by
  obtain ⟨position, rest⟩ := c
  rcases rest with _ | ⟨a, rest⟩
  · cases h
  · -- the first byte says how many there are, and too few of them are an error
    by_cases hone : a.toNat < 0x80
    · rw [varint_one hone] at h
      cases h
      refine ⟨[a], Cursor.over_mk position [a] rest, ?_⟩
      have ha : (Int32.ofNat a.toNat).toInt = a.toNat := Int32.toInt_ofNat_of_lt (by omega)
      have hnonneg : 0 ≤ Int32.ofNat a.toNat := by
        rw [Int32.le_iff_toInt_le, ha, Int32.toInt_zero]
        omega
      rw [varintSize, if_pos ⟨hnonneg, by omega⟩]
      exact Nat.le_refl 1
    · by_cases htwo : a.toNat < 0xC0
      · rcases rest with _ | ⟨b, rest⟩
        · simp [varint, byte, bind, EStateM.bind, hone, htwo] at h
        · rw [varint_two hone htwo] at h
          cases h
          refine ⟨[a, b], Cursor.over_mk position [a, b] rest, varintSize_le_two ?_⟩
          have hb := b.toNat_lt
          have hmagnitude : a.toNat % 32 * 0x100 + b.toNat < 0x2000 := by omega
          rw [natAbs_signed (Nat.lt_trans hmagnitude (by decide))]
          exact hmagnitude
      · rcases rest with _ | ⟨b, _ | ⟨d, _ | ⟨e, rest⟩⟩⟩
        · simp [varint, byte, bind, EStateM.bind, hone, htwo] at h
        · simp [varint, byte, bind, EStateM.bind, hone, htwo] at h
        · simp [varint, byte, bind, EStateM.bind, hone, htwo] at h
        · rw [varint_four hone htwo] at h
          cases h
          exact ⟨[a, b, d, e], Cursor.over_mk position [a, b, d, e] rest, varintSize_le_four _⟩

/-- **A negative number is no index.** It is refused behind its bytes, with the place where it
starts. -/
theorem index_of_neg {c c' : Cursor} {value : Int32} (h : varint c = .ok value c')
    (hneg : value < 0) : index c = .error (.negativeIndex value c.position) c' := by
  refine (bind_of_ok (show position c = .ok c.position c from rfl)).trans ?_
  rw [bind_of_ok h, if_pos hneg]
  rfl

/-- An index is a number that is not negative. -/
theorem varint_of_index {c c' : Cursor} {n : Nat} (h : index c = .ok n c') :
    varint c = .ok (Int32.ofNat n) c' := by
  obtain ⟨offset, c₀, hoffset, h⟩ := exists_of_bind h
  cases hoffset
  obtain ⟨value, c₁, hvalue, h⟩ := exists_of_bind h
  split at h
  · cases h
  · next hneg =>
    cases h
    have hsame : Int32.ofNat value.toInt.toNat = value :=
      Int32.ofNat_toNatClampNeg value (Int32.not_lt.mp hneg)
    rw [hsame]
    exact hvalue

end Reader

/-! ## The two codecs -/

theorem Output.error_index {n : Nat} (h : ¬n < varintLimit) :
    index n = .fail (.varIntOutOfRange (asSigned64 n)) := by
  unfold index
  split
  · next hn =>
    have hvalue : (Int32.ofNat n).toInt = n := Int32.toInt_ofNat_of_lt hn
    have hlimit : int32Limit = 0x80000000 := rfl
    have hsame : asSigned64 n = n := Int.bmod_eq_of_le (by omega) (by omega)
    rw [error_varint (by rw [hvalue]; exact h), hvalue, hsame]
  · rfl

theorem exactCodec_varint :
    ExactCodec Output.varint Reader.varint (fun value => value.toInt.natAbs < 2 ^ 29)
      (fun value => .varIntOutOfRange value.toInt) := by
  refine .of_reads (fun _ => Output.finishes_varint) (fun _ => Output.error_varint)
    Reader.reads_varint ?_
  intro c value c' h
  have hform := (Reader.yields_varint c (Nat.le_refl _) value c' h).2
  obtain ⟨used, hover, hsize⟩ := Reader.exists_used_of_varint h
  refine ⟨hform, used, hover, ?_⟩
  rw [Output.length_varint hform]
  exact hsize

theorem exactCodec_index :
    ExactCodec Output.index Reader.index (fun n => n < 2 ^ 29)
      (fun n => .varIntOutOfRange (asSigned64 n)) := by
  refine .of_reads (fun _ => Output.finishes_index) (fun _ => Output.error_index)
    Reader.reads_index ?_
  intro c n c' h
  have hform := (Reader.yields_index c (Nat.le_refl _) n c' h).2
  obtain ⟨used, hover, hsize⟩ := Reader.exists_used_of_varint (Reader.varint_of_index h)
  refine ⟨hform, used, hover, ?_⟩
  have hlimits : varintLimit < int32Limit := by decide
  rw [Output.index, if_pos (Nat.lt_trans hform hlimits),
    Output.length_varint (Reader.natAbs_ofNat_lt hform)]
  exact hsize

/-- **The codec of variable-length integers is exact.** A signed number can be written exactly if
its magnitude is below 2^29, and a count or an index exactly if it is below 2^29. A refused number
leaves the output as it was. A written one goes behind what is there, and is read back whatever
follows it. Whatever bytes a number was read from, it is in range, and the writer takes no more
bytes for it. A negative number is never accepted as an index. -/
theorem varint_codec_exact :
    ExactCodec Output.varint Reader.varint (fun value => value.toInt.natAbs < 2 ^ 29)
        (fun value => .varIntOutOfRange value.toInt) ∧
      ExactCodec Output.index Reader.index (fun n => n < 2 ^ 29)
        (fun n => .varIntOutOfRange (asSigned64 n)) ∧
      ∀ c value c', Reader.varint c = .ok value c' → value < 0 →
        Reader.index c = .error (.negativeIndex value c.position) c' :=
  ⟨exactCodec_varint, exactCodec_index, fun _ _ _ h hneg => Reader.index_of_neg h hneg⟩

/-- A seven in four bytes, a zero with a sign, a negative number and the start of one more. -/
def looseNumbers : List UInt8 := [0xC0, 0, 0, 7, 0xA0, 0, 0xA1, 0x2C, 0x80]

theorem varint_codec_looseNumbers :
    Reader.varint ⟨0, looseNumbers⟩ = .ok 7 ⟨4, looseNumbers.drop 4⟩ ∧
      (∃ b, (Output.varint 7).toExcept = .ok b ∧ b.length ≤ 4) ∧
      Reader.index ⟨4, looseNumbers.drop 4⟩ = .ok 0 ⟨6, looseNumbers.drop 6⟩ ∧
      Reader.varint ⟨6, looseNumbers.drop 6⟩ = .ok (-300) ⟨8, [0x80]⟩ ∧
      Reader.index ⟨6, looseNumbers.drop 6⟩ = .error (.negativeIndex (-300) 6) ⟨8, [0x80]⟩ ∧
      (∀ buffer, .ofList buffer ++ Output.varint (-0x80000000) =
        ⟨buffer, some (.varIntOutOfRange (-0x80000000))⟩) ∧
      ∀ buffer, .ofList buffer ++ Output.index 0xFFFFFFFFFFFFFFFF =
        ⟨buffer, some (.varIntOutOfRange (-1))⟩ := by
  have hlong : Reader.varint ⟨0, looseNumbers⟩ = .ok 7 ⟨4, looseNumbers.drop 4⟩ := rfl
  have hneg : Reader.varint ⟨6, looseNumbers.drop 6⟩ = .ok (-300) ⟨8, [0x80]⟩ := rfl
  obtain ⟨hvarint, hindex, hrefused⟩ := varint_codec_exact
  obtain ⟨_, used, b, hover, hb, hshort⟩ := hvarint.shortest _ _ _ hlong
  have hused : used.length = 4 := by
    have hposition : 4 = 0 + used.length := hover.position
    omega
  refine ⟨hlong, ⟨b, hb, hused ▸ hshort⟩, rfl, hneg, hrefused _ _ _ hneg (by decide), ?_, ?_⟩
  · exact hvarint.refused _ (by decide)
  · exact hindex.refused _ (by decide)

end HashLink
