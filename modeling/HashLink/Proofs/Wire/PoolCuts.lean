import HashLink.Proofs.Wire.VarintCodec

/-!
# Pools are cut inside their payload

A pool is read in two parts: a payload, and a trailer that says how to cut it. The trailer may hold
anything. Lengths of strings may go past the payload, and one more NUL is skipped than the payload
need have, so a string can start a byte behind its end. Starts of blocks may come in any order.

Two things are shown about what the readers do with it. They cut only where there is something to
cut: a reader that checks each cut before it is made (`CarefulReader`) is the same reader. And the
blocks of a pool are all of its payload from the first start on, in order and without overlap.
-/

namespace HashLink

open Emission

variable {α β : Type}

/-! ## Careful readers -/

/-- Why a careful reader stops. -/
inductive CutFault where
  /-- The input is at fault, as for any reader. -/
  | reported (e : DecodeError)
  /-- The reader is at fault: it was about to cut something that is not there. -/
  | outside (start stop size : Nat)
  deriving DecidableEq, Repr

/-- A reader that looks before it cuts. -/
abbrev CarefulReader := EStateM CutFault Cursor

namespace CarefulReader

/-- A reader that cuts nothing, as a careful one. -/
def ofReader (r : Reader α) : CarefulReader α := fun c =>
  match r c with
  | .ok a c => .ok a c
  | .error e c => .error (.reported e) c

/-- The bytes of a payload from `start` up to `stop`. -/
def slice (payload : List UInt8) (start stop : Nat) : CarefulReader (List UInt8) :=
  if start ≤ stop ∧ stop ≤ payload.length then
    pure ((payload.drop start).take (stop - start))
  else
    throw (.outside start stop payload.length)

/-- Cuts strings out of a payload with care. -/
def cutStrings (base : Nat) (payload : List UInt8) :
    (count index start : Nat) → CarefulReader (List String)
  | 0, _, _ => pure []
  | count + 1, index, start => do
    let stop := start + (← ofReader Reader.index)
    if payload.length < stop then
      throw (.reported (.poolEntryOutOfBounds index start stop payload.length))
    let some text := ofUtf8? (← slice payload start stop)
      | throw (.reported (.invalidUtf8 (base + start)))
    return text :: (← cutStrings base payload count (index + 1) (stop + 1))

/-- Reads a pool of `count` strings with care. -/
def stringPool (count : Nat) : CarefulReader (List String) := do
  let base := (← ofReader Reader.position) + 4
  cutStrings base (← ofReader Reader.poolPayload) count 0 0

/-- Cuts a payload at the given starts with care. -/
def cutBlocks (payload : List UInt8) : (index : Nat) → List Nat → CarefulReader (List (List UInt8))
  | _, [] => pure []
  | index, start :: starts => do
    let stop := starts.head?.getD payload.length
    if stop < start ∨ payload.length < stop then
      throw (.reported (.poolEntryOutOfBounds index start stop payload.length))
    let block ← slice payload start stop
    return block :: (← cutBlocks payload (index + 1) starts)

/-- Reads a pool of `count` byte blocks with care. -/
def bytesPool (count : Nat) : CarefulReader (List (List UInt8)) := do
  let payload ← ofReader Reader.poolPayload
  let starts ← ofReader (Reader.times count Reader.index)
  cutBlocks payload 0 starts

/-! ### The same readers -/

theorem ofReader_bind (r : Reader α) (f : α → Reader β) :
    ofReader (r >>= f) = ofReader r >>= fun a => ofReader (f a) := by
  funext c
  show ofReader (EStateM.bind r f) c = EStateM.bind (ofReader r) (fun a => ofReader (f a)) c
  unfold EStateM.bind ofReader
  dsimp only
  cases r c <;> rfl

theorem slice_of_le {payload : List UInt8} {start stop : Nat} (h : start ≤ stop)
    (h' : stop ≤ payload.length) :
    slice payload start stop = pure ((payload.drop start).take (stop - start)) := if_pos ⟨h, h'⟩

theorem cutStrings_eq (base : Nat) (payload : List UInt8) (count index start : Nat) :
    cutStrings base payload count index start =
      ofReader (Reader.cutStrings base payload count index start) := by
  induction count generalizing index start with
  | zero => rfl
  | succ count ih =>
      rw [cutStrings, Reader.cutStrings, ofReader_bind]
      refine congrArg _ (funext fun length => ?_)
      dsimp only
      by_cases hlength : payload.length < start + length
      · rw [if_pos hlength, if_pos hlength]
        rfl
      · -- the cut starts inside the payload too: it does not end before it starts
        rw [if_neg hlength, if_neg hlength, slice_of_le (Nat.le_add_right _ _) (by omega),
          pure_bind]
        cases ofUtf8? ((payload.drop start).take (start + length - start)) with
        | none => rfl
        | some text =>
            dsimp only
            rw [ofReader_bind, ih]
            rfl

theorem stringPool_eq (count : Nat) : stringPool count = ofReader (Reader.stringPool count) := by
  rw [stringPool, Reader.stringPool, ofReader_bind]
  refine congrArg _ (funext fun offset => ?_)
  dsimp only
  rw [ofReader_bind]
  exact congrArg _ (funext fun payload => cutStrings_eq (offset + 4) payload count 0 0)

theorem cutBlocks_eq (payload : List UInt8) (index : Nat) (starts : List Nat) :
    cutBlocks payload index starts =
      match Reader.cutBlocks payload index starts with
      | .ok blocks => pure blocks
      | .error e => throw (.reported e) := by
  induction starts generalizing index with
  | nil => rfl
  | cons start starts ih =>
      rw [cutBlocks, Reader.cutBlocks]
      dsimp only
      generalize starts.head?.getD payload.length = stop
      by_cases hbounds : stop < start ∨ payload.length < stop
      · rw [if_pos hbounds, if_pos hbounds]
        rfl
      · rw [if_neg hbounds, if_neg hbounds, slice_of_le (by omega) (by omega), pure_bind, ih]
        cases Reader.cutBlocks payload (index + 1) starts <;> rfl

theorem bytesPool_eq (count : Nat) : bytesPool count = ofReader (Reader.bytesPool count) := by
  rw [bytesPool, Reader.bytesPool, ofReader_bind]
  refine congrArg _ (funext fun payload => ?_)
  rw [ofReader_bind]
  refine congrArg _ (funext fun starts => ?_)
  rw [cutBlocks_eq]
  cases Reader.cutBlocks payload 0 starts <;> rfl

end CarefulReader

/-! ## Blocks -/

namespace Reader

/-- **Blocks are cut without loss**: one after another they are the payload from the first start
on. -/
theorem flatten_of_cutBlocks {payload : List UInt8} {index : Nat} {starts : List Nat}
    {blocks : List (List UInt8)} (h : cutBlocks payload index starts = .ok blocks) :
    blocks.flatten = payload.drop (starts.head?.getD payload.length) := by
  induction starts generalizing index blocks with
  | nil =>
      obtain rfl := Except.ok.inj h
      simp
  | cons start starts ih =>
      rw [cutBlocks] at h
      dsimp only at h
      split at h
      · cases h
      · next hbounds =>
        obtain ⟨rest, hrest, hblocks⟩ := bind_eq_ok_iff.mp h
        obtain rfl := Except.ok.inj hblocks
        generalize starts.head?.getD payload.length = stop at ih hbounds
        -- the next block starts where this one stops
        have hdrop : payload.drop stop = (payload.drop start).drop (stop - start) := by
          rw [List.drop_drop, Nat.add_sub_cancel' (by omega)]
        rw [List.flatten_cons, ih hrest, hdrop, List.take_append_drop, List.head?_cons,
          Option.getD_some]

theorem over_of_take {n : Nat} {c c' : Cursor} {bytes : List UInt8} (h : take n c = .ok bytes c') :
    bytes.length = n ∧ c.Over bytes c' := by
  unfold take at h
  split at h
  · next hn =>
    cases h
    rw [Cursor.hasAtLeast_iff] at hn
    have hlength : (c.rest.take n).length = n := List.length_take_of_le hn
    exact ⟨hlength, (List.take_append_drop n c.rest).symm, by rw [hlength]⟩
  · cases h

theorem decode_lt_capacity (bytes : List UInt8) :
    LittleEndian.decode bytes < LittleEndian.capacity bytes.length := by
  induction bytes with
  | nil => exact Nat.one_pos
  | cons b bytes ih =>
      have hb := b.toNat_lt
      rw [LittleEndian.decode, List.length_cons, LittleEndian.capacity]
      omega

/-- The payload of a pool lies behind four bytes that hold its length. -/
theorem over_of_poolPayload {c c' : Cursor} {payload : List UInt8}
    (h : poolPayload c = .ok payload c') :
    ∃ size, size.length = 4 ∧ LittleEndian.decode size = payload.length ∧
      c.Over (size ++ payload) c' := by
  obtain ⟨offset, c₀, hoffset, h⟩ := exists_of_bind h
  cases hoffset
  obtain ⟨value, c₁, hvalue, h⟩ := exists_of_bind h
  obtain ⟨size, c₂, hsize, hvalue⟩ := exists_of_bind hvalue
  cases hvalue
  obtain ⟨hfour, hover⟩ := over_of_take hsize
  have hbound := decode_lt_capacity size
  rw [hfour, show LittleEndian.capacity 4 = 2 ^ 32 from rfl] at hbound
  split at h
  · cases h
  · next hneg =>
    -- the four bytes are read as a signed number, which is the same where it is not negative
    have hsame := Int32.toNat_toUInt32_of_le (Int32.not_lt.mp hneg)
    rw [UInt32.toUInt32_toInt32, UInt32.toNat_ofNat', Nat.mod_eq_of_lt hbound] at hsame
    obtain ⟨hlength, hover'⟩ := over_of_take h
    refine ⟨size, hfour, hsame.trans hlength.symm, ?_, ?_⟩
    · rw [hover.rest, hover'.rest, List.append_assoc]
    · rw [hover'.position, hover.position, List.length_append, Nat.add_assoc]

/-- **How a pool of byte blocks lies in the input**: its payload behind the four bytes of its
length, and then the starts, which are those of the blocks one after another from the first start on. -/
theorem exists_layout_of_bytesPool {count : Nat} {c c' : Cursor} {blocks : List (List UInt8)}
    (hcount : 1 ≤ count) (h : bytesPool count c = .ok blocks c') :
    ∃ size payload starts first c₁, size.length = 4 ∧
      LittleEndian.decode size = payload.length ∧ c.Over (size ++ payload) c₁ ∧
      times count index c₁ = .ok starts c' ∧ starts.head? = some first ∧
      starts = Output.blockStarts first blocks ∧ blocks.length = count ∧
      first ≤ payload.length ∧ blocks.flatten = payload.drop first := by
  obtain ⟨payload, c₁, hpayload, h⟩ := exists_of_bind h
  obtain ⟨starts, c₂, hstarts, h⟩ := exists_of_bind h
  obtain ⟨size, hfour, hsize, hover⟩ := over_of_poolPayload hpayload
  obtain ⟨hlength, -⟩ := (yields_index.times count c₁ (Nat.le_refl _) starts c₂ hstarts).2
  cases hcut : cutBlocks payload 0 starts with
  | error e =>
      rw [hcut] at h
      cases h
  | ok blocks' =>
      rw [hcut] at h
      cases h
      obtain ⟨hblocks, hsum, hsame⟩ := cutBlocks_spec hcut
      have hflatten := flatten_of_cutBlocks hcut
      obtain ⟨first, hfirst⟩ : ∃ first, starts.head? = some first := by
        cases starts with
        | nil => rw [List.length_nil] at hlength; omega
        | cons first starts => exact ⟨first, rfl⟩
      rw [hfirst, Option.getD_some] at hsum hsame hflatten
      exact ⟨size, payload, starts, first, c₁, hfour, hsize, hover, hstarts, hfirst, hsame.symm,
        hblocks.trans hlength, by omega, hflatten⟩

end Reader

/-- **Pools are read back, and cut without loss and inside their payload.** A pool of strings or of
byte blocks that can be written is read back, whatever its entries hold and whatever follows it. If
any bytes are read as a pool of at least one block, the blocks are the payload from the first start
to its end, in order. And on no input does a reader of pools cut outside of the payload: a reader
that checks every cut gives the same answer, so nothing but the faults of the input is ever
reported. -/
theorem pools_cut_exactly :
    (∀ strings b, (Output.stringPool strings).toExcept = .ok b → ∀ position s,
      Reader.stringPool strings.length ⟨position, b ++ s⟩ =
        .ok strings ⟨position + b.length, s⟩) ∧
    (∀ blocks b, (Output.bytesPool blocks).toExcept = .ok b → ∀ position s,
      Reader.bytesPool blocks.length ⟨position, b ++ s⟩ =
        .ok blocks ⟨position + b.length, s⟩) ∧
    (∀ count c blocks c', 1 ≤ count → Reader.bytesPool count c = .ok blocks c' →
      ∃ size payload starts first c₁, size.length = 4 ∧
        LittleEndian.decode size = payload.length ∧ c.Over (size ++ payload) c₁ ∧
        Reader.times count Reader.index c₁ = .ok starts c' ∧ starts.head? = some first ∧
        starts = Output.blockStarts first blocks ∧ blocks.length = count ∧
        first ≤ payload.length ∧ blocks.flatten = payload.drop first) ∧
    (∀ count, CarefulReader.stringPool count = .ofReader (Reader.stringPool count)) ∧
    ∀ count, CarefulReader.bytesPool count = .ofReader (Reader.bytesPool count) := by
  refine ⟨?_, ?_, ?_, CarefulReader.stringPool_eq, CarefulReader.bytesPool_eq⟩
  · intro strings b hb
    exact (Reader.reads_stringPool strings).of_toExcept hb
  · intro blocks b hb
    exact (Reader.reads_bytesPool blocks).of_toExcept hb
  · intro count c blocks c' hcount h
    exact Reader.exists_layout_of_bytesPool hcount h

/-- An empty string, one with a NUL inside and one of two bytes for a single character. -/
def oddStrings : List String := ["", "a\x00b", "ß"]

/-- Blocks of which the first, one in the middle and the last are empty. -/
def oddBlocks : List (List UInt8) := [[], [1, 0], [], [2], []]

/-- A pool of three blocks, of which none starts with the payload and two start together. -/
def lateBlocks : List UInt8 := [5, 0, 0, 0, 9, 8, 7, 6, 5, 1, 4, 4]

theorem pools_cut_oddPools :
    (∃ b, (Output.stringPool oddStrings).toExcept = .ok b ∧ ∀ position s,
        Reader.stringPool oddStrings.length ⟨position, b ++ s⟩ =
          .ok oddStrings ⟨position + b.length, s⟩) ∧
      (∃ b, (Output.bytesPool oddBlocks).toExcept = .ok b ∧ ∀ position s,
        Reader.bytesPool oddBlocks.length ⟨position, b ++ s⟩ =
          .ok oddBlocks ⟨position + b.length, s⟩) ∧
      Reader.bytesPool 3 (.ofBytes lateBlocks) = .ok [[8, 7, 6], [], [5]] ⟨12, []⟩ ∧
      (∃ size payload first c₁, size.length = 4 ∧ LittleEndian.decode size = payload.length ∧
        (Cursor.ofBytes lateBlocks).Over (size ++ payload) c₁ ∧
        [[8, 7, 6], [], [5]].flatten = payload.drop first) ∧
      CarefulReader.bytesPool 3 (.ofBytes [1, 0, 0, 0, 9, 0, 2, 0]) =
        .error (.reported (.poolEntryOutOfBounds 0 0 2 1)) ⟨8, []⟩ := by
  have hstrings :
      (Output.stringPool oddStrings).toExcept = .ok (Output.stringPool oddStrings).items := rfl
  have hblocks :
      (Output.bytesPool oddBlocks).toExcept = .ok (Output.bytesPool oddBlocks).items := rfl
  have hlate : Reader.bytesPool 3 (.ofBytes lateBlocks) = .ok [[8, 7, 6], [], [5]] ⟨12, []⟩ := rfl
  obtain ⟨hback, hbackBlocks, hlayout, -, hcareful⟩ := pools_cut_exactly
  obtain ⟨size, payload, -, first, c₁, hfour, hsize, hover, -, -, -, -, -, hflatten⟩ :=
    hlayout 3 _ _ _ (by decide) hlate
  refine ⟨⟨_, hstrings, hback _ _ hstrings⟩, ⟨_, hblocks, hbackBlocks _ _ hblocks⟩, hlate,
    ⟨size, payload, first, c₁, hfour, hsize, hover, hflatten⟩, ?_⟩
  rw [hcareful]
  rfl

end HashLink
