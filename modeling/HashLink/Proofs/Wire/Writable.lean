import HashLink.Proofs.Traversal
import HashLink.Proofs.Wire.RoundTrip
import Mathlib.Algebra.GroupWithZero.Nat

/-!
# What was read can be written

A number that comes off the wire has a form on the wire, though not always the form it was read
from. `Reader.Yields` carries such facts through a reader: what it gives on an input of at most
`limit` bytes has a property. The limit is there for pools, which are never longer than the input
they were cut out of.
-/

namespace HashLink

open Emission

variable {ε α β : Type} {limit : Nat}

namespace Reader

/-- On at most `limit` bytes, whatever the reader gives has a property. -/
def Yields (limit : Nat) (r : EStateM ε Cursor α) (P : α → Prop) : Prop :=
  ∀ c, c.remaining ≤ limit → ∀ a c', r c = .ok a c' → c'.remaining ≤ limit ∧ P a

theorem yields_pure {a : α} {P : α → Prop} (h : P a) :
    Yields limit (pure a : EStateM ε Cursor α) P := by
  intro c hc a' c' heq
  cases heq
  exact ⟨hc, h⟩

theorem yields_throw (e : ε) (P : α → Prop) :
    Yields limit (throw e : EStateM ε Cursor α) P := by
  intro c _ a c' heq
  cases heq

theorem Yields.bind {r : EStateM ε Cursor α} {f : α → EStateM ε Cursor β} {P : α → Prop}
    {Q : β → Prop} (h : Yields limit r P) (hf : ∀ a, P a → Yields limit (f a) Q) :
    Yields limit (r >>= f) Q := by
  intro c hc b c'' heq
  obtain ⟨a, c', hr, heq⟩ := exists_of_bind heq
  obtain ⟨hc', ha⟩ := h c hc a c' hr
  exact hf a ha c' hc' b c'' heq

theorem Yields.mono {r : EStateM ε Cursor α} {P Q : α → Prop} (h : Yields limit r P)
    (hPQ : ∀ a, P a → Q a) : Yields limit r Q := by
  intro c hc a c' heq
  obtain ⟨hc', ha⟩ := h c hc a c' heq
  exact ⟨hc', hPQ a ha⟩

theorem Yields.map {r : EStateM ε Cursor α} {f : α → β} {P : α → Prop} {Q : β → Prop}
    (h : Yields limit r P) (hPQ : ∀ a, P a → Q (f a)) :
    Yields limit (r >>= fun a => pure (f a)) Q :=
  h.bind fun a ha => yields_pure (hPQ a ha)

theorem yields_get : Yields limit (get : EStateM ε Cursor Cursor) fun c => c.remaining ≤ limit := by
  intro c hc a c' heq
  cases heq
  exact ⟨hc, hc⟩

theorem yields_position : Yields limit position fun _ => True :=
  yields_get.map fun _ _ => trivial

theorem yields_byte : Yields limit byte fun _ => True := by
  intro c hc a c' heq
  unfold byte at heq
  split at heq
  · cases heq
  · next b rest hrest =>
    cases heq
    rw [Cursor.remaining, hrest, List.length_cons] at hc
    exact ⟨Nat.le_of_succ_le hc, trivial⟩

theorem yields_take (n : Nat) :
    Yields limit (take n) fun bytes => bytes.length = n ∧ n ≤ limit := by
  intro c hc a c' heq
  unfold take at heq
  split at heq
  · next hn =>
    cases heq
    rw [Cursor.hasAtLeast_iff] at hn
    refine ⟨?_, List.length_take_of_le hn, Nat.le_trans hn hc⟩
    rw [Cursor.remaining, List.length_drop]
    exact Nat.le_trans (Nat.sub_le _ _) hc
  · cases heq

/-- What is read behind some bytes has that much less to read from. -/
theorem Yields.after_take {n : Nat} {f : List UInt8 → Reader β} {Q : β → Prop}
    (h : n ≤ limit → ∀ bytes, Yields (limit - n) (f bytes) Q) : Yields limit (take n >>= f) Q := by
  intro c hc b c'' heq
  rw [show (take n >>= f) c = EStateM.bind (take n) f c from rfl, EStateM.bind, take] at heq
  by_cases hn : c.hasAtLeast n = true
  · rw [if_pos hn] at heq
    rw [Cursor.hasAtLeast_iff] at hn
    have hleft : Cursor.remaining ⟨c.position + n, c.rest.drop n⟩ ≤ limit - n := by
      rw [Cursor.remaining, List.length_drop]
      exact Nat.sub_le_sub_right hc n
    obtain ⟨hc'', hb⟩ := h (Nat.le_trans hn hc) _ _ hleft b c'' heq
    exact ⟨Nat.le_trans hc'' (Nat.sub_le _ _), hb⟩
  · rw [if_neg hn] at heq
    cases heq

/-! ## Numbers -/

theorem yields_float64 : Yields limit float64 fun _ => True :=
  (yields_take 8).map fun _ _ => trivial

/-- A sign does not change the magnitude. -/
theorem natAbs_signed {n : Nat} (h : n < varintLimit) (bit : Nat) :
    (signed bit n).toInt.natAbs = n := by
  have hlimits : varintLimit < 2 ^ 31 := by decide
  have hn : (Int32.ofNat n).toInt = n := Int32.toInt_ofNat_of_lt (Nat.lt_trans h hlimits)
  unfold signed
  split
  · rw [hn, Int.natAbs_natCast]
  · have hneg : (-Int32.ofNat n).toInt = -(n : Int) := by
      rw [Int32.toInt_neg, hn, Int.bmod_eq_of_le] <;> omega
    rw [hneg, Int.natAbs_neg, Int.natAbs_natCast]

theorem natAbs_ofNat_lt {n : Nat} (h : n < varintLimit) :
    (Int32.ofNat n).toInt.natAbs < varintLimit := by
  rw [show Int32.ofNat n = signed 0 n from rfl, natAbs_signed h]
  exact h

/-- **A number that was read has a form.** -/
theorem yields_varint : Yields limit varint fun v => v.toInt.natAbs < varintLimit := by
  have hlimit : varintLimit = 0x20000000 := rfl
  refine yields_byte.bind fun first _ => ?_
  have hfirst := first.toNat_lt
  dsimp only
  split
  · exact yields_pure (natAbs_ofNat_lt (by omega))
  · have hsigned (n : Nat) (hn : n < varintLimit) :
        (signed (first.toNat / 32 % 2) n).toInt.natAbs < varintLimit := by
      rw [natAbs_signed hn]
      exact hn
    split
    · refine yields_byte.bind fun b _ => yields_pure (hsigned _ ?_)
      have := b.toNat_lt
      omega
    · refine yields_byte.bind fun b _ => yields_byte.bind fun c _ => yields_byte.bind fun d _ =>
        yields_pure (hsigned _ ?_)
      have := b.toNat_lt
      have := c.toNat_lt
      have := d.toNat_lt
      omega

theorem yields_index : Yields limit index fun n => n < varintLimit := by
  refine yields_position.bind fun offset _ => yields_varint.bind fun v hv => ?_
  split
  · exact yields_throw _ _
  · exact yields_pure (by omega)

/-- A count is a number, and no larger than what is left. -/
theorem yields_count : Yields limit count fun n => n < varintLimit ∧ n ≤ limit := by
  refine yields_position.bind fun offset _ => yields_index.bind fun n hn => ?_
  refine yields_get.bind fun c hc => ?_
  split
  · next h =>
    rw [Cursor.hasAtLeast_iff] at h
    exact yields_pure ⟨hn, Nat.le_trans h hc⟩
  · exact yields_throw _ _

/-! ## Lists -/

theorem Yields.times {r : Reader α} {P : α → Prop} (h : Yields limit r P) (n : Nat) :
    Yields limit (times n r) fun xs => xs.length = n ∧ ∀ x ∈ xs, P x := by
  induction n with
  | zero => exact yields_pure (by simp)
  | succ n ih =>
      refine h.bind fun x hx => ih.bind fun xs hxs => yields_pure ?_
      obtain ⟨hlen, hall⟩ := hxs
      exact ⟨by rw [List.length_cons, hlen], List.forall_mem_cons.mpr ⟨hx, hall⟩⟩

/-- Integers take four bytes each. -/
theorem yields_ints (n : Nat) :
    Yields limit (times n int32) fun ints => ints.length = n ∧ 4 * n ≤ limit := by
  induction n generalizing limit with
  | zero => exact yields_pure ⟨rfl, Nat.zero_le _⟩
  | succ n ih =>
      rw [times, int32, bind_assoc]
      refine Yields.after_take fun hlimit bytes => ?_
      rw [pure_bind]
      refine ih.map fun ints hints => ?_
      exact ⟨by rw [List.length_cons, hints.1], by omega⟩

theorem Yields.counted {r : Reader α} {P : α → Prop} (h : Yields limit r P) :
    Yields limit (counted r) fun xs => xs.length < varintLimit ∧ ∀ x ∈ xs, P x := by
  refine yields_count.bind fun n hn => (h.times n).mono fun xs hxs => ?_
  rw [hxs.1]
  exact ⟨hn.1, hxs.2⟩

/-! ## Pools -/

/-- A payload comes after the four bytes of its size. -/
theorem yields_poolPayload :
    Yields limit poolPayload fun payload => payload.length + 4 ≤ limit := by
  refine yields_position.bind fun offset _ => ?_
  rw [int32, bind_assoc]
  refine Yields.after_take fun hlimit bytes => ?_
  rw [pure_bind]
  split
  · exact yields_throw _ _
  · refine (yields_take _).mono fun payload h => ?_
    rw [h.1]
    omega

/-- How much room a string takes in a pool. -/
def textSize (s : String) : Nat := (utf8 s).length + 1

/-- The strings of a pool lie in its payload one after another; only the last terminator may
be missing. -/
theorem yields_cutStrings (base : Nat) (payload : List UInt8) (count index start : Nat)
    (hstart : start ≤ payload.length + 1) :
    Yields limit (cutStrings base payload count index start) fun texts =>
      texts.length = count ∧ (∀ text ∈ texts, (utf8 text).length < varintLimit) ∧
        start + (texts.map textSize).sum ≤ payload.length + 1 := by
  induction count generalizing index start with
  | zero => exact yields_pure ⟨rfl, by simp, hstart⟩
  | succ count ih =>
      rw [cutStrings]
      refine yields_index.bind fun length hlength => ?_
      dsimp only
      split
      · exact yields_throw _ _
      · next hstop =>
        have hstop : start + length ≤ payload.length := Nat.le_of_not_lt hstop
        split
        · next text htext =>
          have hsize : (utf8 text).length = length := by
            rw [utf8_of_ofUtf8? htext, List.length_take, List.length_drop]
            omega
          refine (ih (index + 1) (start + length + 1) (by omega)).map fun texts h => ?_
          obtain ⟨hcount, hlengths, hsum⟩ := h
          refine ⟨by rw [List.length_cons, hcount], ?_, ?_⟩
          · exact List.forall_mem_cons.mpr ⟨hsize ▸ hlength, hlengths⟩
          · rw [List.map_cons, List.sum_cons, textSize, hsize]
            omega
        · exact yields_throw _ _

/-- The strings of a pool take less room than what the pool was read from. -/
theorem yields_stringPool (count : Nat) :
    Yields limit (stringPool count) fun texts =>
      texts.length = count ∧ (∀ text ∈ texts, (utf8 text).length < varintLimit) ∧
        (texts.map textSize).sum < limit := by
  refine yields_position.bind fun offset _ => yields_poolPayload.bind fun payload hpayload => ?_
  refine (yields_cutStrings _ payload count 0 0 (Nat.zero_le _)).mono fun texts h => ?_
  exact ⟨h.1, h.2.1, by omega⟩

/-- The blocks of a pool do not overlap, and they start where the pool says. -/
theorem cutBlocks_spec {payload : List UInt8} {index : Nat} {starts : List Nat}
    {blocks : List (List UInt8)} (h : cutBlocks payload index starts = .ok blocks) :
    blocks.length = starts.length ∧
      starts.head?.getD payload.length + blocks.flatten.length ≤ payload.length ∧
      Output.blockStarts (starts.head?.getD payload.length) blocks = starts := by
  induction starts generalizing index blocks with
  | nil =>
      obtain rfl := Except.ok.inj h
      exact ⟨rfl, by simp, rfl⟩
  | cons start starts ih =>
      rw [cutBlocks] at h
      dsimp only at h
      split at h
      · cases h
      · next hbounds =>
        obtain ⟨rest, hrest, hblocks⟩ := bind_eq_ok_iff.mp h
        obtain rfl := Except.ok.inj hblocks
        obtain ⟨hlen, hsum, hstarts⟩ := ih hrest
        have hblock : ((payload.drop start).take
            (starts.head?.getD payload.length - start)).length =
            starts.head?.getD payload.length - start := by
          rw [List.length_take, List.length_drop]
          omega
        refine ⟨by rw [List.length_cons, List.length_cons, hlen], ?_, ?_⟩
        · rw [List.flatten_cons, List.length_append, hblock, List.head?_cons, Option.getD_some]
          omega
        · rw [List.head?_cons, Option.getD_some, Output.blockStarts, hblock,
            Nat.add_sub_cancel' (by omega), hstarts]

/-- Blocks are written from the start of their pool on, wherever they were read. -/
theorem blockStarts_add (start offset : Nat) (blocks : List (List UInt8)) :
    Output.blockStarts (start + offset) blocks =
      (Output.blockStarts start blocks).map (· + offset) := by
  induction blocks generalizing start with
  | nil => rfl
  | cons block blocks ih =>
      rw [Output.blockStarts, Output.blockStarts, List.map_cons, ← ih, Nat.add_right_comm]

theorem yields_bytesPool (count : Nat) :
    Yields limit (bytesPool count) fun blocks =>
      blocks.length = count ∧ blocks.flatten.length ≤ limit ∧
        ∀ start ∈ Output.blockStarts 0 blocks, start < varintLimit := by
  refine yields_poolPayload.bind fun payload hpayload => ?_
  refine (yields_index.times count).bind fun starts hstarts => ?_
  split
  · next blocks hblocks =>
    obtain ⟨hlen, hsum, hsame⟩ := cutBlocks_spec hblocks
    refine yields_pure ⟨by rw [hlen, hstarts.1], by omega, fun start hstart => ?_⟩
    -- the same blocks started further on where they were read
    generalize starts.head?.getD payload.length = base at hsame
    have hread : start + base ∈ starts := by
      rw [← hsame, ← Nat.zero_add base, blockStarts_add, Nat.zero_add]
      exact List.mem_map_of_mem (f := (· + base)) hstart
    have := hstarts.2 _ hread
    omega
  · exact yields_throw _ _

end Reader

/-! ## What pools can be written -/

namespace Output

theorem finishes_poolSize {size : Nat} (h : size < int32Limit) : (poolSize size).Finishes := by
  rw [poolSize, if_pos h]
  exact finishes_int32 _

theorem finishes_stringPool {strings : List String}
    (hsum : (strings.map Reader.textSize).sum < int32Limit)
    (hlength : ∀ s ∈ strings, (utf8 s).length < varintLimit) : (stringPool strings).Finishes := by
  have hpayload : ((strings.map utf8).flatMap (· ++ [0])).length =
      (strings.map Reader.textSize).sum := by
    rw [List.length_flatMap, List.map_map]
    exact congrArg List.sum (List.map_congr_left fun s _ => by simp [Reader.textSize])
  rw [← hpayload] at hsum
  unfold stringPool
  simp only [finishes_append, finishes_ofList, finishes_each, finishes_index, List.forall_mem_map]
  exact ⟨⟨finishes_poolSize hsum, trivial⟩, hlength⟩

theorem le_of_mem_blockStarts {start n : Nat} {blocks : List (List UInt8)}
    (h : n ∈ blockStarts start blocks) : n ≤ start + blocks.flatten.length := by
  induction blocks generalizing start with
  | nil => simp [blockStarts] at h
  | cons block blocks ih =>
      rw [List.flatten_cons, List.length_append]
      rcases List.mem_cons.mp h with rfl | h
      · omega
      · have := ih h
        omega

theorem finishes_bytesPool_of_starts {blocks : List (List UInt8)}
    (hsum : blocks.flatten.length < int32Limit)
    (hstarts : ∀ start ∈ blockStarts 0 blocks, start < varintLimit) :
    (bytesPool blocks).Finishes := by
  unfold bytesPool
  simp only [finishes_append, finishes_ofList, finishes_each, finishes_index]
  exact ⟨⟨finishes_poolSize hsum, trivial⟩, hstarts⟩

theorem finishes_bytesPool {blocks : List (List UInt8)} (h : blocks.flatten.length < varintLimit) :
    (bytesPool blocks).Finishes := by
  have hlimits : varintLimit < int32Limit := by decide
  refine finishes_bytesPool_of_starts (Nat.lt_trans h hlimits) fun n hn => ?_
  have := le_of_mem_blockStarts hn
  omega

end Output

end HashLink
