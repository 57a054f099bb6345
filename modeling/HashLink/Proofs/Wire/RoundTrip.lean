import HashLink.Proofs.Wire.Emission
import HashLink.Wire.Pool

/-!
# Reading back what was written

A reader reads a value back from a writer when it gives the value on whatever the writer wrote and
stops exactly where the writer did, whatever follows. The property composes: a reader that runs two
readers in a row reads back from a writer that runs the two writers in a row. A format is then
checked field by field, and no field knows what comes before or after it.

Counts are the exception. A count is read back only if enough bytes follow it, so it is read back
together with what it announces.
-/

namespace HashLink

open Emission

variable {ε ε' α β γ : Type}

theorem utf8_of_ofUtf8? {bytes : List UInt8} {text : String} (h : ofUtf8? bytes = some text) :
    utf8 text = bytes := by
  unfold ofUtf8? String.fromUTF8? at h
  split at h
  · obtain rfl := Option.some.inj h
    rfl
  · simp at h

/-! ## What has a variable-length form -/

namespace Output

@[simp] theorem finishes_int32 (value : Int32) : (int32 value).Finishes := rfl

@[simp] theorem finishes_float64 (bits : UInt64) : (float64 bits).Finishes := rfl

theorem atLeast_int32 (value : Int32) : AtLeast 1 (int32 value) :=
  fun _ => by simp [int32, ofList]

theorem atLeast_float64 (bits : UInt64) : AtLeast 1 (float64 bits) :=
  fun _ => by simp [float64, ofList]

/-- A number has a variable-length form exactly when its magnitude is below the limit. -/
@[simp] theorem finishes_varint {value : Int32} :
    (varint value).Finishes ↔ value.toInt.natAbs < varintLimit := by
  have hlimit : varintLimit = 0x20000000 := rfl
  unfold varint
  dsimp only
  split
  · simp only [finishes_ofList, true_iff]
    omega
  · split
    · simp only [finishes_ofList, true_iff]
      omega
    · split
      · next h => simp only [finishes_ofList, h]
      · next h => simp only [not_finishes_fail, h]

theorem atLeast_varint (value : Int32) : AtLeast 1 (varint value) := by
  intro hf
  unfold varint at hf ⊢
  dsimp only at hf ⊢
  split
  · simp [ofList]
  · split
    · simp [ofList]
    · split
      · simp [ofList]
      · next h₁ h₂ h₃ =>
        rw [if_neg h₁, if_neg h₂, if_neg h₃] at hf
        exact absurd hf (not_finishes_fail _)

@[simp] theorem finishes_index {n : Nat} : (index n).Finishes ↔ n < varintLimit := by
  have hlimits : varintLimit < int32Limit := by decide
  unfold index
  split
  · next h =>
    have hn : (Int32.ofNat n).toInt = n := Int32.toInt_ofNat_of_lt h
    rw [finishes_varint, hn, Int.natAbs_natCast]
  · simp only [not_finishes_fail, false_iff]
    omega

theorem atLeast_index (n : Nat) : AtLeast 1 (index n) := by
  unfold index
  split
  · exact atLeast_varint _
  · exact fun hf => absurd hf (not_finishes_fail _)

@[simp] theorem length_blockStarts (start : Nat) (blocks : List (List UInt8)) :
    (blockStarts start blocks).length = blocks.length := by
  induction blocks generalizing start with
  | nil => rfl
  | cons block blocks ih => exact congrArg (· + 1) (ih (start + block.length))

/-- Every entry of a pool is paid for by its place in the trailer. -/
theorem atLeast_stringPool (strings : List String) : AtLeast strings.length (stringPool strings) := by
  refine AtLeast.right _ ?_
  have := AtLeast.each fun text (_ : text ∈ strings.map utf8) => atLeast_index text.length
  rwa [List.length_map] at this

theorem atLeast_bytesPool (blocks : List (List UInt8)) :
    AtLeast blocks.length (bytesPool blocks) := by
  refine AtLeast.right _ ?_
  have := AtLeast.each fun start (_ : start ∈ blockStarts 0 blocks) => atLeast_index start
  rwa [length_blockStarts] at this

end Output

namespace Reader

/-- The reader gives `a` on what the writer wrote and stops where the writer did, whatever follows.
-/
def Reads (r : Reader α) (o : Emission ε UInt8) (a : α) : Prop :=
  o.Finishes → ∀ position rest,
    r ⟨position, o.items ++ rest⟩ = .ok a ⟨position + o.items.length, rest⟩

theorem Reads.of_toExcept {r : Reader α} {o : Emission ε UInt8} {a : α} (h : Reads r o a)
    {b : List UInt8} (hb : o.toExcept = .ok b) (position : Nat) (s : List UInt8) :
    r ⟨position, b ++ s⟩ = .ok a ⟨position + b.length, s⟩ := by
  obtain ⟨hf, rfl⟩ := toExcept_eq_ok_iff.mp hb
  exact h hf position s

/-! ## Composition -/

/-- A step that succeeds hands its cursor to the next one. -/
theorem bind_of_ok {r : Reader α} {f : α → Reader β} {c c' : Cursor} {a : α} (h : r c = .ok a c') :
    (r >>= f) c = f a c' := by
  show EStateM.bind r f c = _
  unfold EStateM.bind
  rw [h]

/-- A sequence that gives something went through both of its parts. -/
theorem exists_of_bind {r : EStateM ε Cursor α} {f : α → EStateM ε Cursor β} {c c' : Cursor} {b : β}
    (h : (r >>= f) c = .ok b c') : ∃ a c₁, r c = .ok a c₁ ∧ f a c₁ = .ok b c' := by
  rw [show (r >>= f) c = EStateM.bind r f c from rfl, EStateM.bind] at h
  cases hr : r c with
  | error e c₁ =>
      rw [hr] at h
      cases h
  | ok a c₁ =>
      rw [hr] at h
      exact ⟨a, c₁, rfl, h⟩

/-- A choice between two readers and then the rest is the rest after a choice. -/
theorem ite_bind (c : Bool) (r r' : EStateM ε Cursor α) (f : α → EStateM ε Cursor β) :
    (if c then r >>= f else r' >>= f) = (if c then r else r') >>= f := by
  cases c <;> rfl

theorem ite_bind_bind (c : Bool) (r : EStateM ε Cursor α) (g : α → EStateM ε Cursor β)
    (r' : EStateM ε Cursor β) (f : β → EStateM ε Cursor γ) :
    (if c then r >>= fun x => g x >>= f else r' >>= f) = (if c then r >>= g else r') >>= f := by
  cases c with
  | true => exact (bind_assoc r g f).symm
  | false => rfl

theorem Reads.bind {r : Reader α} {f : α → Reader β} {o o' : Emission ε UInt8} {a : α} {b : β}
    (h : Reads r o a) (h' : Reads (f a) o' b) : Reads (r >>= f) (o ++ o') b := by
  intro hf position rest
  obtain ⟨hfo, hfo'⟩ := finishes_append.mp hf
  rw [items_append hfo, List.append_assoc, List.length_append, ← Nat.add_assoc,
    bind_of_ok (h hfo _ _)]
  exact h' hfo' _ _

theorem reads_pure (a : α) : Reads (pure a) (empty : Emission ε UInt8) a := by
  intro _ position rest
  rfl

/-- A step after the last field. -/
theorem Reads.andThen {r : Reader α} {f : α → Reader β} {o : Emission ε UInt8} {a : α} {b : β}
    (h : Reads r o a) (h' : Reads (f a) (empty : Emission ε UInt8) b) : Reads (r >>= f) o b := by
  have := h.bind h'
  rwa [append_empty] at this

theorem Reads.map {r : Reader α} {o : Emission ε UInt8} {a : α} (g : α → β) (h : Reads r o a) :
    Reads (r >>= fun x => pure (g x)) o (g a) := h.andThen (reads_pure (g a))

theorem Reads.mapError {r : Reader α} {o : Emission ε UInt8} {a : α} (h : Reads r o a)
    (f : ε → ε') : Reads r (o.mapError f) a := fun hf => h (finishes_mapError.mp hf)

/-- Looking at the position moves nothing. -/
theorem Reads.position_bind {f : Nat → Reader β} {o : Emission ε UInt8} {b : β}
    (h : ∀ position, Reads (f position) o b) : Reads (position >>= f) o b := by
  intro hf p rest
  exact h p hf p rest

/-! ## Bytes and fixed-width numbers -/

theorem reads_byte (b : UInt8) : Reads byte (ofList [b] : Emission ε UInt8) b := by
  intro _ position rest
  rfl

theorem reads_take (bytes : List UInt8) :
    Reads (take bytes.length) (ofList bytes : Emission ε UInt8) bytes := by
  intro _ position rest
  have h : (⟨position, bytes ++ rest⟩ : Cursor).hasAtLeast bytes.length = true := by
    rw [Cursor.hasAtLeast_iff]
    simp [Cursor.remaining]
  simp only [take, ofList, h, ↓reduceIte, List.take_left, List.drop_left]

theorem reads_int32 (value : Int32) : Reads int32 (Output.int32 value) value := by
  have htake := reads_take (ε := EncodeError) (LittleEndian.encode 4 value.toUInt32.toNat)
  rw [LittleEndian.length_encode] at htake
  have hmap := htake.map fun bytes => (UInt32.ofNat (LittleEndian.decode bytes)).toInt32
  have hvalue : (UInt32.ofNat (LittleEndian.decode
      (LittleEndian.encode 4 value.toUInt32.toNat))).toInt32 = value := by
    rw [LittleEndian.decode_encode, show LittleEndian.capacity 4 = 2 ^ 32 from rfl,
      Nat.mod_eq_of_lt value.toUInt32.toNat_lt]
    simp
  rw [hvalue] at hmap
  exact hmap

theorem reads_float64 (bits : UInt64) : Reads float64 (Output.float64 bits) bits := by
  have htake := reads_take (ε := EncodeError) (LittleEndian.encode 8 bits.toNat)
  rw [LittleEndian.length_encode] at htake
  have hmap := htake.map fun bytes => UInt64.ofNat (LittleEndian.decode bytes)
  have hvalue : UInt64.ofNat (LittleEndian.decode (LittleEndian.encode 8 bits.toNat)) = bits := by
    rw [LittleEndian.decode_encode, show LittleEndian.capacity 8 = 2 ^ 64 from rfl,
      Nat.mod_eq_of_lt bits.toNat_lt]
    simp
  rw [hvalue] at hmap
  exact hmap

/-! ## Variable-length integers -/

/-- A magnitude with a sign bit. -/
def signed (bit magnitude : Nat) : Int32 :=
  if bit = 0 then Int32.ofNat magnitude else -Int32.ofNat magnitude

theorem varint_one {a : UInt8} (h : a.toNat < 0x80) (position : Nat) (rest : List UInt8) :
    varint ⟨position, a :: rest⟩ = .ok (Int32.ofNat a.toNat) ⟨position + 1, rest⟩ := by
  simp [varint, byte, bind, EStateM.bind, h, pure, EStateM.pure]

theorem varint_two {a b : UInt8} (h : ¬ a.toNat < 0x80) (h' : a.toNat < 0xC0) (position : Nat)
    (rest : List UInt8) :
    varint ⟨position, a :: b :: rest⟩ =
      .ok (signed (a.toNat / 32 % 2) (a.toNat % 32 * 0x100 + b.toNat)) ⟨position + 2, rest⟩ := by
  simp [varint, byte, bind, EStateM.bind, h, h', pure, EStateM.pure, signed]

theorem varint_four {a b c d : UInt8} (h : ¬ a.toNat < 0x80) (h' : ¬ a.toNat < 0xC0)
    (position : Nat) (rest : List UInt8) :
    varint ⟨position, a :: b :: c :: d :: rest⟩ =
      .ok (signed (a.toNat / 32 % 2)
        (a.toNat % 32 * 0x1000000 + b.toNat * 0x10000 + c.toNat * 0x100 + d.toNat))
        ⟨position + 4, rest⟩ := by
  simp [varint, byte, bind, EStateM.bind, h, h', pure, EStateM.pure, signed]

theorem ofNat_natAbs_of_nonneg {value : Int32} (h : 0 ≤ value) :
    Int32.ofNat value.toInt.natAbs = value := by
  have h0 : 0 ≤ value.toInt := by simpa [Int32.le_iff_toInt_le] using h
  rw [← Int32.ofInt_eq_ofNat, Int.natAbs_of_nonneg h0, Int32.ofInt_toInt]

theorem neg_ofNat_natAbs_of_neg {value : Int32} (h : value < 0) :
    -Int32.ofNat value.toInt.natAbs = value := by
  have h0 : value.toInt < 0 := by simpa [Int32.lt_iff_toInt_lt] using h
  rw [Int32.neg_ofNat, Int.ofNat_natAbs_of_nonpos (Int.le_of_lt h0), Int.neg_neg,
    Int32.ofInt_toInt]

/-- A number is its magnitude with its sign. -/
theorem signed_natAbs (value : Int32) {bit : Nat} (h : bit = 0 ↔ 0 ≤ value) :
    signed bit value.toInt.natAbs = value := by
  unfold signed
  split
  · next hb => exact ofNat_natAbs_of_nonneg (h.mp hb)
  · next hb => exact neg_ofNat_natAbs_of_neg (Int32.not_le.mp fun hv => hb (h.mpr hv))

theorem reads_varint (value : Int32) : Reads varint (Output.varint value) value := by
  unfold Output.varint
  dsimp only
  generalize hm : value.toInt.natAbs = magnitude
  generalize hs : (if value < 0 then 0x20 else 0) = sign
  have hsign : sign = 0 ∧ 0 ≤ value ∨ sign = 32 ∧ ¬ 0 ≤ value := by
    subst hs
    by_cases h : value < 0
    · exact .inr ⟨if_pos h, Int32.not_le.mpr h⟩
    · exact .inl ⟨if_neg h, Int32.not_lt.mp h⟩
  split
  · next h =>
    -- one byte, which is the number
    intro _ position rest
    have hbyte : (UInt8.ofNat magnitude).toNat = magnitude := by
      rw [UInt8.toNat_ofNat']; omega
    show varint ⟨position, UInt8.ofNat magnitude :: rest⟩ = _
    rw [varint_one (by rw [hbyte]; exact h.2), hbyte, ← hm, ofNat_natAbs_of_nonneg h.1]
    rfl
  · split
    · next hlt =>
      -- two bytes: a tag, the sign and five bits, then the other eight
      intro _ position rest
      have hfirst : (UInt8.ofNat (0x80 + sign + magnitude / 0x100)).toNat =
          0x80 + sign + magnitude / 0x100 := by
        rw [UInt8.toNat_ofNat']; omega
      have hbit : (0x80 + sign + magnitude / 0x100) / 32 % 2 = 0 ↔ 0 ≤ value := by
        rcases hsign with ⟨rfl, h⟩ | ⟨rfl, h⟩ <;> simp only [h, iff_true, iff_false] <;> omega
      show varint ⟨position, UInt8.ofNat (0x80 + sign + magnitude / 0x100) ::
        UInt8.ofNat magnitude :: rest⟩ = _
      rw [varint_two (by rw [hfirst]; omega) (by rw [hfirst]; omega), hfirst, UInt8.toNat_ofNat',
        show (0x80 + sign + magnitude / 0x100) % 32 * 0x100 + magnitude % 2 ^ 8 = magnitude by omega]
      subst hm
      rw [signed_natAbs value hbit]
      rfl
    · split
      · next hlt =>
        -- four bytes: the same with 24 more bits
        intro _ position rest
        have hlimit : magnitude < 0x20000000 := hlt
        have hfirst : (UInt8.ofNat (0xC0 + sign + magnitude / 0x1000000)).toNat =
            0xC0 + sign + magnitude / 0x1000000 := by
          rw [UInt8.toNat_ofNat']; omega
        have hbit : (0xC0 + sign + magnitude / 0x1000000) / 32 % 2 = 0 ↔ 0 ≤ value := by
          rcases hsign with ⟨rfl, h⟩ | ⟨rfl, h⟩ <;> simp only [h, iff_true, iff_false] <;> omega
        show varint ⟨position, UInt8.ofNat (0xC0 + sign + magnitude / 0x1000000) ::
          UInt8.ofNat (magnitude / 0x10000) :: UInt8.ofNat (magnitude / 0x100) ::
          UInt8.ofNat magnitude :: rest⟩ = _
        rw [varint_four (by rw [hfirst]; omega) (by rw [hfirst]; omega), hfirst,
          UInt8.toNat_ofNat', UInt8.toNat_ofNat', UInt8.toNat_ofNat',
          show (0xC0 + sign + magnitude / 0x1000000) % 32 * 0x1000000 +
            magnitude / 0x10000 % 2 ^ 8 * 0x10000 + magnitude / 0x100 % 2 ^ 8 * 0x100 +
            magnitude % 2 ^ 8 = magnitude by omega]
        subst hm
        rw [signed_natAbs value hbit]
        rfl
      · exact fun hf => absurd hf (not_finishes_fail _)

/-- A count or an index is read back. -/
theorem reads_index (n : Nat) : Reads index (Output.index n) n := by
  unfold Output.index
  split
  · next h =>
    have hn : (Int32.ofNat n).toInt = n := Int32.toInt_ofNat_of_lt h
    have hneg : ¬ Int32.ofNat n < 0 := by
      rw [Int32.lt_iff_toInt_lt, hn, Int32.toInt_zero]
      omega
    refine Reads.position_bind fun _ => (reads_varint _).andThen ?_
    rw [if_neg hneg, hn]
    exact reads_pure n
  · exact fun hf => absurd hf (not_finishes_fail _)

/-- A count is read back when what it announces follows. -/
theorem Reads.count_bind {f : Nat → Reader β} {w o : Emission ε UInt8} {n : Nat} {b : β}
    (hw : Reads index w n) (hn : AtLeast n o) (h : Reads (f n) o b) :
    Reads (count >>= f) (w ++ o) b := by
  intro hf position rest
  obtain ⟨hfw, hfo⟩ := finishes_append.mp hf
  have henough : (⟨position + w.items.length, o.items ++ rest⟩ : Cursor).hasAtLeast n = true := by
    rw [Cursor.hasAtLeast_iff]
    have := hn hfo
    simp only [Cursor.remaining, List.length_append]
    omega
  have hcount : count ⟨position, w.items ++ (o.items ++ rest)⟩ =
      .ok n ⟨position + w.items.length, o.items ++ rest⟩ := by
    refine (bind_of_ok (hw hfw position (o.items ++ rest))).trans ?_
    show (if _ then pure n else throw _ : Reader Nat) _ = _
    rw [if_pos henough]
    rfl
  rw [items_append hfw, List.append_assoc, List.length_append, ← Nat.add_assoc, bind_of_ok hcount]
  exact h hfo _ _

/-! ## Lists -/

/-- A list of known length is read back element by element. -/
theorem Reads.times_map {r : Reader α} {w : β → Emission ε UInt8} {g : β → α} {xs : List β}
    (h : ∀ x ∈ xs, Reads r (w x) (g x)) : Reads (times xs.length r) (each xs w) (xs.map g) := by
  induction xs with
  | nil => exact reads_pure []
  | cons x xs ih =>
      have htail := ih fun y hy => h y (List.mem_cons_of_mem x hy)
      exact (h x (by simp)).bind (htail.map (g x :: ·))

theorem Reads.times {r : Reader α} {w : α → Emission ε UInt8} {xs : List α}
    (h : ∀ x ∈ xs, Reads r (w x) x) : Reads (times xs.length r) (Emission.each xs w) xs := by
  have := Reads.times_map (g := id) h
  rwa [List.map_id] at this

/-- A counted list is read back, since each of its elements takes a byte. -/
theorem Reads.counted {r : Reader α} {w : α → Output} {xs : List α}
    (h : ∀ x ∈ xs, Reads r (w x) x) (hw : ∀ x ∈ xs, AtLeast 1 (w x)) :
    Reads (counted r) (Output.index xs.length ++ Emission.each xs w) xs :=
  (reads_index xs.length).count_bind (.each hw) (.times h)

/-! ## Pools -/

theorem reads_poolPayload (payload : List UInt8) :
    Reads poolPayload (Output.poolSize payload.length ++ ofList payload) payload := by
  unfold Output.poolSize
  split
  · next h =>
    have hn : (Int32.ofNat payload.length).toInt = payload.length := Int32.toInt_ofNat_of_lt h
    have hneg : ¬ Int32.ofNat payload.length < 0 := by
      rw [Int32.lt_iff_toInt_lt, hn, Int32.toInt_zero]
      omega
    refine Reads.position_bind fun _ => (reads_int32 _).bind ?_
    rw [if_neg hneg, hn]
    exact reads_take payload
  · exact fun hf => absurd (finishes_append.mp hf).1 (not_finishes_fail _)

/-- The strings that are still to be cut lie behind those that were, with their NULs. -/
theorem reads_cutStrings (base : Nat) (strings : List String) (done : List UInt8) (number : Nat) :
    Reads (cutStrings base (done ++ (strings.map utf8).flatMap (· ++ [0])) strings.length number
      done.length) (.each (strings.map utf8) fun text => Output.index text.length) strings := by
  induction strings generalizing done number with
  | nil => exact reads_pure []
  | cons s strings ih =>
      have hrest := ih (done ++ utf8 s ++ [0]) (number + 1)
      have hpayload : done ++ utf8 s ++ [0] ++ (strings.map utf8).flatMap (· ++ [0]) =
          done ++ ((s :: strings).map utf8).flatMap (· ++ [0]) := by
        simp
      have hstart : (done ++ utf8 s ++ [0]).length = done.length + (utf8 s).length + 1 := by
        simp only [List.length_append, List.length_cons, List.length_nil]
      rw [hpayload, hstart] at hrest
      refine (reads_index (utf8 s).length).bind ?_
      rw [if_neg (by simp)]
      have hcut : ((done ++ ((s :: strings).map utf8).flatMap (· ++ [0])).drop done.length).take
          (done.length + (utf8 s).length - done.length) = utf8 s := by
        simp
      rw [hcut, ofUtf8?_utf8]
      exact hrest.map (s :: ·)

/-- **A pool of strings is read back**, whatever the strings hold. -/
theorem reads_stringPool (strings : List String) :
    Reads (stringPool strings.length) (Output.stringPool strings) strings := by
  refine Reads.position_bind fun position => (reads_poolPayload _).bind ?_
  exact reads_cutStrings (position + 4) strings [] 0

/-- Cutting at the starts of blocks gives the blocks back. -/
theorem cutBlocks_blockStarts (blocks : List (List UInt8)) (done : List UInt8) (number : Nat) :
    cutBlocks (done ++ blocks.flatten) number (Output.blockStarts done.length blocks) =
      .ok blocks := by
  induction blocks generalizing done number with
  | nil => rfl
  | cons block blocks ih =>
      have hrest := ih (done ++ block) (number + 1)
      rw [List.append_assoc, ← List.flatten_cons, List.length_append] at hrest
      have hstop : (Output.blockStarts (done.length + block.length) blocks).head?.getD
          (done ++ (block :: blocks).flatten).length = done.length + block.length := by
        cases blocks <;> simp [Output.blockStarts]
      rw [Output.blockStarts, cutBlocks, hstop, hrest, if_neg (by simp)]
      simp [pure, Except.pure, bind, Except.bind]

/-- **A pool of byte blocks is read back.** -/
theorem reads_bytesPool (blocks : List (List UInt8)) :
    Reads (bytesPool blocks.length) (Output.bytesPool blocks) blocks := by
  have hstarts := Reads.times fun n (_ : n ∈ Output.blockStarts 0 blocks) => reads_index n
  rw [Output.length_blockStarts] at hstarts
  refine (reads_poolPayload _).bind (hstarts.andThen ?_)
  have hcut := cutBlocks_blockStarts blocks [] 0
  rw [List.nil_append, List.length_nil] at hcut
  rw [hcut]
  exact reads_pure blocks

end Reader

end HashLink
