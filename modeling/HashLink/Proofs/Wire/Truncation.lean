import HashLink.Proofs.Wire.RoundTrip

/-!
# Readers and the end of the input

A reader notices the end of its input only by running into it: it asks for a byte that is not there,
or it finds fewer bytes than a count announces. As long as it does neither, bytes that follow the
input change nothing. `Reader.Foresees` says this of two readers, one on an input and the other on a
longer one; nearly always the two are the same reader, which is then `Steady`.

Counts and position streams look at how much is left and not only at the next bytes. They are steady
because they use it in one direction only: with more bytes left, more is accepted.
-/

namespace HashLink

variable {ε α β : Type}

/-- The input ended too early: a byte was missing, or more elements were announced than bytes were
left. -/
def DecodeError.IsCutOff : DecodeError → Prop
  | .unexpectedEnd _ => True
  | .countExceedsInput _ _ _ => True
  | _ => False

/-- The same place in an input that goes on. -/
def Cursor.followedBy (c : Cursor) (more : List UInt8) : Cursor := ⟨c.position, c.rest ++ more⟩

theorem Cursor.hasAtLeast_followedBy {c : Cursor} {n : Nat} (h : c.hasAtLeast n = true)
    (more : List UInt8) : (c.followedBy more).hasAtLeast n = true := by
  rw [hasAtLeast_iff] at h ⊢
  unfold remaining followedBy at *
  rw [List.length_append]
  exact Nat.le_add_right_of_le h

namespace Reader

/-- What the first reader does on an input, the second one does when more follows, unless the first
failed because its input was cut off. -/
def Foresees (cutOff : ε → Prop) (r r' : EStateM ε Cursor α) : Prop :=
  ∀ c more,
    match r c with
    | .ok a c' => r' (c.followedBy more) = .ok a (c'.followedBy more)
    | .error e _ => cutOff e ∨ ∃ c', r' (c.followedBy more) = .error e c'

/-- More input makes no difference to a reader, unless it failed for want of it. -/
abbrev Steady (r : Reader α) : Prop := Foresees DecodeError.IsCutOff r r

/-! ## Composition -/

section Composition

variable {cutOff : ε → Prop}

theorem foresees_pure (a : α) : Foresees cutOff (pure a) (pure a) := fun _ _ => rfl

theorem foresees_throw (e : ε) : Foresees cutOff (throw e : EStateM ε Cursor α) (throw e) :=
  fun c more => .inr ⟨c.followedBy more, rfl⟩

/-- A reader that fails for want of input says nothing about a longer one. -/
theorem foresees_of_cutOff {e : ε} (h : cutOff e) (r : EStateM ε Cursor α) :
    Foresees cutOff (throw e) r := fun _ _ => .inl h

theorem Foresees.bind {r r' : EStateM ε Cursor α} {f f' : α → EStateM ε Cursor β}
    (h : Foresees cutOff r r') (hf : ∀ a, Foresees cutOff (f a) (f' a)) :
    Foresees cutOff (r >>= f) (r' >>= f') := by
  intro c more
  have hc := h c more
  rw [show (r >>= f) c = EStateM.bind r f c from rfl, EStateM.bind,
    show (r' >>= f') (c.followedBy more) = EStateM.bind r' f' (c.followedBy more) from rfl,
    EStateM.bind]
  cases hr : r c with
  | ok a c' =>
      rw [hr] at hc
      dsimp only at hc ⊢
      rw [hc]
      exact hf a c' more
  | error e c' =>
      rw [hr] at hc
      refine hc.imp_right ?_
      rintro ⟨c'', hr'⟩
      rw [hr']
      exact ⟨c'', rfl⟩

theorem Foresees.map {r r' : EStateM ε Cursor α} (h : Foresees cutOff r r') (f : α → β) :
    Foresees cutOff (r >>= fun a => pure (f a)) (r' >>= fun a => pure (f a)) :=
  h.bind fun a => foresees_pure (f a)

/-- A look at the cursor, and then the rest of the two readers from there. -/
theorem foresees_get_bind {f f' : Cursor → EStateM ε Cursor β}
    (h : ∀ c more, Foresees cutOff (f c) (f' (c.followedBy more))) :
    Foresees cutOff (get >>= f) (get >>= f') := fun c more => h c more c more

end Composition

/-! ## Bytes and numbers -/

theorem steady_position : Steady position := by
  refine foresees_get_bind fun c more => ?_
  exact foresees_pure c.position

theorem steady_byte : Steady byte := by
  rintro ⟨position, rest⟩ more
  cases rest with
  | nil => exact .inl trivial
  | cons b rest => exact rfl

theorem steady_take (n : Nat) : Steady (take n) := by
  intro c more
  unfold take
  by_cases hn : c.hasAtLeast n = true
  · rw [if_pos hn, if_pos (Cursor.hasAtLeast_followedBy hn more)]
    rw [Cursor.hasAtLeast_iff] at hn
    dsimp only [Cursor.followedBy]
    rw [List.take_append_of_le_length hn, List.drop_append_of_le_length hn]
  · rw [if_neg hn]
    exact .inl trivial

theorem steady_int32 : Steady int32 := (steady_take 4).map _

theorem steady_float64 : Steady float64 := (steady_take 8).map _

theorem steady_varint : Steady varint := by
  refine steady_byte.bind fun first => ?_
  dsimp only
  split
  · exact foresees_pure _
  · split
    · exact steady_byte.bind fun b => foresees_pure _
    · exact steady_byte.bind fun b => steady_byte.bind fun c => steady_byte.bind fun d =>
        foresees_pure _

theorem steady_index : Steady index := by
  refine steady_position.bind fun offset => steady_varint.bind fun value => ?_
  split
  · exact foresees_throw _
  · exact foresees_pure _

/-- A count that enough bytes follow is also followed by enough when there are more. -/
theorem steady_count : Steady count := by
  refine steady_position.bind fun offset => steady_index.bind fun n => ?_
  refine foresees_get_bind fun c more => ?_
  by_cases hn : c.hasAtLeast n = true
  · rw [if_pos hn, if_pos (Cursor.hasAtLeast_followedBy hn more)]
    exact foresees_pure n
  · rw [if_neg hn]
    exact foresees_of_cutOff trivial _

/-! ## Lists and pools -/

theorem Steady.times {r : Reader α} (h : Steady r) (n : Nat) : Steady (times n r) := by
  induction n with
  | zero => exact foresees_pure []
  | succ n ih => exact Foresees.bind h fun x => ih.map (x :: ·)

theorem Steady.counted {r : Reader α} (h : Steady r) : Steady (counted r) :=
  steady_count.bind fun n => h.times n

theorem steady_poolPayload : Steady poolPayload := by
  refine steady_position.bind fun offset => steady_int32.bind fun size => ?_
  split
  · exact foresees_throw _
  · exact steady_take _

theorem steady_cutStrings (base : Nat) (payload : List UInt8) (count index start : Nat) :
    Steady (cutStrings base payload count index start) := by
  induction count generalizing index start with
  | zero => exact foresees_pure []
  | succ count ih =>
      refine steady_index.bind fun length => ?_
      dsimp only
      split
      · exact foresees_throw _
      · split
        · next text _ => exact (ih (index + 1) (start + length + 1)).map (text :: ·)
        · exact foresees_throw _

theorem steady_stringPool (count : Nat) : Steady (stringPool count) := by
  refine steady_position.bind fun offset => steady_poolPayload.bind fun payload => ?_
  exact steady_cutStrings (offset + 4) payload count 0 0

theorem steady_bytesPool (count : Nat) : Steady (bytesPool count) := by
  refine steady_poolPayload.bind fun payload => (steady_index.times count).bind fun starts => ?_
  split
  · exact foresees_pure _
  · exact foresees_throw _

end Reader

end HashLink
