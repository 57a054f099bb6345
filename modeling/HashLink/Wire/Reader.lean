import HashLink.Wire.Error

/-!
# Reading bytes in order

A reader consumes a prefix of its input. The cursor holds what is left and how much has gone by;
a reader that fails leaves the cursor where it stopped, so that the failure can be located and
reading can go on from there.

`byte` and `take` are the only readers that move the cursor; all others are built from them. A
reader that takes a fixed number of bytes at once (`take`) consumes nothing when there are too few.
-/

namespace HashLink

/-- A place in the input. -/
structure Cursor where
  /-- Bytes consumed so far. -/
  position : Nat
  /-- Bytes not consumed yet. -/
  rest : List UInt8
  deriving DecidableEq, Repr

namespace Cursor

/-- The start of an input. -/
def ofBytes (bytes : List UInt8) : Cursor := ⟨0, bytes⟩

/-- How many bytes are left. -/
def remaining (c : Cursor) : Nat := c.rest.length

/-- Whether at least `n` bytes are left; looks at no more than `n` of them. -/
def hasAtLeast (c : Cursor) (n : Nat) : Bool :=
  n == 0 || !(c.rest.drop (n - 1)).isEmpty

theorem hasAtLeast_iff (c : Cursor) (n : Nat) : c.hasAtLeast n = true ↔ n ≤ c.remaining := by
  unfold hasAtLeast remaining
  cases n with
  | zero => simp
  | succ n => rw [Nat.succ_le_iff]; simp

end Cursor

/-- A step over the input: a value or an error, and the cursor afterwards in both cases. -/
abbrev Reader := EStateM DecodeError Cursor

namespace Reader

variable {α : Type}

/-- The position of the next byte. -/
def position : Reader Nat := return (← get).position

/-- The next byte. -/
def byte : Reader UInt8 := fun c =>
  match c.rest with
  | [] => .error (.unexpectedEnd c.position) c
  | b :: rest => .ok b ⟨c.position + 1, rest⟩

/-- The next `n` bytes, all or none of them. -/
def take (n : Nat) : Reader (List UInt8) := fun c =>
  if c.hasAtLeast n then
    .ok (c.rest.take n) ⟨c.position + n, c.rest.drop n⟩
  else
    .error (.unexpectedEnd c.position) c

/-- The same reader `n` times. -/
def times (n : Nat) (r : Reader α) : Reader (List α) :=
  match n with
  | 0 => pure []
  | n + 1 => do
    let x ← r
    let xs ← times n r
    return x :: xs

end Reader

end HashLink
