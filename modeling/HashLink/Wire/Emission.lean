import HashLink.Wire.Error

/-!
# Output that may stop

A writer appends to what is already there, and when it fails, what it wrote before the failure
stays. An `Emission` is the whole effect of a writer: the items it appended and, if it stopped, why.
Emissions form a monoid in which the first failure absorbs everything to its right, so a format is
written by appending the emissions of its parts.
-/

namespace HashLink

/-- The items a writer appended, and the error that stopped it, if one did. -/
structure Emission (ε α : Type) where
  items : List α
  error : Option ε := none
  deriving DecidableEq, Repr

namespace Emission

variable {ε ε' α β : Type}

/-- Writes nothing. -/
def empty : Emission ε α := ⟨[], none⟩

/-- Writes exactly the given items. -/
def ofList (items : List α) : Emission ε α := ⟨items, none⟩

/-- Stops at once. -/
def fail (e : ε) : Emission ε α := ⟨[], some e⟩

/-- One writer after another; the second does not run if the first stopped. -/
def append (a b : Emission ε α) : Emission ε α :=
  match a.error with
  | some _ => a
  | none => ⟨a.items ++ b.items, b.error⟩

instance : Append (Emission ε α) := ⟨append⟩

/-- Many writers in order. -/
def concat (parts : List (Emission ε α)) : Emission ε α :=
  parts.foldr (· ++ ·) empty

/-- Writes each element of a list in order. -/
def each (xs : List β) (f : β → Emission ε α) : Emission ε α :=
  concat (xs.map f)

/-- Writes every item as several items of another kind. -/
def expand (a : Emission ε α) (f : α → List β) : Emission ε β :=
  ⟨a.items.flatMap f, a.error⟩

/-- The same output under another name for the errors. -/
def mapError (f : ε → ε') (a : Emission ε α) : Emission ε' α :=
  ⟨a.items, a.error.map f⟩

/-- The output of a writer that has to finish. -/
def toExcept (a : Emission ε α) : Except ε (List α) :=
  match a.error with
  | some e => .error e
  | none => .ok a.items

/-! ## The monoid laws -/

theorem append_def (a b : Emission ε α) :
    a ++ b = match a.error with
      | some _ => a
      | none => ⟨a.items ++ b.items, b.error⟩ := rfl

@[simp] theorem empty_append (a : Emission ε α) : empty ++ a = a := by
  simp [append_def, empty]

@[simp] theorem append_empty (a : Emission ε α) : a ++ empty = a := by
  obtain ⟨items, error⟩ := a
  cases error <;> simp [append_def, empty]

theorem append_assoc (a b c : Emission ε α) : a ++ b ++ c = a ++ (b ++ c) := by
  obtain ⟨as, ae⟩ := a
  obtain ⟨bs, be⟩ := b
  cases ae <;> cases be <;> simp [append_def]

end Emission

/-- What a writer of the wire format does: bytes, and why it stopped. -/
abbrev Output := Emission EncodeError UInt8

end HashLink
