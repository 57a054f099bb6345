import HashLink.Wire.Scalar

/-!
# Variable-length integers

Nearly every number of the format takes one, two or four bytes. The top bits of the first byte say
which: `0` is a single byte with seven bits of value; `10` is two bytes and `11` four, with a sign bit
next and five more bits of magnitude, most significant byte first. Magnitudes of 2^29 and above have
no form. The writer uses the shortest one; the reader takes any.
-/

namespace HashLink

/-- The magnitudes that have a variable-length form lie below this. -/
def varintLimit : Nat := 0x20000000

/-- A signed variable-length integer. -/
def Output.varint (value : Int32) : Output :=
  let magnitude := value.toInt.natAbs
  let sign := if value < 0 then 0x20 else 0
  if 0 ≤ value ∧ magnitude < 0x80 then
    .ofList [UInt8.ofNat magnitude]
  else if magnitude < 0x2000 then
    .ofList [UInt8.ofNat (0x80 + sign + magnitude / 0x100), UInt8.ofNat magnitude]
  else if magnitude < varintLimit then
    .ofList [UInt8.ofNat (0xC0 + sign + magnitude / 0x1000000), UInt8.ofNat (magnitude / 0x10000),
      UInt8.ofNat (magnitude / 0x100), UInt8.ofNat magnitude]
  else
    .fail (.varIntOutOfRange value.toInt)

/-- A count or an index. -/
def Output.index (value : Nat) : Output :=
  if value < int32Limit then .varint (Int32.ofNat value)
  else .fail (.varIntOutOfRange (asSigned64 value))

namespace Reader

/-- Reads a signed variable-length integer. -/
def varint : Reader Int32 := do
  let first := (← byte).toNat
  if first < 0x80 then
    return Int32.ofNat first
  let magnitude ←
    if first < 0xC0 then
      pure (first % 32 * 0x100 + (← byte).toNat)
    else do
      let b ← byte
      let c ← byte
      let d ← byte
      pure (first % 32 * 0x1000000 + b.toNat * 0x10000 + c.toNat * 0x100 + d.toNat)
  return if first / 32 % 2 = 0 then Int32.ofNat magnitude else -Int32.ofNat magnitude

/-- Reads a number that must not be negative. -/
def index : Reader Nat := do
  let offset ← position
  let value ← varint
  if value < 0 then throw (.negativeIndex value offset)
  return value.toInt.toNat

/-- Reads how many elements follow. Each of them takes at least a byte, so a number that is larger
than what is left of the input is refused before any element is read. -/
def count : Reader Nat := do
  let offset ← position
  let n ← index
  let cursor ← get
  if cursor.hasAtLeast n then return n
  throw (.countExceedsInput n cursor.remaining offset)

/-- Reads a counted list. -/
def counted {α : Type} (r : Reader α) : Reader (List α) := do
  times (← count) r

end Reader

end HashLink
