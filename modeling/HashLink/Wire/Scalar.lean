import HashLink.Wire.Emission
import HashLink.Wire.Reader

/-!
# Fixed-width numbers and text

Integers of the value pool are 32 bits wide and floats 64, both with the least significant byte
first. A float is kept as its bit pattern: the format copies it, and two patterns that denote the
same number are still different entries. Text is UTF-8.
-/

namespace HashLink

namespace LittleEndian

/-- The low `width` bytes of a number. -/
def encode : Nat → Nat → List UInt8
  | 0, _ => []
  | width + 1, n => UInt8.ofNat n :: encode width (n / 256)

/-- The number a list of bytes stands for. -/
def decode : List UInt8 → Nat
  | [] => 0
  | b :: bs => b.toNat + 256 * decode bs

@[simp] theorem length_encode (width n : Nat) : (encode width n).length = width := by
  induction width generalizing n with
  | zero => rfl
  | succ width ih => simp [encode, ih]

/-- How many numbers have a form of the given width. -/
def capacity : Nat → Nat
  | 0 => 1
  | width + 1 => 256 * capacity width

/-- Decoding gives back a number up to the bytes that were cut off. -/
theorem decode_encode (width n : Nat) : decode (encode width n) = n % capacity width := by
  induction width generalizing n with
  | zero => simp [encode, decode, capacity, Nat.mod_one]
  | succ width ih =>
    simp only [encode, decode, capacity, ih, UInt8.toNat_ofNat', Nat.reducePow, Nat.mod_mul]

end LittleEndian

/-- The natural numbers that are 32-bit integers lie below this. -/
def int32Limit : Nat := 0x80000000

/-- A 32-bit integer on the wire. -/
def Output.int32 (value : Int32) : Output :=
  .ofList (LittleEndian.encode 4 value.toUInt32.toNat)

/-- The bit pattern of a 64-bit float on the wire. -/
def Output.float64 (bits : UInt64) : Output :=
  .ofList (LittleEndian.encode 8 bits.toNat)

/-- Reads a 32-bit integer. -/
def Reader.int32 : Reader Int32 :=
  return (UInt32.ofNat (LittleEndian.decode (← take 4))).toInt32

/-- Reads the bit pattern of a 64-bit float. -/
def Reader.float64 : Reader UInt64 :=
  return UInt64.ofNat (LittleEndian.decode (← take 8))

/-- The bytes of a text. -/
def utf8 (s : String) : List UInt8 := s.toByteArray.data.toList

/-- The text that a list of bytes is, if they are well-formed. -/
def ofUtf8? (bytes : List UInt8) : Option String := String.fromUTF8? ⟨bytes.toArray⟩

/-- The bytes of a text are well-formed and give the text back. -/
@[simp] theorem ofUtf8?_utf8 (s : String) : ofUtf8? (utf8 s) = some s := by
  have h : (⟨(utf8 s).toArray⟩ : ByteArray) = s.toByteArray := by simp [utf8]
  simp only [ofUtf8?, h, String.fromUTF8?, s.isValidUTF8, dite_true]
  rfl

end HashLink
