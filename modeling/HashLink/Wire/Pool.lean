import HashLink.Wire.Varint

/-!
# Pools of strings and of byte blocks

A pool is one payload with a trailer that says how to cut it. Its size comes first, in four bytes.
Strings end with a NUL that their length does not count, and the trailer lists the lengths. Byte blocks
touch each other, and the trailer lists where each one starts; the last goes to the end of the payload.
The number of entries is not part of the pool.
-/

namespace HashLink

namespace Output

/-- The size of a pool's payload. -/
def poolSize (size : Nat) : Output :=
  if size < int32Limit then .int32 (Int32.ofNat size) else .fail (.poolTooLarge size)

/-- A pool of strings. -/
def stringPool (strings : List String) : Output :=
  let texts := strings.map utf8
  let payload := texts.flatMap (· ++ [0])
  poolSize payload.length ++ .ofList payload ++ .each texts (fun text => index text.length)

/-- Where each block starts, when the first one starts at the given place. -/
def blockStarts (start : Nat) : List (List UInt8) → List Nat
  | [] => []
  | block :: blocks => start :: blockStarts (start + block.length) blocks

/-- A pool of byte blocks. -/
def bytesPool (blocks : List (List UInt8)) : Output :=
  poolSize blocks.flatten.length ++ .ofList blocks.flatten ++ .each (blockStarts 0 blocks) index

end Output

namespace Reader

/-- Reads the size of a pool and then that many bytes. -/
def poolPayload : Reader (List UInt8) := do
  let offset ← position
  let size ← int32
  if size < 0 then throw (.invalidPoolSize size offset)
  take size.toInt.toNat

/-- Reads the lengths of `count` strings and cuts them out of a payload. The payload starts at
`base` in the input; `index` is the number of the next string, and `start` its place. -/
def cutStrings (base : Nat) (payload : List UInt8) :
    (count index start : Nat) → Reader (List String)
  | 0, _, _ => pure []
  | count + 1, index, start => do
    let stop := start + (← Reader.index)
    if payload.length < stop then
      throw (.poolEntryOutOfBounds index start stop payload.length)
    let some text := ofUtf8? ((payload.drop start).take (stop - start))
      | throw (.invalidUtf8 (base + start))
    return text :: (← cutStrings base payload count (index + 1) (stop + 1))

/-- Reads a pool of `count` strings. Setting aside room for them beforehand is no part of this, so no
count is too large to begin with. -/
def stringPool (count : Nat) : Reader (List String) := do
  let base := (← position) + 4
  cutStrings base (← poolPayload) count 0 0

/-- Cuts a payload at the given starts, each block going up to the next start and the last one to
the end; `index` is the number of the next block. -/
def cutBlocks (payload : List UInt8) : (index : Nat) → List Nat → Except DecodeError (List (List UInt8))
  | _, [] => .ok []
  | index, start :: starts => do
    let stop := starts.head?.getD payload.length
    if stop < start ∨ payload.length < stop then
      throw (.poolEntryOutOfBounds index start stop payload.length)
    return (payload.drop start).take (stop - start) :: (← cutBlocks payload (index + 1) starts)

/-- Reads a pool of `count` byte blocks. Here too no room is set aside beforehand. -/
def bytesPool (count : Nat) : Reader (List (List UInt8)) := do
  let payload ← poolPayload
  let starts ← times count index
  match cutBlocks payload 0 starts with
  | .ok blocks => return blocks
  | .error e => throw e

end Reader

end HashLink
