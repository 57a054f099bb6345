import HashLink.Wire.Pool

/-!
# Debug positions

Every instruction of a method may have a source position. Neighbouring instructions mostly share
their line, so the positions are stored as a stream of records that move a file and a line forward:

| first byte | bytes | record                                                          |
|------------|-------|-----------------------------------------------------------------|
| `fffffff1` | 2     | go to file `f`, whose low eight bits are the second byte        |
| `ddcccc10` | 1     | `c` instructions are on this line; the line then grows by `d`   |
| `lllll100` | 1     | the line grows by `l`, and one instruction is there             |
| `lllll000` | 3     | the line becomes `l + 32 b + 8192 c`; one instruction is there  |

The stream starts before the first file, in line 0. The format is defined in two steps: positions
against records, and records against bytes.

Lines are 32-bit numbers. Where a sum or a difference of lines has no such form, the reader or the
writer breaks.
-/

namespace HashLink

/-- A place in the source: an index into the list of debug files, and a line. -/
structure Position where
  file : Int32
  line : Int32
  deriving DecidableEq, Repr

/-- An integer that has a 32-bit form. -/
def FitsInt32 (x : Int) : Prop := -0x80000000 ≤ x ∧ x < 0x80000000

instance (x : Int) : Decidable (FitsInt32 x) := inferInstanceAs (Decidable (_ ∧ _))

/-- The files that a record can name lie below this. -/
def debugFileLimit : Int32 := 0x8000

/-- The lines that a record can name on its own lie below this. -/
def debugLineLimit : Int32 := 0x200000

/-- The longest run of instructions in one record. -/
def longestRun : Nat := 15

/-- One record of the position stream. -/
inductive PositionRecord where
  /-- Go on in another file. -/
  | file (index : Nat)
  /-- Some instructions are on this line; go on a little further down. -/
  | run (count advance : Nat)
  /-- One instruction is a few lines further down. -/
  | near (step : Nat)
  /-- One instruction is on the given line. -/
  | far (line : Nat)
  deriving DecidableEq, Repr

/-- Where the stream stands between two records. -/
structure Track where
  file : Int32 := -1
  line : Int32 := 0
  deriving DecidableEq, Repr

namespace PositionRecord

/-- A record on the wire. -/
def encode : PositionRecord → List UInt8
  | .file index => [UInt8.ofNat (index / 256 * 2 + 1), UInt8.ofNat index]
  | .run count advance => [UInt8.ofNat (advance * 64 + count * 4 + 2)]
  | .near step => [UInt8.ofNat (step * 8 + 4)]
  | .far line =>
    [UInt8.ofNat (line % 32 * 8), UInt8.ofNat (line / 32), UInt8.ofNat (line / 8192)]

/-- Reads a record. -/
def read : Reader PositionRecord := do
  let a := (← Reader.byte).toNat
  if a % 2 = 1 then
    let b ← Reader.byte
    return .file (a / 2 * 256 + b.toNat)
  else if a / 2 % 2 = 1 then
    return .run (a / 4 % 16) (a / 64)
  else if a / 4 % 2 = 1 then
    return .near (a / 8)
  else
    let b ← Reader.byte
    let c ← Reader.byte
    return .far (a / 8 + b.toNat * 32 + c.toNat * 8192)

/-- How many instructions a record places. -/
def size : PositionRecord → Nat
  | .file _ => 0
  | .run count _ => count
  | .near _ | .far _ => 1

/-- By how many lines a record moves on from where the stream stands. -/
def growth : PositionRecord → Nat
  | .file _ | .far _ => 0
  | .run _ advance => advance
  | .near step => step

/-- The line that a record moves on to has a 32-bit form. -/
def InReach (t : Track) (r : PositionRecord) : Prop := FitsInt32 (t.line.toInt + r.growth)

instance (t : Track) (r : PositionRecord) : Decidable (r.InReach t) :=
  inferInstanceAs (Decidable (FitsInt32 _))

/-- Where the stream stands after a record that is in reach. -/
def next (t : Track) : PositionRecord → Track
  | .file index => { t with file := Int32.ofNat index }
  | .run _ advance => { t with line := t.line + Int32.ofNat advance }
  | .near step => { t with line := t.line + Int32.ofNat step }
  | .far line => { t with line := Int32.ofNat line }

/-- The positions of the instructions that a record places. -/
def positions (t : Track) : PositionRecord → List Position
  | .file _ => []
  | .run count _ => List.replicate count ⟨t.file, t.line⟩
  | .near step => [⟨t.file, t.line + Int32.ofNat step⟩]
  | .far line => [⟨t.file, Int32.ofNat line⟩]

@[simp] theorem length_positions (t : Track) (r : PositionRecord) :
    (r.positions t).length = r.size := by
  cases r <;> simp [positions, size]

end PositionRecord

/-! ## From positions to records -/

/-- What the writer of a stream keeps between two positions: where the stream stands, and how many
instructions on its line have no record yet. -/
structure Scribe extends Track where
  pending : Nat := 0
  deriving DecidableEq, Repr

namespace Scribe

/-- The records of a run of at least one instruction that are full and have others behind them. -/
def fullRuns (count : Nat) : List PositionRecord :=
  List.replicate ((count - 1) / longestRun) (.run longestRun 0)

/-- The records of a run of at least one instruction, the last one moving the line forward. -/
def runRecords (count advance : Nat) : List PositionRecord :=
  fullRuns count ++ [.run ((count - 1) % longestRun + 1) advance]

/-- Writes down the pending run. A step of up to three lines towards the next line goes into its
last record. -/
def flush (s : Scribe) (next : Int32) : Emission EncodeError PositionRecord × Scribe :=
  if s.pending = 0 then (.empty, s)
  else if ¬FitsInt32 (next.toInt - s.line.toInt) then
    (.ofList (fullRuns s.pending) ++ .fail (.panicked .subtraction), s)
  else
    let step := next - s.line
    let advance := if 0 < step ∧ step < 4 then step else 0
    let runs := .ofList (runRecords s.pending advance.toInt.toNat)
    if ¬FitsInt32 (s.line.toInt + advance.toInt) then (runs ++ .fail (.panicked .addition), s)
    else (runs, { s with line := s.line + advance, pending := 0 })

/-- Moves to the file of a position. -/
def enterFile (s : Scribe) (p : Position) : Emission EncodeError PositionRecord × Scribe :=
  if p.file = s.file then (.empty, s)
  else
    let (runs, s) := s.flush p.line
    if 0 ≤ p.file ∧ p.file < debugFileLimit then
      (runs ++ .ofList [.file p.file.toInt.toNat], { s with file := p.file })
    else
      (runs ++ .fail (.debugFileOutOfRange p.file), s)

/-- Moves to the line of a position in the current file, and places an instruction there. -/
def enterLine (s : Scribe) (p : Position) : Emission EncodeError PositionRecord × Scribe :=
  let (runs, s) := if p.line = s.line then (.empty, s) else s.flush p.line
  if p.line = s.line then
    (runs, { s with pending := s.pending + 1 })
  else if ¬FitsInt32 (p.line.toInt - s.line.toInt) then
    (runs ++ .fail (.panicked .subtraction), s)
  else
    let step := p.line - s.line
    if 0 < step ∧ step < 32 then
      (runs ++ .ofList [.near step.toInt.toNat], { s with line := p.line })
    else if 0 ≤ p.line ∧ p.line < debugLineLimit then
      (runs ++ .ofList [.far p.line.toInt.toNat], { s with line := p.line })
    else
      (runs ++ .fail (.debugLineOutOfRange p.line), s)

/-- Places an instruction at a position. -/
def place (s : Scribe) (p : Position) : Emission EncodeError PositionRecord × Scribe :=
  let (file, s) := s.enterFile p
  let (line, s) := s.enterLine p
  (file ++ line, s)

/-- The records of a list of positions. -/
def records (s : Scribe) : List Position → Emission EncodeError PositionRecord
  | [] => (s.flush s.line).1
  | p :: ps =>
    let (one, s) := s.place p
    one ++ records s ps

end Scribe

namespace Output

/-- One position per instruction. -/
def positions (ps : List Position) : Output :=
  (Scribe.records {} ps).expand PositionRecord.encode

end Output

/-! ## From records to positions -/

namespace Reader

/-- Reads records until they have placed `needed` more instructions, out of `total`. Every record
takes at least a byte, so as many rounds as there are bytes are enough. -/
def positionsFrom (total : Nat) : (rounds : Nat) → Track → (needed : Nat) → Reader (List Position)
  | _, _, 0 => pure []
  | 0, _, _ + 1 => do throw (.unexpectedEnd (← position))
  | rounds + 1, track, needed + 1 => do
    let record ← PositionRecord.read
    if needed + 1 < record.size then
      throw (.debugOverrun total (total - (needed + 1) + record.size))
    if ¬record.InReach track then throw (.panicked .addition)
    let more ← positionsFrom total rounds (record.next track) (needed + 1 - record.size)
    return record.positions track ++ more

/-- Reads the positions of `count` instructions. Setting aside room for them beforehand is no part of
this, so no count is too large to begin with. -/
def positions (count : Nat) : Reader (List Position) := do
  positionsFrom count (← get).remaining {} count

end Reader

end HashLink
