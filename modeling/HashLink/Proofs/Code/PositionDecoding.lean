import HashLink.Proofs.Code.PositionLimits
import HashLink.Proofs.Wire.VarintCodec
import Mathlib.Logic.Relation

/-!
# Position streams of any origin

A reader of positions goes on until it has as many as it needs, and some records place none: a
stream can change the file again and again, or have runs of no instructions. What comes to an end is
the input, since every record takes a byte.

The decoding of a stream is told here as a step relation (`Decoding.Round`), with no bound on the
number of rounds. It has no endless runs, every run ends in one of four ways (`Decoding.Ends`), and
the reader answers accordingly (`Reader.positions_eq_iff`). What is true of its answer then follows
from what one round keeps: files and lines are looked at separately, since lines need a bound on the
input.
-/

namespace HashLink

open Emission Relation

/-! ## Records and bytes -/

namespace PositionRecord

theorem ofNat_eq_of_mod {n : Nat} {b : UInt8} (h : n % 256 = b.toNat) : UInt8.ofNat n = b := by
  rw [← UInt8.toNat_inj, UInt8.toNat_ofNat']
  exact h

/-- A record is read from its bytes. -/
theorem read_of_over {c c' : Cursor} {r : PositionRecord} (hfits : r.Fits)
    (hover : c.Over r.encode c') : read c = .ok r c' := by
  obtain ⟨position, rest⟩ := c
  obtain ⟨position', rest'⟩ := c'
  obtain ⟨hrest, hposition⟩ := hover
  dsimp only at hrest hposition
  rw [hrest, hposition]
  exact reads_record hfits (finishes_ofList _) position rest'

/-- The input has run out inside a record, or before it. -/
def endOfInput (c : Cursor) : EStateM.Result DecodeError Cursor PositionRecord :=
  .error (.unexpectedEnd (c.position + c.remaining)) ⟨c.position + c.remaining, []⟩

/-- **Any bytes start with a record, or there are too few of them.** The first byte says which
record it is, and whatever the other bytes are, they fit. -/
theorem exists_over_or_endOfInput (c : Cursor) :
    (∃ (r : PositionRecord) (c' : Cursor), r.Fits ∧ c.Over r.encode c') ∨
      read c = endOfInput c := by
  obtain ⟨position, rest⟩ := c
  rcases rest with _ | ⟨a, rest⟩
  · exact .inr rfl
  · -- the cases are those of the reader: the two low bits, and then a third one
    have ha := a.toNat_lt
    by_cases hfile : a.toNat % 2 = 1
    · rcases rest with _ | ⟨b, rest⟩
      · right
        simp [read, Reader.byte, bind, EStateM.bind, hfile, endOfInput, Cursor.remaining]
      · have hb := b.toNat_lt
        refine .inl ⟨.file (a.toNat / 2 * 256 + b.toNat), ⟨position + 2, rest⟩, ?_, ?_, rfl⟩
        · show _ < 0x8000
          omega
        · rw [encode, ofNat_eq_of_mod (b := a) (by omega), ofNat_eq_of_mod (b := b) (by omega)]
          rfl
    · by_cases hrun : a.toNat / 2 % 2 = 1
      · refine .inl ⟨.run (a.toNat / 4 % 16) (a.toNat / 64), ⟨position + 1, rest⟩, ?_, ?_, rfl⟩
        · exact ⟨by omega, by omega⟩
        · rw [encode, ofNat_eq_of_mod (b := a) (by omega)]
          rfl
      · by_cases hnear : a.toNat / 4 % 2 = 1
        · refine .inl ⟨.near (a.toNat / 8), ⟨position + 1, rest⟩, ?_, ?_, rfl⟩
          · show _ < 32
            omega
          · rw [encode, ofNat_eq_of_mod (b := a) (by omega)]
            rfl
        · rcases rest with _ | ⟨b, _ | ⟨d, rest⟩⟩
          · right
            simp [read, Reader.byte, bind, EStateM.bind, hfile, hrun, hnear, endOfInput,
              Cursor.remaining]
          · right
            simp [read, Reader.byte, bind, EStateM.bind, hfile, hrun, hnear, endOfInput,
              Cursor.remaining]
          · have hb := b.toNat_lt
            have hd := d.toNat_lt
            refine .inl ⟨.far (a.toNat / 8 + b.toNat * 32 + d.toNat * 8192), ⟨position + 3, rest⟩,
              ?_, ?_, rfl⟩
            · show _ < 0x200000
              omega
            · rw [encode, ofNat_eq_of_mod (b := a) (by omega), ofNat_eq_of_mod (b := b) (by omega),
                ofNat_eq_of_mod (b := d) (by omega)]
              rfl

end PositionRecord

/-! ## Rounds -/

/-- Where the decoding of a stream stands between two records. -/
structure Decoding where
  /-- What is left of the input. -/
  cursor : Cursor
  /-- Where the stream has come to. -/
  track : Track := {}
  /-- The positions placed so far. -/
  placed : List Position := []

namespace Decoding

/-- The next bytes of the input are a whole record, and `c` is behind it. -/
def Next (s : Decoding) (r : PositionRecord) (c : Cursor) : Prop :=
  r.Fits ∧ s.cursor.Over r.encode c

/-- The decoding behind a record. -/
def after (s : Decoding) (r : PositionRecord) (c : Cursor) : Decoding :=
  ⟨c, r.next s.track, s.placed ++ r.positions s.track⟩

/-- One round: positions are missing, and a record is next that does not place too many and leads to
a line. -/
inductive Round (count : Nat) (s : Decoding) : Decoding → Prop where
  | record {r : PositionRecord} {c : Cursor} (missing : s.placed.length < count) (next : s.Next r c)
    (room : s.placed.length + r.size ≤ count) (reach : r.InReach s.track) :
    Round count s (s.after r c)

/-- Some rounds lead from the start of a stream to a state. -/
def Reaches (count : Nat) (c : Cursor) (s : Decoding) : Prop :=
  ReflTransGen (Round count) { cursor := c } s

/-- Positions are missing, and a run is next that goes past the last one. -/
def Overruns (count : Nat) (s : Decoding) : Prop :=
  s.placed.length < count ∧
    ∃ n advance c, s.Next (.run n advance) c ∧ count < s.placed.length + n

/-- Positions are missing, and the bytes that are left are no whole record. -/
def RunsOut (count : Nat) (s : Decoding) : Prop :=
  s.placed.length < count ∧ ∀ r c, ¬s.Next r c

/-- What is to be answered where there is no next round. -/
inductive Ends (count : Nat) (s : Decoding) :
    EStateM.Result DecodeError Cursor (List Position) → Prop where
  | complete (enough : s.placed.length = count) : Ends count s (.ok s.placed s.cursor)
  | overrun {n advance : Nat} {c : Cursor} (missing : s.placed.length < count)
    (next : s.Next (.run n advance) c) (past : count < s.placed.length + n) :
    Ends count s (.error (.debugOverrun count (s.placed.length + n)) c)
  | broke {r : PositionRecord} {c : Cursor} (missing : s.placed.length < count) (next : s.Next r c)
    (room : s.placed.length + r.size ≤ count) (far : ¬r.InReach s.track) :
    Ends count s (.error (.panicked .addition) c)
  | cutOff (out : s.RunsOut count) :
    Ends count s (.error (.unexpectedEnd (s.cursor.position + s.cursor.remaining))
      ⟨s.cursor.position + s.cursor.remaining, []⟩)

section Rounds

variable {count : Nat} {s s' : Decoding} {r r' : PositionRecord} {c c' : Cursor}

theorem Next.read (h : s.Next r c) : PositionRecord.read s.cursor = .ok r c :=
  PositionRecord.read_of_over h.1 h.2

theorem Next.unique (h : s.Next r c) (h' : s.Next r' c') : r = r' ∧ c = c' := by
  have hread := h.read
  rw [h'.read] at hread
  cases hread
  exact ⟨rfl, rfl⟩

/-- Every record takes a byte. -/
theorem Next.remaining (h : s.Next r c) :
    s.cursor.remaining = r.encode.length + c.remaining := by
  rw [Cursor.remaining, h.2.rest, List.length_append]
  rfl

/-- **There is no endless run**, though records may place nothing: each round leaves fewer bytes. -/
theorem wellFounded_round (count : Nat) : WellFounded fun s' s => Round count s s' := by
  refine Subrelation.wf ?_ (measure fun s : Decoding => s.cursor.remaining).wf
  intro s' s h
  cases h with
  | @record r c missing next room reach =>
      have hbytes := r.length_encode_pos
      have hremaining := next.remaining
      show c.remaining < s.cursor.remaining
      omega

theorem round_unique (count : Nat) : Relator.RightUnique (Round count) := by
  intro s s₁ s₂ h₁ h₂
  cases h₁ with
  | record _ next₁ _ _ =>
      cases h₂ with
      | record _ next₂ _ _ =>
          obtain ⟨rfl, rfl⟩ := next₁.unique next₂
          rfl

/-- A state with an answer has no next round. -/
theorem Ends.final {res : EStateM.Result DecodeError Cursor (List Position)}
    (h : s.Ends count res) : ¬Round count s s' := by
  intro hround
  cases hround with
  | record missing next room reach =>
      cases h with
      | complete enough => omega
      | overrun _ next' past =>
          obtain ⟨rfl, rfl⟩ := next.unique next'
          rw [PositionRecord.size] at room
          omega
      | broke _ next' _ far =>
          obtain ⟨rfl, rfl⟩ := next.unique next'
          exact far reach
      | cutOff out => exact out.2 _ _ next

/-- A state has one answer. -/
theorem Ends.unique {res res' : EStateM.Result DecodeError Cursor (List Position)}
    (h : s.Ends count res) (h' : s.Ends count res') : res = res' := by
  cases h with
  | complete enough =>
      cases h' with
      | complete _ => rfl
      | overrun missing _ _ => omega
      | broke missing _ _ _ => omega
      | cutOff out => exact absurd out.1 (by omega)
  | overrun missing next past =>
      cases h' with
      | complete enough => omega
      | overrun _ next' _ =>
          obtain ⟨hrun, rfl⟩ := next.unique next'
          cases hrun
          rfl
      | broke _ next' room _ =>
          obtain ⟨rfl, rfl⟩ := next.unique next'
          exact absurd room (Nat.not_le.mpr past)
      | cutOff out => exact absurd next (out.2 _ _)
  | broke missing next room far =>
      cases h' with
      | complete enough => omega
      | overrun _ next' past =>
          obtain ⟨rfl, rfl⟩ := next.unique next'
          exact absurd room (Nat.not_le.mpr past)
      | broke _ next' _ _ =>
          obtain ⟨rfl, rfl⟩ := next.unique next'
          rfl
      | cutOff out => exact absurd next (out.2 _ _)
  | cutOff out =>
      cases h' with
      | complete enough => exact absurd out.1 (by omega)
      | overrun _ next _ => exact absurd next (out.2 _ _)
      | broke _ next _ _ => exact absurd next (out.2 _ _)
      | cutOff _ => rfl

/-- A run leads to one end. -/
theorem Reaches.unique {res res' : EStateM.Result DecodeError Cursor (List Position)}
    (h : Reaches count c s) (hend : s.Ends count res) (h' : Reaches count c s')
    (hend' : s'.Ends count res') : res = res' := by
  -- one of the two states comes after the other, and neither has a next round
  have hsame : s = s' := by
    rcases ReflTransGen.total_of_right_unique (round_unique count) h h' with hrun | hrun
    · rcases hrun.cases_head with hsame | ⟨_, hround, _⟩
      · exact hsame
      · exact absurd hround hend.final
    · rcases hrun.cases_head with hsame | ⟨_, hround, _⟩
      · exact hsame.symm
      · exact absurd hround hend'.final
  subst hsame
  exact hend.unique hend'

end Rounds

/-! ## The reader -/

/-- The answer of a reader that goes on from a state for so many rounds. -/
def answer (count rounds : Nat) (s : Decoding) :
    EStateM.Result DecodeError Cursor (List Position) :=
  (Reader.positionsFrom count rounds s.track (count - s.placed.length) >>=
    fun more => pure (s.placed ++ more)) s.cursor

section Answer

variable {count rounds : Nat} {s : Decoding}

theorem answer_of_enough (h : s.placed.length = count) :
    s.answer count rounds = .ok s.placed s.cursor := by
  rw [answer, h, Nat.sub_self]
  cases rounds <;> exact congrArg (EStateM.Result.ok · s.cursor) (List.append_nil s.placed)

/-- The reader counts down what is missing. -/
theorem exists_needed (missing : s.placed.length < count) :
    ∃ needed, count - s.placed.length = needed + 1 :=
  Nat.exists_eq_succ_of_ne_zero (by omega)

/-- A round of the reader is a round of the decoding. -/
theorem answer_of_round {r : PositionRecord} {c : Cursor} (missing : s.placed.length < count)
    (next : s.Next r c) (room : s.placed.length + r.size ≤ count) (reach : r.InReach s.track) :
    s.answer count (rounds + 1) = (s.after r c).answer count rounds := by
  obtain ⟨needed, hneeded⟩ := exists_needed missing
  have hleft : count - (s.after r c).placed.length = needed + 1 - r.size := by
    show count - (s.placed ++ r.positions s.track).length = _
    rw [List.length_append, PositionRecord.length_positions]
    omega
  rw [answer, answer, hleft, hneeded, Reader.positionsFrom, bind_assoc, Reader.bind_of_ok next.read,
    if_neg (by omega), if_neg (not_not.mpr reach), bind_assoc]
  simp only [pure_bind, ← List.append_assoc]
  rfl

theorem answer_of_far {r : PositionRecord} {c : Cursor} (missing : s.placed.length < count)
    (next : s.Next r c) (room : s.placed.length + r.size ≤ count) (far : ¬r.InReach s.track) :
    s.answer count (rounds + 1) = .error (.panicked .addition) c := by
  obtain ⟨needed, hneeded⟩ := exists_needed missing
  rw [answer, hneeded, Reader.positionsFrom, bind_assoc, Reader.bind_of_ok next.read,
    if_neg (by omega), if_pos far]
  rfl

theorem answer_of_overrun {n advance : Nat} {c : Cursor} (missing : s.placed.length < count)
    (next : s.Next (.run n advance) c) (past : count < s.placed.length + n) :
    s.answer count (rounds + 1) = .error (.debugOverrun count (s.placed.length + n)) c := by
  obtain ⟨needed, hneeded⟩ := exists_needed missing
  have hsize : (PositionRecord.run n advance).size = n := rfl
  rw [answer, hneeded, Reader.positionsFrom, bind_assoc, Reader.bind_of_ok next.read, hsize,
    if_pos (by omega), show count - (needed + 1) + n = s.placed.length + n by omega]
  rfl

theorem answer_of_endOfInput (missing : s.placed.length < count)
    (h : PositionRecord.read s.cursor = PositionRecord.endOfInput s.cursor) :
    s.answer count (rounds + 1) =
      .error (.unexpectedEnd (s.cursor.position + s.cursor.remaining))
        ⟨s.cursor.position + s.cursor.remaining, []⟩ := by
  obtain ⟨needed, hneeded⟩ := exists_needed missing
  rw [answer, hneeded, Reader.positionsFrom, bind_assoc]
  show EStateM.bind PositionRecord.read _ s.cursor = _
  rw [EStateM.bind, h]
  rfl

/-- Rounds are used up only when the bytes are. -/
theorem answer_of_no_rounds (missing : s.placed.length < count) (hempty : s.cursor.remaining = 0) :
    s.answer count 0 =
      .error (.unexpectedEnd (s.cursor.position + s.cursor.remaining))
        ⟨s.cursor.position + s.cursor.remaining, []⟩ := by
  obtain ⟨needed, hneeded⟩ := exists_needed missing
  have hrest : s.cursor.rest = [] := List.length_eq_zero_iff.mp hempty
  rw [answer, hneeded, Reader.positionsFrom, hempty, Nat.add_zero, ← hrest]
  rfl

/-- Only a run can place too many positions. -/
theorem exists_run_of_size {r : PositionRecord} (missing : s.placed.length < count)
    (past : count < s.placed.length + r.size) : ∃ n advance, r = .run n advance := by
  cases r with
  | file index => rw [PositionRecord.size] at past; omega
  | run n advance => exact ⟨n, advance, rfl⟩
  | near step => rw [PositionRecord.size] at past; omega
  | far line => rw [PositionRecord.size] at past; omega

/-- **The reader follows the rounds to their end**, if it has a round for each byte. -/
theorem exists_ends_answer (henough : s.placed.length ≤ count)
    (hrounds : s.cursor.remaining ≤ rounds) :
    ∃ s', ReflTransGen (Round count) s s' ∧ s'.Ends count (s.answer count rounds) := by
  -- on the rounds that are left: they are never fewer than the bytes, and a record takes a byte
  induction rounds generalizing s with
  | zero =>
      rcases Nat.eq_or_lt_of_le henough with enough | missing
      · rw [answer_of_enough enough]
        exact ⟨s, .refl, .complete enough⟩
      · rw [answer_of_no_rounds missing (Nat.le_zero.mp hrounds)]
        refine ⟨s, .refl, .cutOff ⟨missing, fun r c next => ?_⟩⟩
        have hbytes := r.length_encode_pos
        have hremaining := next.remaining
        omega
  | succ rounds ih =>
      rcases Nat.eq_or_lt_of_le henough with enough | missing
      · rw [answer_of_enough enough]
        exact ⟨s, .refl, .complete enough⟩
      · rcases PositionRecord.exists_over_or_endOfInput s.cursor with ⟨r, c, next⟩ | hend
        · by_cases room : s.placed.length + r.size ≤ count
          · have hbytes := r.length_encode_pos
            have hremaining := Next.remaining next
            have hlength : (s.after r c).placed.length ≤ count := by
              show (s.placed ++ r.positions s.track).length ≤ count
              rw [List.length_append, PositionRecord.length_positions]
              exact room
            by_cases reach : r.InReach s.track
            · obtain ⟨s', hrun, hends⟩ := ih hlength (show c.remaining ≤ rounds by omega)
              rw [answer_of_round missing next room reach]
              exact ⟨s', .head (.record missing next room reach) hrun, hends⟩
            · rw [answer_of_far missing next room reach]
              exact ⟨s, .refl, .broke missing next room reach⟩
          · obtain ⟨n, advance, rfl⟩ := exists_run_of_size missing (Nat.lt_of_not_le room)
            have past : count < s.placed.length + n := Nat.lt_of_not_le room
            rw [answer_of_overrun missing next past]
            exact ⟨s, .refl, .overrun missing next past⟩
        · rw [answer_of_endOfInput missing hend]
          refine ⟨s, .refl, .cutOff ⟨missing, fun r c next => ?_⟩⟩
          have hread := Next.read next
          rw [hend] at hread
          cases hread

end Answer

end Decoding

namespace Reader

open Decoding

theorem positions_eq_answer (count : Nat) (c : Cursor) :
    positions count c = answer count c.remaining { cursor := c } := by
  show positionsFrom count c.remaining {} count c = _
  simp only [answer, List.length_nil, Nat.sub_zero, List.nil_append, bind_pure]

/-- **What the reader answers is what the rounds lead to.** -/
theorem positions_eq_iff {count : Nat} {c : Cursor}
    {res : EStateM.Result DecodeError Cursor (List Position)} :
    positions count c = res ↔ ∃ s, Reaches count c s ∧ s.Ends count res := by
  have hstart : ({ cursor := c } : Decoding).placed.length ≤ count := Nat.zero_le count
  obtain ⟨s, hreaches, hends⟩ := exists_ends_answer hstart (Nat.le_refl _)
  rw [← positions_eq_answer] at hends
  constructor
  · rintro rfl
    exact ⟨s, hreaches, hends⟩
  · rintro ⟨s', hreaches', hends'⟩
    exact Reaches.unique hreaches hends hreaches' hends'

theorem positions_overrun_iff (count : Nat) (c : Cursor) :
    (∃ expected decoded c', positions count c = .error (.debugOverrun expected decoded) c') ↔
      ∃ s, Reaches count c s ∧ s.Overruns count := by
  constructor
  · rintro ⟨expected, decoded, c', h⟩
    obtain ⟨s, hreaches, hends⟩ := positions_eq_iff.mp h
    cases hends with
    | overrun missing next past => exact ⟨s, hreaches, missing, _, _, _, next, past⟩
  · rintro ⟨s, hreaches, missing, n, advance, c', next, past⟩
    exact ⟨_, _, _, positions_eq_iff.mpr ⟨s, hreaches, .overrun missing next past⟩⟩

theorem positions_cutOff_iff (count : Nat) (c : Cursor) :
    (∃ offset c', positions count c = .error (.unexpectedEnd offset) c') ↔
      ∃ s, Reaches count c s ∧ s.RunsOut count := by
  constructor
  · rintro ⟨offset, c', h⟩
    obtain ⟨s, hreaches, hends⟩ := positions_eq_iff.mp h
    cases hends with
    | cutOff out => exact ⟨s, hreaches, out⟩
  · rintro ⟨s, hreaches, out⟩
    exact ⟨_, _, positions_eq_iff.mpr ⟨s, hreaches, .cutOff out⟩⟩

end Reader

/-! ## Files -/

/-- A file that a record can name. -/
def Position.InFile (p : Position) : Prop := 0 ≤ p.file.toInt ∧ p.file.toInt < 0x8000

/-- No file up to some position, and from there on files that a record can name. -/
def Position.FilesOpen (ps : List Position) : Prop :=
  ∃ before after, ps = before ++ after ∧ (∀ p ∈ before, p.file = -1) ∧ ∀ p ∈ after, p.InFile

theorem Position.FilesOpen.append {ps more : List Position} (h : FilesOpen ps)
    (hmore : ∀ p ∈ more, p.InFile) : FilesOpen (ps ++ more) := by
  obtain ⟨before, after, rfl, hbefore, hafter⟩ := h
  refine ⟨before, after ++ more, List.append_assoc .., hbefore, fun p hp => ?_⟩
  rcases List.mem_append.mp hp with hp | hp
  · exact hafter p hp
  · exact hmore p hp

namespace Decoding

/-- The stream has come to no file yet and neither has any position, or it is in a file. -/
def Filed (s : Decoding) : Prop :=
  s.track.file = -1 ∧ (∀ p ∈ s.placed, p.file = -1) ∨
    s.track.position.InFile ∧ Position.FilesOpen s.placed

theorem Filed.filesOpen {s : Decoding} (h : s.Filed) : Position.FilesOpen s.placed := by
  rcases h with ⟨_, hplaced⟩ | ⟨_, hopen⟩
  · exact ⟨s.placed, [], (List.append_nil _).symm, hplaced, by simp⟩
  · exact hopen

/-- One record. -/
theorem Filed.after {s : Decoding} (h : s.Filed) {r : PositionRecord} (hr : r.Fits) (c : Cursor) :
    (s.after r c).Filed := by
  by_cases hfile : ∃ index, r = .file index
  · obtain ⟨index, rfl⟩ := hfile
    have hindex : index < 0x8000 := hr
    have hvalue : (Int32.ofNat index).toInt = index := Int32.toInt_ofNat_of_lt (by omega)
    right
    refine ⟨⟨?_, ?_⟩, ?_⟩
    · show 0 ≤ (Int32.ofNat index).toInt
      omega
    · show (Int32.ofNat index).toInt < 0x8000
      omega
    · show Position.FilesOpen (s.placed ++ [])
      rw [List.append_nil]
      exact h.filesOpen
  · have hsame : (r.next s.track).file = s.track.file := by
      cases r with
      | file index => exact absurd ⟨index, rfl⟩ hfile
      | run n advance => rfl
      | near step => rfl
      | far line => rfl
    rcases h with ⟨hnone, hplaced⟩ | ⟨hin, hopen⟩
    · left
      refine ⟨hsame.trans hnone, fun p hp => ?_⟩
      rcases List.mem_append.mp hp with hp | hp
      · exact hplaced p hp
      · exact (PositionRecord.file_of_mem_positions hp).trans hnone
    · right
      refine ⟨?_, hopen.append fun p hp => ?_⟩
      · show 0 ≤ (r.next s.track).file.toInt ∧ (r.next s.track).file.toInt < 0x8000
        rw [hsame]
        exact hin
      · rw [Position.InFile, PositionRecord.file_of_mem_positions hp]
        exact hin

/-- Many records. -/
theorem Reaches.filed {count : Nat} {c : Cursor} {s : Decoding} (h : Reaches count c s) :
    s.Filed := by
  induction h with
  | refl => exact .inl ⟨rfl, by simp⟩
  | tail _ hround ih =>
      cases hround with
      | record _ next _ _ => exact ih.after next.1 _

end Decoding

/-! ## Lines -/

namespace Decoding

/-- In an input of `size` bytes the stream gets down by at most 31 lines for each byte, from a line
that a record can name, and it never gets above line 0. -/
structure Lined (size : Nat) (s : Decoding) : Prop where
  bytes : s.cursor.remaining ≤ size
  low : 0 ≤ s.track.line.toInt
  high : s.track.line.toInt + 31 * s.cursor.remaining < 0x200000 + 31 * size
  placed : ∀ p ∈ s.placed, 0 ≤ p.line.toInt

variable {size : Nat} {s : Decoding} {r : PositionRecord} {c : Cursor}

/-- In a short input every sum fits. -/
theorem Lined.inReach (h : s.Lined size) (hsize : size < 2 ^ 26) (next : s.Next r c) :
    r.InReach s.track := by
  have hgrowth := PositionRecord.growth_lt next.1
  have hbytes := r.length_encode_pos
  have hremaining := next.remaining
  have hlow := h.low
  have hhigh := h.high
  exact ⟨by omega, by omega⟩

/-- One record. -/
theorem Lined.after (h : s.Lined size) (hsize : size < 2 ^ 26) (next : s.Next r c) :
    (s.after r c).Lined size := by
  have hlow := h.low
  have hhigh := h.high
  have hleft := h.bytes
  have hgrowth := PositionRecord.growth_lt next.1
  have hbytes := r.length_encode_pos
  have hremaining := next.remaining
  -- a step adds at most 31 and uses up a byte, and a line that is named starts all over
  have hreach := h.inReach hsize next
  have hline := PositionRecord.line_next next.1 hreach
  refine ⟨show c.remaining ≤ size by omega, PositionRecord.line_next_nonneg next.1 hreach hlow, ?_, ?_⟩
  · show (r.next s.track).line.toInt + 31 * c.remaining < 0x200000 + 31 * size
    omega
  · intro p hp
    rcases List.mem_append.mp hp with hp | hp
    · exact h.placed p hp
    · exact PositionRecord.line_nonneg_of_mem_positions next.1 hreach hlow hp

/-- Many records. -/
theorem Reaches.lined {count : Nat} (h : Reaches count c s) (hsize : c.remaining < 2 ^ 26) :
    s.Lined c.remaining := by
  induction h with
  | refl =>
      refine ⟨Nat.le_refl _, Int.le_refl 0, ?_, by simp⟩
      show 0 + 31 * (c.remaining : Int) < 0x200000 + 31 * c.remaining
      omega
  | tail _ hround ih =>
      cases hround with
      | record _ next _ _ => exact ih.after hsize next

end Decoding

/-! ## Any bytes -/

/-- **Positions from any bytes.** However many positions are asked for and whatever the bytes are,
there is no endless run of rounds, and the reader answers what the rounds lead to. If it gives
positions, they are as many as were asked for, first in no file and then in files that a record can
name. If fewer than 2^26 bytes are left, no line is negative, every sum of a line and a step has a
32-bit form, and the reader never breaks. It reports an overrun exactly if the rounds come to a run
that goes past the last position, and the end of the input exactly if they come to bytes that are no
whole record while positions are missing. -/
theorem Reader.positions_of_any_bytes (count : Nat) (c : Cursor) :
    (WellFounded fun s' s => Decoding.Round count s s') ∧
      (∀ res, positions count c = res ↔ ∃ s, Decoding.Reaches count c s ∧ s.Ends count res) ∧
      (∀ ps c', positions count c = .ok ps c' → ps.length = count ∧ Position.FilesOpen ps) ∧
      (c.remaining < 2 ^ 26 →
        (∀ ps c', positions count c = .ok ps c' → ∀ p ∈ ps, 0 ≤ p.line.toInt) ∧
          (∀ s r c', Decoding.Reaches count c s → s.Next r c' →
            FitsInt32 (s.track.line.toInt + r.growth)) ∧
          ∀ cause c', positions count c ≠ .error (.panicked cause) c') ∧
      ((∃ expected decoded c', positions count c = .error (.debugOverrun expected decoded) c') ↔
        ∃ s, Decoding.Reaches count c s ∧ s.Overruns count) ∧
      ((∃ offset c', positions count c = .error (.unexpectedEnd offset) c') ↔
        ∃ s, Decoding.Reaches count c s ∧ s.RunsOut count) := by
  refine ⟨Decoding.wellFounded_round count, fun _ => positions_eq_iff, ?_, ?_,
    positions_overrun_iff count c, positions_cutOff_iff count c⟩
  · intro ps c' h
    obtain ⟨s, hreaches, hends⟩ := positions_eq_iff.mp h
    cases hends with
    | complete enough => exact ⟨enough, hreaches.filed.filesOpen⟩
  · intro hsize
    refine ⟨?_, fun s r c' hreaches next => (hreaches.lined hsize).inReach hsize next, ?_⟩
    · intro ps c' h
      obtain ⟨s, hreaches, hends⟩ := positions_eq_iff.mp h
      cases hends with
      | complete enough => exact (hreaches.lined hsize).placed
    · intro cause c' h
      obtain ⟨s, hreaches, hends⟩ := positions_eq_iff.mp h
      cases hends with
      | broke _ next _ far => exact far ((hreaches.lined hsize).inReach hsize next)

/-- Two runs of no instructions, the second with a step, two instructions before any file, the last
file that a record can name, and lines up to the last that a record can name and beyond it. -/
def roughStream : List UInt8 := [0x02, 0xC2, 0x0A, 0xFF, 0xFF, 0xFC, 0xF8, 0xFF, 0xFF, 0xFC, 0x3E]

/-- The first five positions of the rough stream. -/
def roughPositions : List Position :=
  [⟨-1, 3⟩, ⟨-1, 3⟩, ⟨0x7FFF, 34⟩, ⟨0x7FFF, 0x1FFFFF⟩, ⟨0x7FFF, 0x20001E⟩]

theorem positions_of_roughStream :
    (Cursor.ofBytes roughStream).remaining < 2 ^ 26 ∧
      Reader.positions 5 (.ofBytes roughStream) = .ok roughPositions ⟨10, [0x3E]⟩ ∧
      Position.FilesOpen roughPositions ∧ (∀ p ∈ roughPositions, 0 ≤ p.line.toInt) ∧
      (∃ s, Decoding.Reaches 6 (.ofBytes roughStream) s ∧ s.Overruns 6) ∧
      ∃ s, Decoding.Reaches 4 (.ofBytes (roughStream.take 8)) s ∧ s.RunsOut 4 := by
  have hsize : (Cursor.ofBytes roughStream).remaining < 2 ^ 26 := by decide
  have hread : Reader.positions 5 (.ofBytes roughStream) = .ok roughPositions ⟨10, [0x3E]⟩ := rfl
  obtain ⟨-, -, hfiles, hlines, -, -⟩ := Reader.positions_of_any_bytes 5 (.ofBytes roughStream)
  obtain ⟨-, -, -, -, hoverrun, -⟩ := Reader.positions_of_any_bytes 6 (.ofBytes roughStream)
  obtain ⟨-, -, -, -, -, hcutOff⟩ := Reader.positions_of_any_bytes 4 (.ofBytes (roughStream.take 8))
  exact ⟨hsize, hread, (hfiles _ _ hread).2, (hlines hsize).1 _ _ hread,
    hoverrun.mp ⟨6, 20, ⟨11, []⟩, rfl⟩, hcutOff.mp ⟨8, ⟨8, []⟩, rfl⟩⟩

end HashLink
