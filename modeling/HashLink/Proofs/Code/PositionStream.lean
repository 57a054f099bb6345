import HashLink.Code.Position
import HashLink.Proofs.Wire.RoundTrip

/-!
# The position stream is read back

A stream of records places positions: each record places some and moves on. The argument goes in
three steps, one for each layer of the format.

* A record whose fields fit is read back from its bytes.
* A stream that ends with a record that places something is read back as the positions it places. A
  reader stops as soon as it has enough positions, so a record behind the last position would stay
  unread.
* The scribe writes such a stream, and it places exactly the positions that were given. What carries
  the induction is an account of what was given and not written yet: positions placed so far, and then
  the pending run, are together the pending run at the start and the positions given since.
-/

namespace HashLink

open Emission Reader

/-! ## Records -/

namespace PositionRecord

/-- The fields of a record have room in its bytes. -/
def Fits : PositionRecord → Prop
  | .file index => index < 0x8000
  | .run count advance => count < 16 ∧ advance < 4
  | .near step => step < 32
  | .far line => line < 0x200000

theorem reads_file {index : Nat} (h : index < 0x8000) :
    Reads read (ofList (encode (.file index)) : Output) (.file index) := by
  have ha : (UInt8.ofNat (index / 256 * 2 + 1)).toNat = index / 256 * 2 + 1 := by
    rw [UInt8.toNat_ofNat']; omega
  have hvalue : (index / 256 * 2 + 1) / 2 * 256 + (UInt8.ofNat index).toNat = index := by
    rw [UInt8.toNat_ofNat']; omega
  show Reads read (ofList [_] ++ ofList [_]) _
  refine (reads_byte _).bind ?_
  rw [ha, if_pos (by omega)]
  have := (reads_byte (ε := EncodeError) (UInt8.ofNat index)).map fun b =>
    PositionRecord.file ((index / 256 * 2 + 1) / 2 * 256 + b.toNat)
  rwa [hvalue] at this

theorem reads_run {count advance : Nat} (hc : count < 16) (ha : advance < 4) :
    Reads read (ofList (encode (.run count advance)) : Output) (.run count advance) := by
  have hbyte : (UInt8.ofNat (advance * 64 + count * 4 + 2)).toNat = advance * 64 + count * 4 + 2 := by
    rw [UInt8.toNat_ofNat']; omega
  have hcount : (advance * 64 + count * 4 + 2) / 4 % 16 = count := by omega
  have hadvance : (advance * 64 + count * 4 + 2) / 64 = advance := by omega
  refine Reads.andThen (reads_byte _) ?_
  rw [hbyte, if_neg (by omega), if_pos (by omega), hcount, hadvance]
  exact reads_pure _

theorem reads_near {step : Nat} (h : step < 32) :
    Reads read (ofList (encode (.near step)) : Output) (.near step) := by
  have hbyte : (UInt8.ofNat (step * 8 + 4)).toNat = step * 8 + 4 := by
    rw [UInt8.toNat_ofNat']; omega
  have hstep : (step * 8 + 4) / 8 = step := by omega
  refine Reads.andThen (reads_byte _) ?_
  rw [hbyte, if_neg (by omega), if_neg (by omega), if_pos (by omega), hstep]
  exact reads_pure _

theorem reads_far {line : Nat} (h : line < 0x200000) :
    Reads read (ofList (encode (.far line)) : Output) (.far line) := by
  have ha : (UInt8.ofNat (line % 32 * 8)).toNat = line % 32 * 8 := by
    rw [UInt8.toNat_ofNat']; omega
  have hvalue : line % 32 * 8 / 8 + (UInt8.ofNat (line / 32)).toNat * 32 +
      (UInt8.ofNat (line / 8192)).toNat * 8192 = line := by
    rw [UInt8.toNat_ofNat', UInt8.toNat_ofNat']; omega
  show Reads read (ofList [_] ++ (ofList [_] ++ ofList [_])) _
  refine (reads_byte _).bind ?_
  rw [ha, if_neg (by omega), if_neg (by omega), if_neg (by omega)]
  refine (reads_byte _).bind ?_
  have := (reads_byte (ε := EncodeError) (UInt8.ofNat (line / 8192))).map fun c =>
    PositionRecord.far (line % 32 * 8 / 8 + (UInt8.ofNat (line / 32)).toNat * 32 + c.toNat * 8192)
  rwa [hvalue] at this

/-- **A record whose fields fit is read back.** -/
theorem reads_record {r : PositionRecord} (h : r.Fits) :
    Reads read (ofList r.encode : Output) r := by
  cases r with
  | file index => exact reads_file h
  | run count advance => exact reads_run h.1 h.2
  | near step => exact reads_near h
  | far line => exact reads_far h

theorem length_encode_pos (r : PositionRecord) : 0 < r.encode.length := by
  cases r <;> simp [encode]

/-! ## Streams -/

/-- The positions that a stream places, from where it starts. -/
def placed : Track → List PositionRecord → List Position
  | _, [] => []
  | t, r :: rs => r.positions t ++ placed (r.next t) rs

/-- Where a stream ends. -/
def finish (t : Track) (rs : List PositionRecord) : Track := rs.foldl next t

theorem placed_append (t : Track) (rs rs' : List PositionRecord) :
    placed t (rs ++ rs') = placed t rs ++ placed (finish t rs) rs' := by
  induction rs generalizing t with
  | nil => rfl
  | cons r rs ih =>
      rw [List.cons_append, placed, placed, ih, List.append_assoc]
      rfl

theorem finish_append (t : Track) (rs rs' : List PositionRecord) :
    finish t (rs ++ rs') = finish (finish t rs) rs' := List.foldl_append ..

/-- No record of a stream leads out of the lines that there are. -/
def StaysInReach : Track → List PositionRecord → Prop
  | _, [] => True
  | t, r :: rs => r.InReach t ∧ StaysInReach (r.next t) rs

theorem staysInReach_append {t : Track} {rs rs' : List PositionRecord} :
    StaysInReach t (rs ++ rs') ↔ StaysInReach t rs ∧ StaysInReach (finish t rs) rs' := by
  induction rs generalizing t with
  | nil => exact (and_iff_right trivial).symm
  | cons r rs ih =>
      rw [List.cons_append, StaysInReach, StaysInReach, ih, and_assoc]
      rfl

theorem inReach_of_sum {t : Track} {r : PositionRecord} {line : Int32}
    (h : line.toInt = t.line.toInt + r.growth) : r.InReach t := by
  rw [InReach, ← h]
  exact ⟨line.le_toInt, line.toInt_lt⟩

/-- A record that does not move on is in reach. -/
theorem inReach_of_growth {t : Track} {r : PositionRecord} (h : r.growth = 0) : r.InReach t := by
  have hstay : t.line.toInt = t.line.toInt + r.growth := by omega
  exact inReach_of_sum hstay

/-- The stream does not go on after its last position. -/
def Ends (rs : List PositionRecord) : Prop := ∀ r ∈ rs.getLast?, 0 < r.size

theorem ends_append {rs rs' : List PositionRecord} (hne : rs' ≠ []) (h : Ends rs') :
    Ends (rs ++ rs') := by
  intro r hr
  rw [List.getLast?_append, List.getLast?_eq_some_getLast hne, Option.some_or] at hr
  exact h r (by rw [List.getLast?_eq_some_getLast hne]; exact hr)

theorem Ends.tail {r : PositionRecord} {rs : List PositionRecord} (h : Ends (r :: rs)) : Ends rs := by
  intro r' hr'
  cases rs with
  | nil => simp at hr'
  | cons s rs => exact h r' (by rw [List.getLast?_cons_cons]; exact hr')

theorem length_placed_pos {t : Track} {rs : List PositionRecord} (hne : rs ≠ []) (h : Ends rs) :
    0 < (placed t rs).length := by
  induction rs generalizing t with
  | nil => exact absurd rfl hne
  | cons r rs ih =>
      rw [placed, List.length_append, length_positions]
      by_cases hrs : rs = []
      · subst hrs
        have := h r (by simp)
        omega
      · have := ih (t := r.next t) hrs h.tail
        omega

/-- **A stream is read back as the positions it places.** -/
theorem reads_positionsFrom (total : Nat) {rs : List PositionRecord} (hfits : ∀ r ∈ rs, r.Fits)
    (hends : Ends rs) {t : Track} (hreach : StaysInReach t rs) {rounds : Nat}
    (hrounds : rs.length ≤ rounds) :
    Reads (positionsFrom total rounds t (placed t rs).length)
      (ofList (rs.flatMap encode) : Output) (placed t rs) := by
  induction rs generalizing t rounds with
  | nil =>
      cases rounds with
      | zero => exact reads_pure []
      | succ rounds => exact reads_pure []
  | cons r rs ih =>
      obtain ⟨rounds, rfl⟩ : ∃ k, rounds = k + 1 := ⟨rounds - 1, by simp at hrounds; omega⟩
      have hpos := length_placed_pos (t := t) (List.cons_ne_nil r rs) hends
      have hlength : (placed t (r :: rs)).length = r.size + (placed (r.next t) rs).length := by
        rw [placed, List.length_append, length_positions]
      obtain ⟨needed, hneeded⟩ : ∃ n, (placed t (r :: rs)).length = n + 1 :=
        ⟨(placed t (r :: rs)).length - 1, by omega⟩
      have hrest := ih (fun r' hr' => hfits r' (List.mem_cons_of_mem r hr')) hends.tail hreach.2
        (Nat.le_of_succ_le_succ hrounds)
      rw [hneeded, positionsFrom, List.flatMap_cons, ofList_append]
      refine Reads.bind (reads_record (hfits r (by simp))) ?_
      rw [if_neg (by omega), if_neg (Decidable.not_not.mpr hreach.1),
        show needed + 1 - r.size = (placed (r.next t) rs).length by omega]
      exact hrest.map (r.positions t ++ ·)

end PositionRecord

/-! ## The scribe -/

namespace Scribe

open PositionRecord

/-- The position of the pending run. -/
def here (s : Scribe) : Position := ⟨s.file, s.line⟩

/-- From one state of the scribe to another, the records `rs` were written while the positions `ps`
were given. -/
structure Wrote (s : Scribe) (rs : List PositionRecord) (ps : List Position) (s' : Scribe) : Prop where
  /-- What was placed and what is pending is all that was pending and all that was given. -/
  account : placed s.toTrack rs ++ List.replicate s'.pending s'.here =
    List.replicate s.pending s.here ++ ps
  /-- Whoever follows the records stands where the scribe stands. -/
  track : finish s.toTrack rs = s'.toTrack
  /-- Every record has its bytes. -/
  fits : ∀ r ∈ rs, r.Fits
  /-- Nobody who follows them breaks. -/
  reach : StaysInReach s.toTrack rs

theorem Wrote.refl (s : Scribe) : Wrote s [] [] s := ⟨by simp [placed], rfl, by simp, trivial⟩

theorem Wrote.trans {s s' s'' : Scribe} {rs rs' : List PositionRecord} {ps ps' : List Position}
    (h : Wrote s rs ps s') (h' : Wrote s' rs' ps' s'') : Wrote s (rs ++ rs') (ps ++ ps') s'' where
  account := by
    rw [placed_append, h.track, List.append_assoc, h'.account, ← List.append_assoc, h.account,
      List.append_assoc]
  track := by rw [finish_append, h.track, h'.track]
  fits := by
    intro r hr
    rcases List.mem_append.mp hr with hr | hr
    · exact h.fits r hr
    · exact h'.fits r hr
  reach := by
    rw [staysInReach_append, h.track]
    exact ⟨h.reach, h'.reach⟩

/-! ### Small steps -/

theorem ofNat_toNat_of_nonneg {v : Int32} (h : 0 ≤ v) : Int32.ofNat v.toInt.toNat = v :=
  Int32.ofNat_toNatClampNeg v h

theorem toNat_lt_of_lt {v : Int32} {n : Nat} (hpos : 0 < n) (hn : n < 0x80000000)
    (h : v < Int32.ofNat n) : v.toInt.toNat < n := by
  rw [Int32.lt_iff_toInt_lt, Int32.toInt_ofNat_of_lt hn] at h
  omega

/-- The exact difference of two lines, if it has a 32-bit form. -/
theorem toInt_sub_of_fits {line next : Int32} (h : FitsInt32 (next.toInt - line.toInt)) :
    (next - line).toInt = next.toInt - line.toInt := by
  obtain ⟨hlow, hhigh⟩ := h
  rw [Int32.toInt_sub, Int.bmod_eq_of_le] <;> omega

/-! ### Runs -/

theorem placed_fullRuns (t : Track) (k : Nat) (rs : List PositionRecord) :
    placed t (List.replicate k (.run longestRun 0) ++ rs) =
      List.replicate (k * longestRun) ⟨t.file, t.line⟩ ++ placed t rs := by
  induction k with
  | zero => simp
  | succ k ih =>
      have hnext : PositionRecord.next t (.run longestRun 0) = t := by
        simp [PositionRecord.next]
      rw [List.replicate_succ, List.cons_append, placed, hnext, ih, PositionRecord.positions,
        ← List.append_assoc,
        List.replicate_append_replicate, Nat.succ_mul, Nat.add_comm]

theorem finish_fullRuns (t : Track) (k : Nat) (rs : List PositionRecord) :
    finish t (List.replicate k (.run longestRun 0) ++ rs) = finish t rs := by
  induction k with
  | zero => simp
  | succ k ih =>
      have hnext : PositionRecord.next t (.run longestRun 0) = t := by
        simp [PositionRecord.next]
      rw [List.replicate_succ, List.cons_append, finish, List.foldl_cons, hnext]
      exact ih

/-- A run of instructions, cut into records of at most fifteen, places all of them. -/
theorem placed_runRecords (t : Track) {count : Nat} (h : 0 < count) (advance : Nat) :
    placed t (runRecords count advance) = List.replicate count ⟨t.file, t.line⟩ := by
  have hlongest : longestRun = 15 := rfl
  rw [runRecords, fullRuns, placed_fullRuns, placed, placed, List.append_nil, PositionRecord.positions,
    List.replicate_append_replicate]
  congr 1
  rw [hlongest]
  omega

theorem finish_runRecords (t : Track) (count advance : Nat) :
    finish t (runRecords count advance) = { t with line := t.line + Int32.ofNat advance } := by
  rw [runRecords, fullRuns, finish_fullRuns]
  rfl

theorem fits_runRecords {count advance : Nat} (ha : advance < 4) :
    ∀ r ∈ runRecords count advance, r.Fits := by
  have hlongest : longestRun = 15 := rfl
  intro r hr
  rw [runRecords, fullRuns, List.mem_append, List.mem_replicate, List.mem_singleton] at hr
  rcases hr with ⟨_, rfl⟩ | rfl
  · exact ⟨by decide, by decide⟩
  · exact ⟨by rw [hlongest]; omega, ha⟩

theorem ends_runRecords (count advance : Nat) : Ends (runRecords count advance) := by
  intro r hr
  rw [runRecords, List.getLast?_append, List.getLast?_singleton, Option.some_or] at hr
  cases hr
  exact Nat.succ_pos _

theorem staysInReach_fullRuns (t : Track) (k : Nat) :
    StaysInReach t (List.replicate k (.run longestRun 0)) := by
  induction k with
  | zero => trivial
  | succ k ih =>
      have hnext : PositionRecord.next t (.run longestRun 0) = t := by
        simp [PositionRecord.next]
      rw [List.replicate_succ, StaysInReach, hnext]
      exact ⟨inReach_of_growth rfl, ih⟩

theorem staysInReach_runRecords {t : Track} {count advance : Nat}
    (h : (PositionRecord.run ((count - 1) % longestRun + 1) advance).InReach t) :
    StaysInReach t (runRecords count advance) := by
  have hfinish : finish t (fullRuns count) = t := by
    have hfinish := finish_fullRuns t ((count - 1) / longestRun) []
    rwa [List.append_nil] at hfinish
  rw [runRecords, staysInReach_append, hfinish]
  exact ⟨staysInReach_fullRuns t _, h, trivial⟩

/-- What becomes of the pending run when the scribe is on its way to another line. -/
inductive Flushed (s : Scribe) (next : Int32) :
    Emission EncodeError PositionRecord × Scribe → Prop where
  /-- There is none. -/
  | idle (nothing : s.pending = 0) : Flushed s next (.empty, s)
  /-- The other line is too far away. -/
  | broke (busy : s.pending ≠ 0) (far : ¬FitsInt32 (next.toInt - s.line.toInt)) :
    Flushed s next (.ofList (fullRuns s.pending) ++ .fail (.panicked .subtraction), s)
  /-- It is written down, and the line stays or takes the whole step. -/
  | wrote {advance : Nat} {line : Int32} (busy : s.pending ≠ 0)
    (near : FitsInt32 (next.toInt - s.line.toInt)) (short : advance < 4)
    (sum : line.toInt = s.line.toInt + advance) (way : line = s.line ∨ line = next) :
    Flushed s next (.ofList (runRecords s.pending advance), { s with line, pending := 0 })

/-- The sum of a line and a step towards another line never leaves its range. -/
theorem flushed (s : Scribe) (next : Int32) : Flushed s next (s.flush next) := by
  have hlow := s.line.le_toInt
  have hhigh := s.line.toInt_lt
  unfold flush
  split
  · next nothing => exact .idle nothing
  · next busy =>
    split
    · next far => exact .broke busy far
    · next near =>
      rw [Decidable.not_not] at near
      have hexact := toInt_sub_of_fits near
      dsimp only
      split
      · next hstep =>
        have hpos : 0 < (next - s.line).toInt := Int32.lt_iff_toInt_lt.mp hstep.1
        have hshort := toNat_lt_of_lt (by decide) (by decide) hstep.2
        have hnext := next.toInt_lt
        have hline : s.line + (next - s.line) = next := by
          rw [Int32.add_comm, Int32.sub_add_cancel]
        rw [if_neg (Decidable.not_not.mpr ⟨by omega, by omega⟩), hline]
        exact .wrote busy near hshort (by omega) (.inr rfl)
      · have hstay : FitsInt32 (s.line.toInt + (0 : Int32).toInt) := by
          rw [Int32.toInt_zero, Int.add_zero]
          exact ⟨s.line.le_toInt, s.line.toInt_lt⟩
        rw [if_neg (Decidable.not_not.mpr hstay), Int32.add_zero]
        exact .wrote busy near (by decide) (Int.add_zero _).symm (.inl rfl)

/-- The sum of a line and a few more, if it is a line. -/
theorem add_ofNat {line next : Int32} {n : Nat} (h : next.toInt = line.toInt + n) :
    line + Int32.ofNat n = next := by
  have hlow := next.le_toInt
  have hhigh := next.toInt_lt
  rw [← Int32.toInt_inj, Int32.toInt_add, Int32.toInt_ofNat', Int32.size, Int.add_bmod_bmod, ← h]
  exact Int.bmod_eq_of_le (by omega) (by omega)

/-- Writing down the pending run leaves nothing pending and stays in the file. -/
theorem wrote_flush {s : Scribe} {next : Int32} (h : (s.flush next).1.Finishes) :
    Wrote s (s.flush next).1.items [] (s.flush next).2 ∧ (s.flush next).2.pending = 0 ∧
      (s.flush next).2.file = s.file := by
  have hflushed := s.flushed next
  generalize s.flush next = result at h hflushed ⊢
  cases hflushed with
  | idle nothing => exact ⟨Wrote.refl s, nothing, rfl⟩
  | broke busy far => exact absurd h (by simp)
  | @wrote advance line busy near short sum way =>
      refine ⟨⟨?_, ?_, fits_runRecords short, staysInReach_runRecords (inReach_of_sum sum)⟩, rfl, rfl⟩
      · rw [List.replicate_zero, List.append_nil, List.append_nil]
        exact placed_runRecords _ (Nat.pos_of_ne_zero busy) advance
      · show finish s.toTrack (runRecords s.pending advance) = _
        rw [finish_runRecords, add_ofNat sum]

/-! ### Positions -/

/-- Moving to the file of a position places only what was pending. -/
theorem wrote_enterFile {s : Scribe} {p : Position} (h : (s.enterFile p).1.Finishes) :
    Wrote s (s.enterFile p).1.items [] (s.enterFile p).2 ∧ (s.enterFile p).2.file = p.file := by
  unfold enterFile at h ⊢
  split
  · next hfile => exact ⟨Wrote.refl s, hfile.symm⟩
  · next hfile =>
    rw [if_neg hfile] at h
    dsimp only at h ⊢
    split
    · next hrange =>
      rw [if_pos hrange] at h
      obtain ⟨hruns, _⟩ := finishes_append.mp h
      obtain ⟨hflush, hpending, _⟩ := wrote_flush hruns
      have hrecord : Wrote (s.flush p.line).2 [.file p.file.toInt.toNat] []
          { (s.flush p.line).2 with file := p.file } := by
        refine ⟨by rw [hpending]; rfl, ?_, ?_, inReach_of_growth rfl, trivial⟩
        · show PositionRecord.next (s.flush p.line).2.toTrack (.file p.file.toInt.toNat) = _
          rw [PositionRecord.next, ofNat_toNat_of_nonneg hrange.1]
        · intro r hr
          rw [List.mem_singleton.mp hr]
          exact toNat_lt_of_lt (by decide) (by decide) hrange.2
      rw [items_append hruns]
      exact ⟨hflush.trans hrecord, rfl⟩
    · next hrange =>
      rw [if_neg hrange] at h
      exact absurd (finishes_append.mp h).2 (not_finishes_fail _)

/-- An instruction where the scribe stands joins the pending run. -/
theorem wrote_join {s : Scribe} {p : Position} (h : s.here = p) :
    Wrote s [] [p] { s with pending := s.pending + 1 } := by
  refine ⟨?_, rfl, by simp, trivial⟩
  rw [← h]
  exact List.replicate_succ'

/-- An instruction a few lines further down gets a record of its own. -/
theorem wrote_near {s : Scribe} {p : Position} (hfile : s.file = p.file) (hidle : s.pending = 0)
    (hfits : FitsInt32 (p.line.toInt - s.line.toInt))
    (hstep : 0 < p.line - s.line ∧ p.line - s.line < 32) :
    Wrote s [.near (p.line - s.line).toInt.toNat] [p] { s with line := p.line } := by
  have hpos : 0 < (p.line - s.line).toInt := Int32.lt_iff_toInt_lt.mp hstep.1
  have hsum : p.line.toInt = s.line.toInt + (p.line - s.line).toInt.toNat := by
    have hexact := toInt_sub_of_fits hfits
    omega
  have hnext := add_ofNat hsum
  refine ⟨?_, ?_, ?_, inReach_of_sum hsum, trivial⟩
  · rw [hidle, placed, PositionRecord.positions, hnext, hfile]
    rfl
  · show PositionRecord.next s.toTrack (.near _) = _
    rw [PositionRecord.next, hnext]
  · intro r hr
    rw [List.mem_singleton.mp hr]
    exact toNat_lt_of_lt (by decide) (by decide) hstep.2

/-- So does an instruction on any other line that a record can name. -/
theorem wrote_far {s : Scribe} {p : Position} (hfile : s.file = p.file) (hidle : s.pending = 0)
    (hrange : 0 ≤ p.line ∧ p.line < debugLineLimit) :
    Wrote s [.far p.line.toInt.toNat] [p] { s with line := p.line } := by
  have hthere : Int32.ofNat p.line.toInt.toNat = p.line := ofNat_toNat_of_nonneg hrange.1
  refine ⟨?_, ?_, ?_, inReach_of_growth rfl, trivial⟩
  · rw [hidle, placed, PositionRecord.positions, hthere, hfile]
    rfl
  · show PositionRecord.next s.toTrack (.far _) = _
    rw [PositionRecord.next, hthere]
  · intro r hr
    rw [List.mem_singleton.mp hr]
    exact toNat_lt_of_lt (by decide) (by decide) hrange.2

/-- What a scribe has done that was to place an instruction. -/
structure Placed (s : Scribe) (p : Position) (result : Emission EncodeError PositionRecord × Scribe) :
    Prop where
  wrote : Wrote s result.1.items [p] result.2
  /-- It stands where the instruction is. -/
  stands : result.2.here = p
  /-- What was written ends with a record that places something, or else the instruction is pending. -/
  last : result.1.items ≠ [] ∧ Ends result.1.items ∨ 0 < result.2.pending

/-- A record for an instruction ends what was written before it. -/
theorem placed_of_record {s s₁ s₂ : Scribe} {p : Position} {r : PositionRecord}
    {runs : Emission EncodeError PositionRecord} (hruns : runs.Finishes)
    (hwrote : Wrote s runs.items [] s₁) (hrecord : Wrote s₁ [r] [p] s₂) (hsize : 0 < r.size)
    (hthere : s₂.here = p) : Placed s p (runs ++ .ofList [r], s₂) := by
  have hitems : (runs ++ .ofList [r]).items = runs.items ++ [r] := items_append hruns
  refine ⟨hitems ▸ hwrote.trans hrecord, hthere, .inl ⟨by simp [hitems], ?_⟩⟩
  rw [hitems]
  refine ends_append (by simp) fun r' hr' => ?_
  obtain rfl : r = r' := by simpa using hr'
  exact hsize

/-- **Placing an instruction on its line.** -/
theorem placed_enterLine {s : Scribe} {p : Position} (hfile : s.file = p.file)
    (h : (s.enterLine p).1.Finishes) : Placed s p (s.enterLine p) := by
  unfold enterLine at h ⊢
  generalize hrun : (if p.line = s.line then
    ((.empty, s) : Emission EncodeError PositionRecord × Scribe) else s.flush p.line) = run at h ⊢
  -- first the run that is pending on another line, which then leaves nothing pending
  have hflush (hruns : run.1.Finishes) : Wrote s run.1.items [] run.2 ∧ run.2.file = p.file ∧
      (p.line ≠ run.2.line → run.2.pending = 0) := by
    subst hrun
    split
    · next hline => exact ⟨Wrote.refl s, hfile, fun hne => absurd hline hne⟩
    · next hline =>
      rw [if_neg hline] at hruns
      obtain ⟨hwrote, hpending, hflushFile⟩ := wrote_flush hruns
      exact ⟨hwrote, hflushFile.trans hfile, fun _ => hpending⟩
  obtain ⟨runs, s₁⟩ := run
  dsimp only at hflush h ⊢
  split
  · next hline =>
    rw [if_pos hline] at h
    obtain ⟨hwrote, hrunFile, _⟩ := hflush h
    have hthere : s₁.here = p := by
      rw [here, hrunFile, ← hline]
    have hall := hwrote.trans (wrote_join hthere)
    rw [List.append_nil] at hall
    exact ⟨hall, hthere, .inr (Nat.succ_pos _)⟩
  · next hline =>
    rw [if_neg hline] at h
    split
    · next hfar =>
      rw [if_pos hfar] at h
      exact absurd (finishes_append.mp h).2 (not_finishes_fail _)
    · next hnear =>
      rw [if_neg hnear] at h
      rw [Decidable.not_not] at hnear
      split
      · next hstep =>
        rw [if_pos hstep] at h
        obtain ⟨hruns, _⟩ := finishes_append.mp h
        obtain ⟨hwrote, hrunFile, hidle⟩ := hflush hruns
        exact placed_of_record hruns hwrote (wrote_near hrunFile (hidle hline) hnear hstep)
          Nat.one_pos (by rw [here, hrunFile])
      · next hstep =>
        rw [if_neg hstep] at h
        split
        · next hrange =>
          rw [if_pos hrange] at h
          obtain ⟨hruns, _⟩ := finishes_append.mp h
          obtain ⟨hwrote, hrunFile, hidle⟩ := hflush hruns
          exact placed_of_record hruns hwrote (wrote_far hrunFile (hidle hline) hrange)
            Nat.one_pos (by rw [here, hrunFile])
        · next hrange =>
          rw [if_neg hrange] at h
          exact absurd (finishes_append.mp h).2 (not_finishes_fail _)

/-- One position. -/
theorem placed_place {s : Scribe} {p : Position} (h : (s.place p).1.Finishes) :
    Placed s p (s.place p) := by
  unfold place at h ⊢
  dsimp only at h ⊢
  obtain ⟨hf, hl⟩ := finishes_append.mp h
  obtain ⟨hwroteFile, hfile⟩ := wrote_enterFile hf
  obtain ⟨hwroteLine, hthere, hlast⟩ := placed_enterLine hfile hl
  have hitems := items_append (b := ((s.enterFile p).2.enterLine p).1) hf
  refine ⟨hitems ▸ hwroteFile.trans hwroteLine, hthere, ?_⟩
  rcases hlast with ⟨hne, hends⟩ | hpending
  · refine .inl ?_
    rw [hitems]
    exact ⟨by simp [hne], ends_append hne hends⟩
  · exact .inr hpending

/-- The line that the scribe is on is never too far away. -/
theorem finishes_flush_here (s : Scribe) : (s.flush s.line).1.Finishes := by
  have hflushed := s.flushed s.line
  generalize s.flush s.line = result at hflushed ⊢
  cases hflushed with
  | idle nothing => exact finishes_empty
  | broke busy far => exact absurd ⟨by omega, by omega⟩ far
  | wrote => exact finishes_ofList _

theorem ends_flush (s : Scribe) (next : Int32) (h : (s.flush next).1.Finishes) :
    Ends (s.flush next).1.items := by
  have hflushed := s.flushed next
  generalize s.flush next = result at h hflushed ⊢
  cases hflushed with
  | idle nothing => simp [Ends, empty]
  | broke busy far => exact absurd h (by simp)
  | wrote => exact ends_runRecords _ _

/-- **What a finished stream says.** Its records have their bytes, none of them leads out of the lines
that there are, they end with a position, and they place the pending run and then the positions that
were given. -/
theorem placed_records {ps : List Position} {s : Scribe} (h : (s.records ps).Finishes) :
    placed s.toTrack (s.records ps).items = List.replicate s.pending s.here ++ ps ∧
      (∀ r ∈ (s.records ps).items, r.Fits) ∧ StaysInReach s.toTrack (s.records ps).items ∧
      Ends (s.records ps).items := by
  induction ps generalizing s with
  | nil =>
      obtain ⟨hflush, hpending, _⟩ := wrote_flush s.finishes_flush_here
      refine ⟨?_, hflush.fits, hflush.reach, ends_flush s s.line s.finishes_flush_here⟩
      have haccount := hflush.account
      rwa [hpending, List.replicate_zero, List.append_nil] at haccount
  | cons p ps ih =>
      rw [records] at h ⊢
      dsimp only at h ⊢
      obtain ⟨hone, hrest⟩ := finishes_append.mp h
      obtain ⟨hwrote, _, hlast⟩ := placed_place hone
      obtain ⟨hplaced, hfits, hreach, hends⟩ := ih hrest
      rw [items_append hone]
      refine ⟨?_, ?_, ?_, ?_⟩
      · rw [placed_append, hwrote.track, hplaced, ← List.append_assoc, hwrote.account,
          List.append_assoc, List.singleton_append]
      · intro r hr
        rcases List.mem_append.mp hr with hr | hr
        · exact hwrote.fits r hr
        · exact hfits r hr
      · rw [staysInReach_append, hwrote.track]
        exact ⟨hwrote.reach, hreach⟩
      · -- an empty rest leaves nothing pending, so the step wrote its instruction down
        by_cases hnil : (records (s.place p).2 ps).items = []
        · rw [hnil] at hplaced ⊢
          have hzero : (s.place p).2.pending = 0 := by
            have hlength := congrArg List.length hplaced
            simp only [placed, List.length_nil, List.length_append, List.length_replicate]
              at hlength
            omega
          obtain ⟨hne, hline⟩ := hlast.resolve_right (by omega)
          rw [List.append_nil]
          exact hline
        · exact ends_append hnil hends

end Scribe

/-- Every record takes a byte, so a stream has no more records than bytes. -/
theorem PositionRecord.length_le_length_flatMap (rs : List PositionRecord) :
    rs.length ≤ (rs.flatMap encode).length := by
  induction rs with
  | nil => simp
  | cons r rs ih =>
      have := r.length_encode_pos
      rw [List.flatMap_cons, List.length_append, List.length_cons]
      omega

/-- **Positions are read back**, one for each instruction. -/
theorem Reader.reads_positions (ps : List Position) :
    Reads (positions ps.length) (Output.positions ps) ps := by
  intro hf position rest
  have hrecords : (Scribe.records {} ps).Finishes := hf
  obtain ⟨hplaced, hfits, hreach, hends⟩ := Scribe.placed_records hrecords
  rw [List.replicate_zero, List.nil_append] at hplaced
  have hrounds : (Scribe.records {} ps).items.length ≤
      ((Output.positions ps).items ++ rest).length := by
    have := PositionRecord.length_le_length_flatMap (Scribe.records {} ps).items
    rw [List.length_append]
    exact Nat.le_add_right_of_le this
  have hread := PositionRecord.reads_positionsFrom ps.length hfits hends hreach hrounds
  rw [hplaced] at hread
  exact hread (finishes_ofList _) position rest

/-- **A table of positions that can be written is read back exactly**, from wherever its bytes start
in the input and whatever follows them, and the reader stops right behind them. -/
theorem Reader.positions_written {ps : List Position} {b : List UInt8}
    (h : (Output.positions ps).toExcept = .ok b) (position : Nat) (s : List UInt8) :
    positions ps.length ⟨position, b ++ s⟩ = .ok ps ⟨position + b.length, s⟩ := by
  obtain ⟨hf, rfl⟩ := toExcept_eq_ok_iff.mp h
  exact reads_positions ps hf position s

/-- Positions that start before any file, a run that takes two records, a change of file in a run, and
steps to lines beyond those that a record can name. -/
def windingPositions : List Position :=
  [⟨-1, 0⟩, ⟨-1, 2⟩] ++ List.replicate 17 ⟨0, 2⟩ ++ List.replicate 3 ⟨300, 2⟩ ++
    [⟨300, 0x1FFFFF⟩, ⟨300, 0x200008⟩, ⟨300, 0x200008⟩, ⟨1, 0x20000A⟩]

/-- The stream of the winding positions. -/
def windingBytes : List UInt8 :=
  [0x86, 0x06, 0x01, 0x00, 0x3E, 0x0A, 0x03, 0x2C, 0x0E, 0xF8, 0xFF, 0xFF, 0x4C, 0x86, 0x01, 0x01, 0x06]

theorem positions_written_windingPositions :
    (Output.positions windingPositions).toExcept = .ok windingBytes ∧
      Reader.positions 26 ⟨40, windingBytes ++ [0, 255]⟩ = .ok windingPositions ⟨57, [0, 255]⟩ := by
  have hwritten : (Output.positions windingPositions).toExcept = .ok windingBytes := rfl
  exact ⟨hwritten, Reader.positions_written hwritten 40 [0, 255]⟩

/-! ## A program in one place -/

/-- Staying in one place can always be written down. -/
theorem Scribe.finishes_records_here (s : Scribe) (n : Nat) :
    (s.records (List.replicate n s.here)).Finishes := by
  induction n generalizing s with
  | zero => exact s.finishes_flush_here
  | succ n ih =>
      have hplace : s.place s.here = (.empty, { s with pending := s.pending + 1 }) := by
        have hfile : s.enterFile s.here = (.empty, s) := if_pos rfl
        have hline : s.enterLine s.here = (.empty, { s with pending := s.pending + 1 }) := by
          unfold enterLine
          rw [if_pos (show s.here.line = s.line from rfl)]
          exact if_pos rfl
        rw [place, hfile]
        dsimp only
        rw [hline]
        rfl
      rw [List.replicate_succ, records, hplace]
      exact finishes_append.mpr ⟨rfl, ih { s with pending := s.pending + 1 }⟩

/-- The positions of a flattened program can be written. -/
theorem Output.finishes_positions_replicate (n : Nat) :
    (Output.positions (List.replicate n ⟨0, 0⟩)).Finishes := by
  show (Scribe.records {} (List.replicate n ⟨0, 0⟩)).Finishes
  cases n with
  | zero => rfl
  | succ n => exact finishes_append.mpr ⟨rfl, Scribe.finishes_records_here ⟨⟨0, 0⟩, 1⟩ n⟩

end HashLink
