import HashLink.Proofs.Code.PositionStream
import Mathlib.Data.List.Chain
import Mathlib.Logic.Basic

/-!
# Which positions can be written

The records of a position stream have limits, so not every list of positions has a stream. Whether a
position can be written depends only on the position before it: its file has to be the same or one
that a record can name, and its line the same, a few lines further down or one that a record can
name. What the scribe has pending does not matter for this: a run that it writes down moves the line
only where it was to go anyway.

It matters for how the scribe stops. The step to a line is measured before anything else is found out
about it, and on the way to another file only if a run is pending there. Where that difference has no
32-bit form the scribe breaks (`Scribe.Plunges`), and otherwise it reports the file or the line
(`Scribe.error_place`).
-/

namespace HashLink

open Emission

namespace Position

/-- Where the stream stands before the first position. -/
def start : Position := ⟨-1, 0⟩

/-- A position in a file that can be written after another position. -/
def FileFollows (p q : Position) : Prop :=
  q.file = p.file ∨ 0 ≤ q.file.toInt ∧ q.file.toInt < 0x8000

/-- A position in a line that can be written after another position. -/
def LineFollows (p q : Position) : Prop :=
  q.line = p.line ∨ (0 < q.line.toInt - p.line.toInt ∧ q.line.toInt - p.line.toInt < 32) ∨
    0 ≤ q.line.toInt ∧ q.line.toInt < 0x200000

instance (p q : Position) : Decidable (p.FileFollows q) := inferInstanceAs (Decidable (_ ∨ _))

instance (p q : Position) : Decidable (p.LineFollows q) := inferInstanceAs (Decidable (_ ∨ _))

/-- A file that no record leads to from the file before. -/
def FileFault (p q : Position) : Prop :=
  q.file ≠ p.file ∧ ¬(0 ≤ q.file.toInt ∧ q.file.toInt < 0x8000)

/-- A line that no record leads to from the line before. -/
def LineFault (p q : Position) : Prop :=
  q.line ≠ p.line ∧ ¬(0 < q.line.toInt - p.line.toInt ∧ q.line.toInt - p.line.toInt < 32) ∧
    ¬(0 ≤ q.line.toInt ∧ q.line.toInt < 0x200000)

/-- A position that cannot be written after another. -/
def Faulty (p q : Position) : Prop := p.FileFault q ∨ p.LineFault q

instance (p q : Position) : Decidable (p.FileFault q) := inferInstanceAs (Decidable (_ ∧ _))

instance (p q : Position) : Decidable (p.LineFault q) := inferInstanceAs (Decidable (_ ∧ _))

instance (p q : Position) : Decidable (p.Faulty q) := inferInstanceAs (Decidable (_ ∨ _))

/-- Why a faulty position cannot be written. Its file comes first. -/
def fault (p q : Position) : EncodeError :=
  if p.FileFault q then .debugFileOutOfRange q.file else .debugLineOutOfRange q.line

theorem not_fileFault_iff {p q : Position} : ¬p.FileFault q ↔ p.FileFollows q := by
  rw [FileFault, FileFollows, not_and_or, not_not, not_not]

theorem not_lineFault_iff {p q : Position} : ¬p.LineFault q ↔ p.LineFollows q := by
  rw [LineFault, LineFollows, not_and_or, not_and_or, not_not, not_not, not_not]

/-- A line that can be written is not negative if the one before it is not. -/
theorem line_nonneg_of_follows {p q : Position} (h : p.LineFollows q) (hp : 0 ≤ p.line.toInt) :
    0 ≤ q.line.toInt := by
  rcases h with heq | hstep | hrange
  · rw [heq]
    exact hp
  · omega
  · exact hrange.1

end Position

/-! ## The scribe -/

namespace Scribe

variable {s : Scribe} {p : Position}

/-- The scribe measures the step to the line of a position, and the difference has no 32-bit form. On
the way to a file that stops it the line counts only if a run is pending. -/
def Plunges (s : Scribe) (p : Position) : Prop :=
  (s.here.FileFault p → s.pending ≠ 0) ∧ ¬FitsInt32 (p.line.toInt - s.line.toInt)

instance (s : Scribe) (p : Position) : Decidable (s.Plunges p) :=
  inferInstanceAs (Decidable (_ ∧ _))

/-! ### Writing down the pending run -/

theorem error_flush (s : Scribe) (next : Int32) :
    (s.flush next).1.error =
      if s.pending ≠ 0 ∧ ¬FitsInt32 (next.toInt - s.line.toInt) then some (.panicked .subtraction)
      else none := by
  have hflushed := s.flushed next
  generalize s.flush next = result at hflushed ⊢
  cases hflushed with
  | idle nothing => rw [if_neg fun h => h.1 nothing]; rfl
  | broke busy far => rw [if_pos ⟨busy, far⟩]; rfl
  | wrote busy near => rw [if_neg fun h => h.2 near]; rfl

/-- It stays in the file, and moves the line at most to where it is to go. -/
theorem moves_flush (s : Scribe) (next : Int32) :
    (s.flush next).2.file = s.file ∧
      ((s.flush next).2.line = s.line ∨
        (s.flush next).2.line = next ∧ 0 ≤ next.toInt - s.line.toInt ∧
          next.toInt - s.line.toInt < 32) := by
  have hflushed := s.flushed next
  generalize s.flush next = result at hflushed ⊢
  cases hflushed with
  | idle nothing => exact ⟨rfl, .inl rfl⟩
  | broke busy far => exact ⟨rfl, .inl rfl⟩
  | @wrote advance line busy near short sum way =>
      refine ⟨rfl, way.imp id fun hthere => ⟨hthere, ?_⟩⟩
      have hsum : next.toInt = s.line.toInt + advance := hthere ▸ sum
      omega

/-- A line that the scribe has come to by writing down a run can follow. -/
theorem lineFollows_of_moved {line : Int32}
    (h : line = s.line ∨
      line = p.line ∧ 0 ≤ p.line.toInt - s.line.toInt ∧ p.line.toInt - s.line.toInt < 32)
    (hthere : p.line = line) : s.here.LineFollows p := by
  rcases h with hstay | ⟨_, hpos, hshort⟩
  · exact .inl (hthere.trans hstay)
  · by_cases hzero : p.line.toInt - s.line.toInt = 0
    · exact .inl (Int32.toInt_inj.mp (show p.line.toInt = s.line.toInt by omega))
    · exact .inr (.inl ⟨show 0 < p.line.toInt - s.line.toInt by omega, hshort⟩)

/-! ### Files and lines -/

theorem file_in_range_iff {v : Int32} :
    0 ≤ v ∧ v < debugFileLimit ↔ 0 ≤ v.toInt ∧ v.toInt < 0x8000 := by
  have hlimit : debugFileLimit.toInt = 0x8000 := rfl
  rw [Int32.le_iff_toInt_le, Int32.lt_iff_toInt_lt, hlimit, Int32.toInt_zero]

theorem line_in_range_iff {v : Int32} :
    0 ≤ v ∧ v < debugLineLimit ↔ 0 ≤ v.toInt ∧ v.toInt < 0x200000 := by
  have hlimit : debugLineLimit.toInt = 0x200000 := rfl
  rw [Int32.le_iff_toInt_le, Int32.lt_iff_toInt_lt, hlimit, Int32.toInt_zero]

theorem small_step_iff {line next : Int32} (h : FitsInt32 (next.toInt - line.toInt)) :
    0 < next - line ∧ next - line < 32 ↔
      0 < next.toInt - line.toInt ∧ next.toInt - line.toInt < 32 := by
  rw [Int32.lt_iff_toInt_lt, Int32.lt_iff_toInt_lt, Int32.toInt_zero, toInt_sub_of_fits h,
    show (32 : Int32).toInt = 32 from rfl]

/-- What stops the scribe on the way to a file. -/
theorem error_enterFile (s : Scribe) (p : Position) :
    (s.enterFile p).1.error =
      if p.file ≠ s.file ∧ s.pending ≠ 0 ∧ ¬FitsInt32 (p.line.toInt - s.line.toInt) then
        some (.panicked .subtraction)
      else if s.here.FileFault p then some (.debugFileOutOfRange p.file)
      else none := by
  unfold enterFile
  split
  · next hfile =>
    rw [if_neg fun h => h.1 hfile, if_neg fun h => h.1 hfile]
    rfl
  · next hfile =>
    dsimp only
    have hfault : s.here.FileFault p ↔ ¬(0 ≤ p.file ∧ p.file < debugFileLimit) := by
      rw [file_in_range_iff]
      exact and_iff_right hfile
    have hbroke : p.file ≠ s.file ∧ s.pending ≠ 0 ∧ ¬FitsInt32 (p.line.toInt - s.line.toInt) ↔
        s.pending ≠ 0 ∧ ¬FitsInt32 (p.line.toInt - s.line.toInt) := and_iff_right hfile
    simp only [hbroke, hfault]
    by_cases hrange : 0 ≤ p.file ∧ p.file < debugFileLimit
    · rw [if_pos hrange, error_append, error_flush, if_neg (not_not.mpr hrange)]
      split <;> rfl
    · rw [if_neg hrange, error_append, error_flush, if_pos hrange]
      split <;> rfl

/-- On the way to a file the line stays where it was, or goes where it is to go. -/
theorem line_enterFile (s : Scribe) (p : Position) :
    (s.enterFile p).2.line = s.line ∨
      (s.enterFile p).2.line = p.line ∧ 0 ≤ p.line.toInt - s.line.toInt ∧
        p.line.toInt - s.line.toInt < 32 := by
  unfold enterFile
  split
  · exact .inl rfl
  · dsimp only
    split
    · exact (moves_flush s p.line).2
    · exact (moves_flush s p.line).2

/-- The difference to the line that the scribe is on always has a 32-bit form. -/
theorem fitsInt32_sub_self {line next : Int32} (h : next = line) :
    FitsInt32 (next.toInt - line.toInt) := by
  rw [h]
  exact ⟨by omega, by omega⟩

/-- A line that is far away is not reached by writing down a run, and measuring the step breaks the
scribe. -/
theorem error_enterLine_of_far (h : ¬FitsInt32 (p.line.toInt - s.line.toInt)) :
    (s.enterLine p).1.error = some (.panicked .subtraction) := by
  have hline : p.line ≠ s.line := fun hsame => h (fitsInt32_sub_self hsame)
  have hmoves := (moves_flush s p.line).2
  have herror := s.error_flush p.line
  unfold enterLine
  rw [if_neg hline]
  generalize s.flush p.line = run at hmoves herror ⊢
  obtain ⟨runs, s₁⟩ := run
  dsimp only at hmoves herror ⊢
  have hstay : s₁.line = s.line := hmoves.resolve_right fun hmoved => h ⟨by omega, by omega⟩
  rw [hstay, if_neg hline, if_pos h, error_append, herror]
  by_cases hbusy : s.pending ≠ 0
  · rw [if_pos ⟨hbusy, h⟩]
    rfl
  · rw [if_neg fun hboth => hbusy hboth.1]
    rfl

/-- A line that is near enough is reported if no record leads there. -/
theorem error_enterLine_of_near (h : FitsInt32 (p.line.toInt - s.line.toInt))
    (hline : p.line ≠ s.line) :
    (s.enterLine p).1.error =
      if s.here.LineFault p then some (.debugLineOutOfRange p.line) else none := by
  have hmoves := (moves_flush s p.line).2
  have herror := s.error_flush p.line
  rw [if_neg fun hboth => hboth.2 h] at herror
  unfold enterLine
  rw [if_neg hline]
  generalize s.flush p.line = run at hmoves herror ⊢
  obtain ⟨runs, s₁⟩ := run
  dsimp only at hmoves herror ⊢
  split
  · next hthere =>
    rw [herror, if_neg (Position.not_lineFault_iff.mpr (lineFollows_of_moved hmoves hthere))]
  · next hthere =>
    -- the line has not moved, so it still has to be one that can follow
    have hstay := hmoves.resolve_right fun hmoved => hthere hmoved.1.symm
    rw [hstay, if_neg (not_not.mpr h)]
    simp only [small_step_iff h, line_in_range_iff]
    split
    · next hstep =>
      rw [error_append, herror, if_neg fun hfault => hfault.2.1 hstep]
      rfl
    · next hstep =>
      split
      · next hrange =>
        rw [error_append, herror, if_neg fun hfault => hfault.2.2 hrange]
        rfl
      · next hrange =>
        rw [error_append, herror, if_pos ⟨hline, hstep, hrange⟩]
        rfl

/-- What stops the scribe on the way to a line. -/
theorem error_enterLine (s : Scribe) (p : Position) :
    (s.enterLine p).1.error =
      if ¬FitsInt32 (p.line.toInt - s.line.toInt) then some (.panicked .subtraction)
      else if s.here.LineFault p then some (.debugLineOutOfRange p.line)
      else none := by
  split
  · next hfar => exact error_enterLine_of_far hfar
  · next hnear =>
    rw [not_not] at hnear
    by_cases hline : p.line = s.line
    · unfold enterLine
      rw [if_pos hline, if_neg fun hfault => hfault.1 hline]
      dsimp only
      rw [if_pos hline]
      rfl
    · exact error_enterLine_of_near hnear hline

/-- The way to a file changes nothing about the way to the line, since it leads there or nowhere. -/
theorem error_enterLine_enterFile (s : Scribe) (p : Position) :
    ((s.enterFile p).2.enterLine p).1.error = (s.enterLine p).1.error := by
  rw [error_enterLine, error_enterLine]
  rcases line_enterFile s p with hstay | ⟨hmoved, hpos, hshort⟩
  · have hsame : (s.enterFile p).2.here.LineFault p ↔ s.here.LineFault p := by
      rw [Position.LineFault, here, hstay]
      rfl
    simp only [hstay, hsame]
  · -- the scribe is on the line already, and the line is one that can follow
    have hfollows : s.here.LineFollows p :=
      lineFollows_of_moved (.inr ⟨rfl, hpos, hshort⟩) (Eq.refl p.line)
    have hnear : FitsInt32 (p.line.toInt - s.line.toInt) := ⟨by omega, by omega⟩
    rw [if_neg (not_not.mpr (fitsInt32_sub_self hmoved.symm)), if_neg fun h => h.1 hmoved.symm,
      if_neg (not_not.mpr hnear), if_neg (Position.not_lineFault_iff.mpr hfollows)]

/-! ### One position after another -/

/-- **What stops the scribe at a position**: it breaks where it plunges, and otherwise reports what is
at fault, if anything is. -/
theorem error_place (s : Scribe) (p : Position) :
    (s.place p).1.error =
      if s.Plunges p then some (.panicked .subtraction)
      else if s.here.Faulty p then some (s.here.fault p)
      else none := by
  unfold place
  dsimp only
  rw [error_append, error_enterFile]
  by_cases hbroke : p.file ≠ s.file ∧ s.pending ≠ 0 ∧ ¬FitsInt32 (p.line.toInt - s.line.toInt)
  · rw [if_pos hbroke, if_pos ⟨fun _ => hbroke.2.1, hbroke.2.2⟩]
    rfl
  · rw [if_neg hbroke]
    by_cases hfile : s.here.FileFault p
    · have hplunges : ¬s.Plunges p := fun h => hbroke ⟨hfile.1, h.1 hfile, h.2⟩
      rw [if_pos hfile, if_neg hplunges, if_pos (.inl hfile), Position.fault, if_pos hfile]
      rfl
    · have hplunges : s.Plunges p ↔ ¬FitsInt32 (p.line.toInt - s.line.toInt) :=
        and_iff_right fun h => absurd h hfile
      have hfaulty : s.here.Faulty p ↔ s.here.LineFault p := or_iff_right hfile
      rw [if_neg hfile, Option.none_or, error_enterLine_enterFile, error_enterLine, Position.fault,
        if_neg hfile]
      simp only [hplunges, hfaulty]

theorem finishes_place_iff : (s.place p).1.Finishes ↔ ¬s.Plunges p ∧ ¬s.here.Faulty p := by
  rw [Finishes, error_place]
  split
  · next h => exact iff_of_false (by simp) fun hnot => hnot.1 h
  · next h =>
    split
    · next hfaulty => exact iff_of_false (by simp) fun hnot => hnot.2 hfaulty
    · next hfaulty => exact iff_of_true rfl ⟨h, hfaulty⟩

/-- From a line that is not negative the scribe breaks only at a line that could not be written
anyway. -/
theorem Plunges.faulty (h : s.Plunges p) (hs : 0 ≤ s.line.toInt) : s.here.Faulty p := by
  have hhigh := p.line.toInt_lt
  have hfar : p.line.toInt < 0 := by
    by_contra hpos
    exact h.2 ⟨by have := s.line.toInt_lt; omega, by omega⟩
  refine .inr ⟨fun heq => ?_, ?_, ?_⟩
  · rw [heq] at hfar
    exact absurd hs (by show ¬(0 ≤ s.here.line.toInt); omega)
  · show ¬(0 < p.line.toInt - s.line.toInt ∧ _)
    omega
  · omega

/-- Behind a position that can be written the scribe stands there. -/
theorem here_place (h : (s.place p).1.Finishes) : (s.place p).2.here = p := (placed_place h).stands

end Scribe

/-! ## What a stream places -/

theorem Position.FileFollows.trans {p q r : Position} (hpq : p.FileFollows q)
    (hqr : q.FileFollows r) : p.FileFollows r := by
  rcases hqr with heq | hrange
  · rw [FileFollows, heq]
    exact hpq
  · exact .inr hrange

/-- The position that a stream has come to. -/
def Track.position (t : Track) : Position := ⟨t.file, t.line⟩

namespace PositionRecord

theorem file_of_mem_positions {t : Track} {r : PositionRecord} {p : Position}
    (h : p ∈ r.positions t) : p.file = t.file := by
  cases r with
  | file index => cases h
  | run count advance => rw [List.eq_of_mem_replicate h]
  | near step => rw [List.mem_singleton.mp h]
  | far line => rw [List.mem_singleton.mp h]

/-- Instructions are placed where the stream is before a record or behind it. -/
theorem line_of_mem_positions {r : PositionRecord} {t : Track} {p : Position}
    (h : p ∈ r.positions t) : p.line = t.line ∨ p.line = (r.next t).line := by
  cases r with
  | file index => cases h
  | run n advance => exact .inl (by rw [List.eq_of_mem_replicate h])
  | near step => exact .inr (by rw [List.mem_singleton.mp h]; rfl)
  | far line => exact .inr (by rw [List.mem_singleton.mp h]; rfl)

theorem growth_lt {r : PositionRecord} (h : r.Fits) : r.growth < 32 := by
  cases r with
  | file index => exact Nat.succ_pos 31
  | run n advance =>
      have hadvance : advance < 4 := h.2
      show advance < 32
      omega
  | near step => exact h
  | far line => exact Nat.succ_pos 31

theorem toInt_add_ofNat {line : Int32} {n : Nat} (hn : n < 32)
    (hfits : FitsInt32 (line.toInt + n)) : (line + Int32.ofNat n).toInt = line.toInt + n := by
  obtain ⟨hlow, hhigh⟩ := hfits
  have hvalue : (Int32.ofNat n).toInt = n := Int32.toInt_ofNat_of_lt (by omega)
  rw [Int32.toInt_add, hvalue, Int.bmod_eq_of_le] <;> omega

/-- A record in reach moves the line on by its growth, or names a line. -/
theorem line_next {r : PositionRecord} (hr : r.Fits) {t : Track} (hreach : r.InReach t) :
    (r.next t).line.toInt = t.line.toInt + r.growth ∨
      0 ≤ (r.next t).line.toInt ∧ (r.next t).line.toInt < 0x200000 := by
  cases r with
  | file index => exact .inl (Int.add_zero _).symm
  | run n advance => exact .inl (toInt_add_ofNat (growth_lt hr) hreach)
  | near step => exact .inl (toInt_add_ofNat (growth_lt hr) hreach)
  | far line =>
      have hnamed : line < 0x200000 := hr
      have hvalue : (Int32.ofNat line).toInt = line := Int32.toInt_ofNat_of_lt (by omega)
      right
      show 0 ≤ (Int32.ofNat line).toInt ∧ (Int32.ofNat line).toInt < 0x200000
      omega

theorem line_next_nonneg {r : PositionRecord} (hr : r.Fits) {t : Track} (hreach : r.InReach t)
    (hline : 0 ≤ t.line.toInt) : 0 ≤ (r.next t).line.toInt := by
  have hnext := line_next hr hreach
  omega

/-- No line above line 0 is placed from a line that is not above it. -/
theorem line_nonneg_of_mem_positions {r : PositionRecord} (hr : r.Fits) {t : Track}
    (hreach : r.InReach t) (hline : 0 ≤ t.line.toInt) {p : Position} (h : p ∈ r.positions t) :
    0 ≤ p.line.toInt := by
  rcases line_of_mem_positions h with hp | hp
  · rw [hp]
    exact hline
  · rw [hp]
    exact line_next_nonneg hr hreach hline

/-- A record stays in the file, or goes to one that it can name. -/
theorem fileFollows_next {r : PositionRecord} (h : r.Fits) (t : Track) :
    t.position.FileFollows (r.next t).position := by
  cases r with
  | file index =>
      have hlt : index < 2 ^ 31 := Nat.lt_trans h (by decide)
      have hvalue : (Int32.ofNat index).toInt = index := Int32.toInt_ofNat_of_lt hlt
      have hfits : index < 0x8000 := h
      right
      show 0 ≤ (Int32.ofNat index).toInt ∧ (Int32.ofNat index).toInt < 0x8000
      omega
  | run count advance => exact .inl rfl
  | near step => exact .inl rfl
  | far line => exact .inl rfl

/-- The files of a stream follow each other if those behind its first record do. -/
theorem pairwise_fileFollows {r : PositionRecord} (hr : r.Fits) {t : Track} {more : List Position}
    (h : ((r.next t).position :: more).Pairwise Position.FileFollows) :
    (t.position :: (r.positions t ++ more)).Pairwise Position.FileFollows := by
  obtain ⟨hmore, hpairs⟩ := List.pairwise_cons.mp h
  have hnext := fileFollows_next hr t
  have hlater {p q : Position} (hp : p.file = t.file) (hq : q ∈ more) : p.FileFollows q := by
    have hfollows := hnext.trans (hmore q hq)
    rwa [Position.FileFollows, ← show p.file = t.position.file from hp] at hfollows
  rw [List.pairwise_cons, List.pairwise_append, List.forall_mem_append]
  refine ⟨⟨fun q hq => .inl (file_of_mem_positions hq), fun q hq => hlater rfl hq⟩, ?_, hpairs,
    fun p hp q hq => hlater (file_of_mem_positions hp) hq⟩
  exact List.pairwise_of_forall_mem_list fun p hp q hq =>
    .inl ((file_of_mem_positions hq).trans (file_of_mem_positions hp).symm)

end PositionRecord

end HashLink
