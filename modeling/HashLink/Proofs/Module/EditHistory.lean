import HashLink.Module.Edit
import Mathlib.Data.List.Induction
import Mathlib.Data.List.InsertIdx

/-!
# Instructions keep their positions

An edit changes two lists, the instructions and the debug table, and each in its own way: an index
behind the end stops the one and is cut back for the other, and a removal changes the table before
it looks at the instructions. As long as the table has one entry for each instruction the two stay
together: the pairs of both (`Method.listing`) are then one list that is edited as a whole.

What became of an instruction after many edits is told by its origin, which is its index before all
of them or the number of the edit that brought it. Origins are moved by the edits like the
instructions and know nothing of positions, so they can be held against the listing: the run lemma
(`Method.listing_edited`) says that every line of it is the one its origin stands for.
-/

namespace HashLink

/-! ## Two lists as one -/

theorem zip_insertIdx {α β : Type} {xs : List α} {ys : List β} (h : ys.length = xs.length)
    (index : Nat) (x : α) (y : β) :
    (xs.insertIdx index x).zip (ys.insertIdx index y) = (xs.zip ys).insertIdx index (x, y) := by
  induction index generalizing xs ys with
  | zero => simp
  | succ index ih =>
      cases xs with
      | nil =>
          rw [List.length_nil, List.length_eq_zero_iff] at h
          subst h
          rfl
      | cons a xs =>
          cases ys with
          | nil => cases h
          | cons b ys =>
              rw [List.length_cons, List.length_cons, Nat.add_right_cancel_iff] at h
              simp [ih h]

theorem zip_eraseIdx {α β : Type} (xs : List α) (ys : List β) (index : Nat) :
    (xs.eraseIdx index).zip (ys.eraseIdx index) = (xs.zip ys).eraseIdx index := by
  induction index generalizing xs ys with
  | zero => cases xs <;> cases ys <;> simp
  | succ index ih => cases xs <;> cases ys <;> simp [ih]

namespace Method

/-! ## Listings -/

/-- The instructions with their positions. -/
def listing (m : Method) : List (Instruction × Position) := m.instructions.zip (m.debug.getD [])

/-- There is a debug table, and it has one entry for each instruction. -/
def Aligned (m : Method) : Prop := m.debug.map List.length = some m.instructions.length

instance (m : Method) : Decidable m.Aligned :=
  inferInstanceAs (Decidable (m.debug.map List.length = some m.instructions.length))

/-- The position that is due to an instruction inserted at `index`: that of the instruction it
pushes back, or of the last one if there is none, or the start of the first file in an empty
method. -/
def duePosition (m : Method) (index : Nat) : Position :=
  ((m.listing[index]?.or m.listing.getLast?).map Prod.snd).getD ⟨0, 0⟩

/-! ## Edits -/

/-- A change of the instruction list. -/
inductive Edit where
  | insert (index : Nat) (i : Instruction)
  | remove (index : Nat)
  deriving DecidableEq, Repr

namespace Edit

/-- The place of an edit is one that a method with `length` instructions has. -/
def InRange (length : Nat) : Edit → Prop
  | .insert index _ => index ≤ length
  | .remove index => index < length

instance (length : Nat) : (e : Edit) → Decidable (e.InRange length)
  | .insert index _ => inferInstanceAs (Decidable (index ≤ length))
  | .remove index => inferInstanceAs (Decidable (index < length))

/-- Why a method with `length` instructions refuses an edit. -/
def refusal (length : Nat) : Edit → RangeError
  | .insert index _ => .insertion index length
  | .remove index => .removal index length

end Edit

/-- What an edit leaves of a method, and why it was refused, if it was. -/
def edit (m : Method) : Edit → Method × Option RangeError
  | .insert index i =>
    match m.insert index i with
    | (m', .ok ()) => (m', none)
    | (m', .error e) => (m', some e)
  | .remove index =>
    match m.remove index with
    | (m', .ok _) => (m', none)
    | (m', .error e) => (m', some e)

/-- A method after some edits, those that were refused included. -/
def edited (m : Method) (es : List Edit) : Method := es.foldl (fun m e => (m.edit e).1) m

@[simp] theorem edited_nil (m : Method) : m.edited [] = m := rfl

theorem edited_concat (m : Method) (es : List Edit) (e : Edit) :
    m.edited (es ++ [e]) = ((m.edited es).edit e).1 := by
  rw [edited, List.foldl_append]
  rfl

/-! ## Origins -/

/-- Where an instruction of an edited method comes from. -/
inductive Origin where
  /-- It was there before all edits, at this index. -/
  | given (index : Nat)
  /-- The edit of this number brought it. -/
  | inserted (step : Nat)
  deriving DecidableEq, Repr

/-- The origins of the instructions after the edit of number `step`. -/
def Edit.shift (step : Nat) (os : List Origin) : Edit → List Origin
  | .insert index _ => os.insertIdx index (.inserted step)
  | .remove index => os.eraseIdx index

/-- The origins of the instructions after some edits. -/
def origins (m : Method) (es : List Edit) : List Origin :=
  es.zipIdx.foldl (fun os (e, step) => e.shift step os)
    ((List.range m.instructions.length).map .given)

theorem origins_concat (m : Method) (es : List Edit) (e : Edit) :
    m.origins (es ++ [e]) = e.shift es.length (m.origins es) := by
  rw [origins, List.zipIdx_append, List.foldl_append]
  simp [origins]

/-- The instruction and the position that an origin stands for: those of the method before the
edits, or the inserted instruction and the position that was due to it then. -/
def source (m : Method) (es : List Edit) : Origin → Option (Instruction × Position)
  | .given index => m.listing[index]?
  | .inserted step =>
    match es[step]? with
    | some (.insert index i) => some (i, (m.edited (es.take step)).duePosition index)
    | _ => none

/-- What an origin stands for is settled by the edits up to then. -/
theorem source_concat {m : Method} {es : List Edit} {o : Origin} {line : Instruction × Position}
    (h : m.source es o = some line) (e : Edit) : m.source (es ++ [e]) o = some line := by
  cases o with
  | given index => exact h
  | inserted step =>
      have hstep : step < es.length := by
        by_contra hle
        rw [source, List.getElem?_eq_none (by omega)] at h
        cases h
      rw [source] at h ⊢
      rwa [List.getElem?_append_left hstep, List.take_append_of_le_length (by omega)]

/-! ## One edit -/

section Step

variable {m : Method} {debug : List Position}

theorem aligned_iff :
    m.Aligned ↔ ∃ debug, m.debug = some debug ∧ debug.length = m.instructions.length :=
  Option.map_eq_some_iff

theorem listing_eq (hdebug : m.debug = some debug) : m.listing = m.instructions.zip debug := by
  rw [listing, hdebug, Option.getD_some]

theorem length_listing (h : m.Aligned) : m.listing.length = m.instructions.length := by
  obtain ⟨debug, hdebug, hlength⟩ := aligned_iff.mp h
  rw [listing_eq hdebug, List.length_zip, hlength, Nat.min_self]

/-- The table gives the position that is due. -/
theorem positionFor_eq (hdebug : m.debug = some debug)
    (hlength : debug.length = m.instructions.length) {index : Nat}
    (hindex : index ≤ m.instructions.length) :
    positionFor debug index = m.duePosition index := by
  have hpositions : m.listing.map Prod.snd = debug := by
    rw [listing_eq hdebug, List.map_snd_zip (by omega)]
  have hdue : m.duePosition index = (debug[index]?.or debug.getLast?).getD ⟨0, 0⟩ := by
    rw [duePosition, Option.map_or, ← List.getElem?_map, ← List.getLast?_map, hpositions]
  rw [hdue, positionFor]
  rcases Nat.lt_or_eq_of_le hindex with hlt | rfl
  · -- the table has an entry for the instruction that is pushed back
    rw [List.getElem?_eq_getElem (by omega)]
    rfl
  · have hnone : debug[m.instructions.length]? = none := List.getElem?_eq_none (by omega)
    rw [hnone, Option.none_or, List.getLast?_eq_getElem?, hlength]
    split
    · next hempty => rw [List.getElem?_eq_none (by omega)]; rfl
    · rfl

theorem insert_eq_ok (hdebug : m.debug = some debug)
    (hlength : debug.length = m.instructions.length) {index : Nat}
    (hindex : index ≤ m.instructions.length) (i : Instruction) :
    m.insert index i = ({ m with
      instructions := m.instructions.insertIdx index i
      debug := some (debug.insertIdx index (m.duePosition index)) }, .ok ()) := by
  rw [insert, if_pos hindex, hdebug, Option.map_some, positionFor_eq hdebug hlength hindex,
    Nat.min_eq_left (by omega)]

theorem remove_eq (hdebug : m.debug = some debug) {index : Nat} {i : Instruction}
    (hi : m.instructions[index]? = some i) :
    m.remove index = ({ m with
      instructions := m.instructions.eraseIdx index
      debug := some (debug.eraseIdx index) }, .ok i) := by
  rw [remove, hdebug]
  dsimp only
  rw [hi]
  rfl

/-- **An edit outside of an aligned method changes nothing.** A removal goes to the debug table
first, but there it finds no entry either. -/
theorem edit_of_not_inRange (h : m.Aligned) {e : Edit} (he : ¬e.InRange m.instructions.length) :
    m.edit e = (m, some (e.refusal m.instructions.length)) := by
  obtain ⟨debug, hdebug, hlength⟩ := aligned_iff.mp h
  cases e with
  | insert index i =>
      have hout : ¬index ≤ m.instructions.length := he
      rw [edit, insert, if_neg hout]
      rfl
  | remove index =>
      have hout : m.instructions.length ≤ index := Nat.le_of_not_lt he
      have hsame : { m with debug := m.debug.map (·.eraseIdx index) } = m := by
        rw [hdebug, Option.map_some, List.eraseIdx_of_length_le (by omega), ← hdebug]
      rw [edit, remove]
      dsimp only
      rw [List.getElem?_eq_none hout, hsame]
      rfl

/-- **One edit.** An aligned method stays aligned, and its listing is edited as one list: an
insertion brings the instruction together with the position that is due to it, a removal takes a
line out. -/
theorem aligned_edit (h : m.Aligned) (e : Edit) :
    (m.edit e).1.Aligned ∧
      (m.edit e).1.listing =
        match e with
        | .insert index i => m.listing.insertIdx index (i, m.duePosition index)
        | .remove index => m.listing.eraseIdx index := by
  obtain ⟨debug, hdebug, hlength⟩ := aligned_iff.mp h
  by_cases he : e.InRange m.instructions.length
  · cases e with
    | insert index i =>
        rw [edit, insert_eq_ok hdebug hlength he]
        refine ⟨?_, ?_⟩
        · rw [aligned_iff]
          refine ⟨_, rfl, ?_⟩
          rw [List.length_insertIdx, List.length_insertIdx, hlength]
        · rw [listing_eq rfl, listing_eq hdebug]
          exact zip_insertIdx hlength index i (m.duePosition index)
    | remove index =>
        have hi : m.instructions[index]? = some (m.instructions.get ⟨index, he⟩) :=
          List.getElem?_eq_getElem he
        rw [edit, remove_eq hdebug hi]
        refine ⟨?_, ?_⟩
        · rw [aligned_iff]
          refine ⟨_, rfl, ?_⟩
          rw [List.length_eraseIdx, List.length_eraseIdx, hlength]
        · rw [listing_eq rfl, listing_eq hdebug]
          exact zip_eraseIdx m.instructions debug index
  · -- the method refuses, and the listing has no such place either
    rw [edit_of_not_inRange h he]
    refine ⟨h, ?_⟩
    rw [← length_listing h] at he
    cases e with
    | insert index i => exact (List.insertIdx_of_length_lt (Nat.lt_of_not_le he)).symm
    | remove index => exact (List.eraseIdx_of_length_le (Nat.le_of_not_lt he)).symm

theorem edit_of_inRange (h : m.Aligned) {e : Edit} (he : e.InRange m.instructions.length) :
    (m.edit e).2 = none := by
  obtain ⟨debug, hdebug, hlength⟩ := aligned_iff.mp h
  cases e with
  | insert index i => rw [edit, insert_eq_ok hdebug hlength he]
  | remove index => rw [edit, remove_eq hdebug (List.getElem?_eq_getElem he)]

/-- An edit touches nothing but the instructions and their positions. -/
theorem edit_frame (m : Method) (e : Edit) (is : List Instruction)
    (debug : Option (List Position)) :
    { (m.edit e).1 with instructions := is, debug := debug } =
      { m with instructions := is, debug := debug } := by
  cases e with
  | insert index i =>
      rw [edit, insert]
      by_cases hindex : index ≤ m.instructions.length
      · rw [if_pos hindex]
      · rw [if_neg hindex]
  | remove index =>
      rw [edit, remove]
      dsimp only
      cases m.instructions[index]? <;> rfl

/-- **Taking out what was just put in** gives the method back. -/
theorem remove_insert (h : m.Aligned) {index : Nat} (hindex : index ≤ m.instructions.length)
    (i : Instruction) :
    ∃ m', m.insert index i = (m', .ok ()) ∧ m'.remove index = (m, .ok i) := by
  obtain ⟨debug, hdebug, hlength⟩ := aligned_iff.mp h
  have hi : (m.instructions.insertIdx index i)[index]? = some i := by
    rw [List.getElem?_insertIdx_self, if_pos hindex]
  refine ⟨_, insert_eq_ok hdebug hlength hindex i, ?_⟩
  rw [remove_eq rfl hi, List.eraseIdx_insertIdx_self, List.eraseIdx_insertIdx_self, ← hdebug]

end Step

/-! ## Many edits -/

theorem aligned_edited {m : Method} (h : m.Aligned) (es : List Edit) : (m.edited es).Aligned := by
  induction es using List.reverseRecOn with
  | nil => exact h
  | append_singleton es e ih =>
      rw [edited_concat]
      exact (aligned_edit ih e).1

theorem edited_frame (m : Method) (es : List Edit) (is : List Instruction)
    (debug : Option (List Position)) :
    { m.edited es with instructions := is, debug := debug } =
      { m with instructions := is, debug := debug } := by
  induction es using List.reverseRecOn with
  | nil => rfl
  | append_singleton es e ih => rw [edited_concat, edit_frame, ih]

/-- **Every line is the one that its origin stands for.** -/
theorem listing_edited {m : Method} (h : m.Aligned) (es : List Edit) :
    (m.edited es).listing.map some = (m.origins es).map (m.source es) := by
  induction es using List.reverseRecOn with
  | nil =>
      rw [edited_nil, origins, List.zipIdx_nil, List.foldl_nil, List.map_map, ← length_listing h]
      refine List.ext_getElem (by simp) fun index hindex _ => ?_
      rw [List.length_map] at hindex
      simp [source, List.getElem?_eq_getElem hindex]
  | append_singleton es e ih =>
      have hkeep :
          (m.origins es).map (m.source (es ++ [e])) = (m.origins es).map (m.source es) := by
        -- every origin stands for a line already, and `source_concat` keeps that line
        refine List.map_congr_left fun o ho => ?_
        have hline : m.source es o ∈ (m.edited es).listing.map some := by
          rw [ih]
          exact List.mem_map_of_mem ho
        obtain ⟨line, _, hline⟩ := List.mem_map.mp hline
        rw [← hline]
        exact source_concat hline.symm e
      rw [edited_concat, origins_concat, (aligned_edit (aligned_edited h es) e).2]
      cases e with
      | insert index i =>
          have hnew : m.source (es ++ [.insert index i]) (.inserted es.length) =
              some (i, (m.edited es).duePosition index) := by
            rw [source, List.getElem?_concat_length, List.take_left]
          rw [Edit.shift, List.map_insertIdx, List.map_insertIdx, hkeep, hnew, ih]
      | remove index =>
          rw [Edit.shift, ← List.eraseIdx_map, ← List.eraseIdx_map, hkeep, ih]

/-- **Edits keep every instruction with its position.** Take a method whose debug table has one
entry for each instruction, and insert and remove in any order. Whatever edits were made, the table
has one entry for each instruction again. Each line of the listing is what its origin stands for: an
instruction of the method with the position it had there, or an inserted one with the position that
was due to it when it came. Nothing else of the method has changed. The next edit is carried out
exactly if the method has its place, and leaves the method as it is if not. And what was just put in
can be taken out again, which restores the method. -/
theorem edits_keep_positions {m : Method} (h : m.Aligned) (es : List Edit) :
    (m.edited es).Aligned ∧
      (m.edited es).listing.map some = (m.origins es).map (m.source es) ∧
      { m.edited es with instructions := m.instructions, debug := m.debug } = m ∧
      (∀ e, ((m.edited es).edit e).2 = none ↔ e.InRange (m.edited es).instructions.length) ∧
      (∀ e, ¬e.InRange (m.edited es).instructions.length →
        (m.edited es).edit e = (m.edited es, some (e.refusal (m.edited es).instructions.length))) ∧
      ∀ index i, index ≤ (m.edited es).instructions.length →
        ∃ m', (m.edited es).insert index i = (m', .ok ()) ∧
          m'.remove index = (m.edited es, .ok i) := by
  have haligned := aligned_edited h es
  refine ⟨haligned, listing_edited h es, edited_frame m es _ _, ?_, ?_, ?_⟩
  · intro e
    refine ⟨fun hcarried => ?_, edit_of_inRange haligned⟩
    by_contra hout
    rw [edit_of_not_inRange haligned hout] at hcarried
    cases hcarried
  · intro e hout
    exact edit_of_not_inRange haligned hout
  · intro index i hindex
    exact remove_insert haligned hindex i

/-- A method of two instructions on different lines. -/
def twoLines : Method where
  type := 0
  index := 3
  registers := []
  instructions := [⟨.label, []⟩, ⟨.ret, [0]⟩]
  debug := some [⟨1, 7⟩, ⟨1, 20⟩]
  assigns := some []

/-- An insertion behind the end, the removal of the instruction before it, an insertion at the start
and a removal of nothing. -/
def fourEdits : List Edit :=
  [.insert 2 ⟨.nop, []⟩, .remove 1, .insert 0 ⟨.trap, [0, 1]⟩, .remove 7]

theorem edits_keep_positions_twoLines :
    twoLines.Aligned ∧ (twoLines.edited fourEdits).Aligned ∧
      twoLines.origins fourEdits = [.inserted 2, .given 0, .inserted 0] ∧
      (twoLines.edited fourEdits).listing.map some =
        [some (⟨.trap, [0, 1]⟩, ⟨1, 7⟩), some (⟨.label, []⟩, ⟨1, 7⟩), some (⟨.nop, []⟩, ⟨1, 20⟩)] ∧
      (twoLines.edited fourEdits).edit (.remove 3) =
        (twoLines.edited fourEdits, some (.removal 3 3)) := by
  have haligned : twoLines.Aligned := by decide
  obtain ⟨hstill, hlisting, _, _, hrefused, _⟩ := edits_keep_positions haligned fourEdits
  refine ⟨haligned, hstill, by decide, hlisting.trans (by decide), ?_⟩
  exact hrefused (.remove 3) (by decide)

end Method

end HashLink
