import HashLink.Wire.Emission

/-!
# Writers that finish

A writer finishes when nothing stops it, and what is then known about its output is a sum over its
parts: a sequence finishes exactly when both parts do, its output is theirs in order, and its length
is the sum of theirs.

Lengths matter because of the counts. A reader refuses a count that is larger than what is left of
the input, so every announced element has to be paid for by at least one byte further on.
-/

namespace HashLink.Emission

variable {ε ε' α β : Type}

/-- Nothing stopped the writer. -/
def Finishes (a : Emission ε α) : Prop := a.error = none

instance (a : Emission ε α) : Decidable a.Finishes := inferInstanceAs (Decidable (a.error = none))

@[simp] theorem finishes_empty : (empty : Emission ε α).Finishes := rfl

@[simp] theorem finishes_ofList (items : List α) : (ofList items : Emission ε α).Finishes := rfl

@[simp] theorem not_finishes_fail (e : ε) : ¬ (fail e : Emission ε α).Finishes := by
  simp [Finishes, fail]

/-- A sequence finishes exactly when both parts do. -/
@[simp] theorem finishes_append {a b : Emission ε α} :
    (a ++ b).Finishes ↔ a.Finishes ∧ b.Finishes := by
  obtain ⟨as, ae⟩ := a
  cases ae <;> simp [Finishes, append_def]

/-- A sequence is stopped by the first part that is. -/
theorem error_append (a b : Emission ε α) : (a ++ b).error = a.error.or b.error := by
  obtain ⟨as, ae⟩ := a
  cases ae <;> rfl

/-- The output of a sequence is that of its parts, in order. -/
theorem items_append {a b : Emission ε α} (h : a.Finishes) :
    (a ++ b).items = a.items ++ b.items := by
  rw [Finishes] at h
  rw [append_def, h]

theorem ofList_append (xs ys : List α) :
    (ofList (xs ++ ys) : Emission ε α) = ofList xs ++ ofList ys := rfl

@[simp] theorem each_nil (f : β → Emission ε α) : each [] f = empty := rfl

@[simp] theorem each_cons (x : β) (xs : List β) (f : β → Emission ε α) :
    each (x :: xs) f = f x ++ each xs f := rfl

/-- A list is written to the end exactly when every element is. -/
@[simp] theorem finishes_each {xs : List β} {f : β → Emission ε α} :
    (each xs f).Finishes ↔ ∀ x ∈ xs, (f x).Finishes := by
  induction xs with
  | nil => simp
  | cons x xs ih => simp [ih]

/-! ## Other names for the errors -/

@[simp] theorem finishes_mapError {f : ε → ε'} {a : Emission ε α} :
    (a.mapError f).Finishes ↔ a.Finishes := by
  simp [Finishes, mapError]

theorem mapError_append (f : ε → ε') (a b : Emission ε α) :
    (a ++ b).mapError f = a.mapError f ++ b.mapError f := by
  obtain ⟨as, ae⟩ := a
  cases ae <;> simp [append_def, mapError]

theorem mapError_ite (f : ε → ε') (c : Bool) (a : Emission ε α) :
    (if c then a else empty).mapError f = if c then a.mapError f else empty := by
  cases c <;> rfl

/-- A writer that has to finish gives its output exactly when it does. -/
theorem toExcept_eq_ok_iff {a : Emission ε α} {out : List α} :
    a.toExcept = .ok out ↔ a.Finishes ∧ a.items = out := by
  obtain ⟨items, error⟩ := a
  cases error <;> simp [toExcept, Finishes]

theorem toExcept_eq_error_iff {a : Emission ε α} {e : ε} :
    a.toExcept = .error e ↔ a.error = some e := by
  obtain ⟨items, error⟩ := a
  cases error <;> simp [toExcept]

/-! ## What stops a writer -/

/-- If the writer stops, it is for one of some reasons. -/
def StopsOnly (P : ε → Prop) (a : Emission ε α) : Prop := ∀ e ∈ a.error, P e

section StopsOnly

variable {P : ε → Prop} {a b : Emission ε α}

theorem Finishes.stopsOnly (h : a.Finishes) : StopsOnly P a := by
  intro e he
  rw [Finishes] at h
  rw [h] at he
  cases he

theorem StopsOnly.append (ha : StopsOnly P a) (hb : StopsOnly P b) : StopsOnly P (a ++ b) := by
  intro e he
  rw [error_append, Option.mem_def, Option.or_eq_some_iff] at he
  rcases he with he | ⟨_, he⟩
  · exact ha e he
  · exact hb e he

theorem StopsOnly.each {xs : List β} {f : β → Emission ε α} (h : ∀ x ∈ xs, StopsOnly P (f x)) :
    StopsOnly P (each xs f) := by
  induction xs with
  | nil => exact finishes_empty.stopsOnly
  | cons x xs ih =>
      rw [List.forall_mem_cons] at h
      exact h.1.append (ih h.2)

theorem StopsOnly.mapError {f : ε → ε'} {Q : ε' → Prop} (h : StopsOnly P a)
    (hPQ : ∀ e, P e → Q (f e)) : StopsOnly Q (a.mapError f) := by
  intro e he
  obtain ⟨e', he', rfl⟩ := Option.map_eq_some_iff.mp he
  exact hPQ e' (h e' he')

/-- A writer that has to finish fails for one of the reasons. -/
theorem StopsOnly.of_toExcept (h : StopsOnly P a) {e : ε} (he : a.toExcept = .error e) : P e :=
  h e (toExcept_eq_error_iff.mp he)

end StopsOnly

/-! ## Lengths -/

/-- If the writer finishes, it wrote at least `n` items. -/
def AtLeast (n : Nat) (a : Emission ε α) : Prop := a.Finishes → n ≤ a.items.length

theorem AtLeast.append {m n : Nat} {a b : Emission ε α} (ha : AtLeast m a) (hb : AtLeast n b) :
    AtLeast (m + n) (a ++ b) := by
  intro hf
  obtain ⟨hfa, hfb⟩ := finishes_append.mp hf
  rw [items_append hfa, List.length_append]
  exact Nat.add_le_add (ha hfa) (hb hfb)

theorem AtLeast.left {n : Nat} {a : Emission ε α} (h : AtLeast n a) (b : Emission ε α) :
    AtLeast n (a ++ b) := h.append (n := 0) fun _ => Nat.zero_le _

theorem AtLeast.right {n : Nat} {b : Emission ε α} (a : Emission ε α) (h : AtLeast n b) :
    AtLeast n (a ++ b) := by
  have := AtLeast.append (m := 0) (a := a) (fun _ => Nat.zero_le _) h
  rwa [Nat.zero_add] at this

theorem atLeast_ofList (items : List α) : AtLeast items.length (ofList items : Emission ε α) :=
  fun _ => Nat.le_refl _

theorem atLeast_mapError {n : Nat} {f : ε → ε'} {a : Emission ε α} (h : AtLeast n a) :
    AtLeast n (a.mapError f) := fun hf => h (finishes_mapError.mp hf)

/-- **Every element of a list is paid for.** If each takes an item, the list takes as many items as
it has elements. -/
theorem AtLeast.each {xs : List β} {f : β → Emission ε α} (h : ∀ x ∈ xs, AtLeast 1 (f x)) :
    AtLeast xs.length (each xs f) := by
  induction xs with
  | nil => exact fun _ => Nat.zero_le _
  | cons x xs ih =>
      have htail := ih fun y hy => h y (List.mem_cons_of_mem x hy)
      rw [each_cons, List.length_cons, Nat.add_comm]
      exact (h x (by simp)).append htail

end HashLink.Emission
