import HashLink.Graph.Flatten
import HashLink.Graph.Resolve
import HashLink.Proofs.Traversal

/-!
# Shared work cannot be told from work done alone

Whatever the number of workers, working through a list comes out as if one worker had gone through
it from the first item to the last, with the number of each item. So what comes out can be said of
the items alone: all values in the order of the list, or the abrupt end of the first item that has
one, or, where items may also fail and none ends abruptly, the failure of the first item that fails.

An abrupt end anywhere in the list takes precedence over any failure, also over one that comes
earlier: failures are looked at when all the work is done.
-/

namespace HashLink

variable {π ε α β : Type}

/-- The first item that is not fine is found to be something. -/
def FirstIn (xs : List α) (found fine : Nat → α → Prop) : Prop :=
  ∃ i x, xs[i]? = some x ∧ found i x ∧ ∀ j < i, ∀ y, xs[j]? = some y → fine j y

/-- The first item of a list is the one, or it is fine and the one is further on. -/
theorem firstIn_cons {x : α} {xs : List α} {found fine : Nat → α → Prop} :
    FirstIn (x :: xs) found fine ↔
      found 0 x ∨ fine 0 x ∧ FirstIn xs (fun i => found (i + 1)) fun i => fine (i + 1) := by
  constructor
  · rintro ⟨i, y, hy, hfound, hfine⟩
    cases i with
    | zero =>
        obtain rfl : x = y := by simpa using hy
        exact .inl hfound
    | succ i =>
        refine .inr ⟨hfine 0 (Nat.succ_pos i) x rfl, i, y, by simpa using hy, hfound, ?_⟩
        intro j hj z hz
        exact hfine (j + 1) (Nat.succ_lt_succ hj) z (by simpa using hz)
  · rintro (hfound | ⟨hfine, i, y, hy, hfound, hrest⟩)
    · exact ⟨0, x, rfl, hfound, fun j hj => absurd hj (Nat.not_lt_zero j)⟩
    · refine ⟨i + 1, y, by simpa using hy, hfound, fun j hj z hz => ?_⟩
      cases j with
      | zero =>
          obtain rfl : x = z := by simpa using hz
          exact hfine
      | succ j => exact hrest j (Nat.lt_of_succ_lt_succ hj) z (by simpa using hz)

theorem not_firstIn_nil {found fine : Nat → α → Prop} : ¬FirstIn [] found fine := by
  rintro ⟨i, x, hx, _⟩
  simp at hx

/-- What is found among results is found among the items that gave them. -/
theorem firstIn_results {f : Nat → α → Except ε β} {xs : List α} {ys : List β}
    {found fine : β → Prop}
    (h : List.Forall₂ (fun x y => f x.2 x.1 = .ok y) xs.zipIdx ys) :
    FirstIn ys (fun _ => found) (fun _ => fine) ↔
      FirstIn xs (fun i x => ∃ y, f i x = .ok y ∧ found y)
        fun i x => ∃ y, f i x = .ok y ∧ fine y := by
  have hitem {i : Nat} {x : α} (hx : xs[i]? = some x) : ∃ y, ys[i]? = some y ∧ f i x = .ok y := by
    have hnumbered : xs.zipIdx[i]? = some (x, i) := by simp [List.getElem?_zipIdx, hx]
    exact getElem?_of_forall₂ h hnumbered
  have hresult {i : Nat} {y : β} (hy : ys[i]? = some y) :
      ∃ x, xs[i]? = some x ∧ f i x = .ok y := by
    obtain ⟨⟨x, j⟩, hnumbered, hf⟩ := getElem?_of_forall₂ h.flip hy
    obtain ⟨hx, rfl⟩ : xs[i]? = some x ∧ i = j := by
      simpa [List.getElem?_zipIdx] using hnumbered
    exact ⟨x, hx, hf⟩
  constructor
  · rintro ⟨i, y, hy, hfound, hfine⟩
    obtain ⟨x, hx, hf⟩ := hresult hy
    refine ⟨i, x, hx, ⟨y, hf, hfound⟩, fun j hj x' hx' => ?_⟩
    obtain ⟨y', hy', hf'⟩ := hitem hx'
    exact ⟨y', hf', hfine j hj y' hy'⟩
  · rintro ⟨i, x, hx, ⟨y, hf, hfound⟩, hfine⟩
    obtain ⟨y', hy', hf'⟩ := hitem hx
    obtain rfl := Except.ok.inj (hf.symm.trans hf')
    refine ⟨i, y, hy', hfound, fun j hj z hz => ?_⟩
    obtain ⟨x', hx', hfx'⟩ := hresult hz
    obtain ⟨z', hfz, hfinez⟩ := hfine j hj x' hx'
    obtain rfl := Except.ok.inj (hfx'.symm.trans hfz)
    exact hfinez

namespace Strategy

/-! ## One worker -/

theorem work_eq_ok_iff {f : Nat → α → Except π β} {base : Nat} {xs : List α} {ys : List β} :
    work f base xs = .ok ys ↔
      List.Forall₂ (fun x y => f x.2 x.1 = .ok y) (xs.zipIdx base) ys := by
  rw [work_eq_mapM, mapM_eq_ok_iff]

/-- A worker stops at the first item that comes to an abrupt end. -/
theorem work_eq_error_iff {f : Nat → α → Except π β} {base : Nat} {xs : List α} {p : π} :
    work f base xs = .error p ↔
      FirstIn xs (fun i x => f (base + i) x = .error p) fun i x => ∃ y, f (base + i) x = .ok y := by
  induction xs generalizing base with
  | nil => exact iff_of_false (by simp [work]) not_firstIn_nil
  | cons x xs ih =>
      rw [firstIn_cons, work, bind_eq_error_iff]
      simp only [bind_eq_error_iff, ih, pure_eq_ok, reduceCtorEq, and_false, exists_false, or_false,
        exists_and_right, Nat.add_zero, Nat.add_assoc, Nat.add_comm 1]

/-- Looking for a failure among results is one more run over them. -/
theorem collect_eq_work (rs : List (Except ε β)) : collect rs = work (fun _ r => r) 0 rs := by
  have hbase (base : Nat) : collect rs = work (fun _ r => r) base rs := by
    induction rs generalizing base with
    | nil => rfl
    | cons r rs ih => rw [collect, work, ih]
  exact hbase 0

/-! ## Any number of workers -/

theorem map_eq_ok_iff {s : Strategy} {f : Nat → α → Except π β} {xs : List α} {ys : List β} :
    s.map f xs = .ok ys ↔ List.Forall₂ (fun x y => f x.2 x.1 = .ok y) xs.zipIdx ys := by
  rw [map_eq_work, work_eq_ok_iff]

theorem map_eq_error_iff {s : Strategy} {f : Nat → α → Except π β} {xs : List α} {p : π} :
    s.map f xs = .error p ↔
      FirstIn xs (fun i x => f i x = .error p) fun i x => ∃ y, f i x = .ok y := by
  rw [map_eq_work, work_eq_error_iff]
  simp only [Nat.zero_add]

theorem tryMap_eq_ok_iff {s : Strategy} {f : Nat → α → Except π (Except ε β)} {xs : List α}
    {r : Except ε (List β)} :
    s.tryMap f xs = .ok r ↔
      ∃ rs, List.Forall₂ (fun x r => f x.2 x.1 = .ok r) xs.zipIdx rs ∧ collect rs = r := by
  simp only [tryMap, HashLink.map_eq_ok_iff, map_eq_ok_iff]

theorem tryMap_eq_ok_ok_iff {s : Strategy} {f : Nat → α → Except π (Except ε β)} {xs : List α}
    {ys : List β} :
    s.tryMap f xs = .ok (.ok ys) ↔
      List.Forall₂ (fun x y => f x.2 x.1 = .ok (.ok y)) xs.zipIdx ys := by
  simp only [tryMap_eq_ok_iff, collect_eq_mapM, mapM_eq_ok_iff]
  constructor
  · rintro ⟨rs, hrs, hys⟩
    generalize xs.zipIdx = items at hrs ⊢
    induction hrs generalizing ys with
    | nil =>
        cases hys
        exact .nil
    | cons hr _ ih =>
        cases hys with
        | cons hy hys => exact .cons (hr.trans (congrArg Except.ok hy)) (ih hys)
  · intro h
    refine ⟨ys.map .ok, ?_, ?_⟩
    · rwa [List.forall₂_map_right_iff]
    · rw [List.forall₂_map_left_iff, List.forall₂_same]
      exact fun _ _ => rfl

/-- A failure shows only if no item ends abruptly, and then it is that of the first item that
fails. -/
theorem tryMap_eq_ok_error_iff {s : Strategy} {f : Nat → α → Except π (Except ε β)} {xs : List α}
    {e : ε} :
    s.tryMap f xs = .ok (.error e) ↔
      (∀ i x, xs[i]? = some x → ∃ r, f i x = .ok r) ∧
        FirstIn xs (fun i x => f i x = .ok (.error e)) fun i x => ∃ y, f i x = .ok (.ok y) := by
  have hfound (i : Nat) (x : α) :
      (∃ r, f i x = .ok r ∧ r = .error e) ↔ f i x = .ok (.error e) := by simp
  have hfine (i : Nat) (x : α) :
      (∃ r, f i x = .ok r ∧ ∃ y, r = .ok y) ↔ ∃ y, f i x = .ok (.ok y) := by simp
  have hwhole {rs : List (Except ε β)}
      (hrs : List.Forall₂ (fun x r => f x.2 x.1 = .ok r) xs.zipIdx rs) :
      collect rs = .error e ↔
        FirstIn xs (fun i x => f i x = .ok (.error e)) fun i x => ∃ y, f i x = .ok (.ok y) := by
    rw [collect_eq_work, work_eq_error_iff, firstIn_results hrs]
    simp only [hfound, hfine]
  rw [tryMap_eq_ok_iff]
  constructor
  · rintro ⟨rs, hrs, hcollect⟩
    refine ⟨fun i x hx => ?_, (hwhole hrs).mp hcollect⟩
    have hnumbered : xs.zipIdx[i]? = some (x, i) := by simp [List.getElem?_zipIdx, hx]
    obtain ⟨r, _, hr⟩ := getElem?_of_forall₂ hrs hnumbered
    exact ⟨r, hr⟩
  · rintro ⟨hends, hfirst⟩
    have heach : ∀ x ∈ xs.zipIdx, ∃ r, f x.2 x.1 = .ok r := fun x hx =>
      hends x.2 x.1 (List.mem_zipIdx_iff_getElem?.mp hx)
    obtain ⟨rs, hrs⟩ := exists_mapM_eq_ok_iff.mpr heach
    have hrs := mapM_eq_ok_iff.mp hrs
    exact ⟨rs, hrs, (hwhole hrs).mpr hfirst⟩

theorem tryMap_eq_error_iff {s : Strategy} {f : Nat → α → Except π (Except ε β)} {xs : List α}
    {p : π} :
    s.tryMap f xs = .error p ↔
      FirstIn xs (fun i x => f i x = .error p) fun i x => ∃ r, f i x = .ok r := by
  rw [← map_eq_error_iff (s := s), tryMap]
  cases s.map f xs <;> simp [Except.map]

end Strategy

/-! ## Programs -/

/-- How the work is shared out does not matter for a graph. -/
theorem Module.resolve_strategy (s s' : Strategy) (m : Module) : m.resolve s = m.resolve s' := by
  unfold Module.resolve
  simp only [Strategy.traverse_eq_mapM]

/-- How the work is shared out does not matter for a module. -/
theorem Graph.flatten_strategy (s s' : Strategy) (g : Graph) : g.flatten s = g.flatten s' := by
  unfold Graph.flatten
  simp only [Strategy.traverse_eq_mapM]

/-- **How work is shared out cannot be observed.** Every strategy gives what one worker gives: the
values in the order of the list, each from the item and its true number; the abrupt end of the first
item that has one; and otherwise the failure of the first item that fails. Resolving and flattening
give the same under every strategy. -/
theorem Strategy.eq_sequential (s : Strategy) :
    (∀ (π α β : Type) (f : Nat → α → Except π β) (xs : List α),
      s.map f xs = Strategy.sequential.map f xs ∧
      (∀ ys, s.map f xs = .ok ys ↔
        List.Forall₂ (fun x y => f x.2 x.1 = .ok y) xs.zipIdx ys) ∧
      ∀ p, s.map f xs = .error p ↔
        FirstIn xs (fun i x => f i x = .error p) fun i x => ∃ y, f i x = .ok y) ∧
    (∀ (π ε α β : Type) (f : Nat → α → Except π (Except ε β)) (xs : List α),
      s.tryMap f xs = Strategy.sequential.tryMap f xs ∧
      (∀ ys, s.tryMap f xs = .ok (.ok ys) ↔
        List.Forall₂ (fun x y => f x.2 x.1 = .ok (.ok y)) xs.zipIdx ys) ∧
      (∀ e, s.tryMap f xs = .ok (.error e) ↔
        (∀ i x, xs[i]? = some x → ∃ r, f i x = .ok r) ∧
          FirstIn xs (fun i x => f i x = .ok (.error e)) fun i x => ∃ y, f i x = .ok (.ok y)) ∧
      ∀ p, s.tryMap f xs = .error p ↔
        FirstIn xs (fun i x => f i x = .error p) fun i x => ∃ r, f i x = .ok r) ∧
    (∀ m : Module, m.resolve s = m.resolve .sequential) ∧
    ∀ g : Graph, g.flatten s = g.flatten .sequential := by
  refine ⟨fun π α β f xs => ⟨?_, fun ys => map_eq_ok_iff, fun p => map_eq_error_iff⟩,
    fun π ε α β f xs => ⟨?_, fun ys => tryMap_eq_ok_ok_iff, fun e => tryMap_eq_ok_error_iff,
      fun p => tryMap_eq_error_iff⟩,
    Module.resolve_strategy s .sequential, Graph.flatten_strategy s .sequential⟩
  · rw [map_eq_work, map_eq_work]
  · rw [tryMap, tryMap, map_eq_work, map_eq_work]

end HashLink
