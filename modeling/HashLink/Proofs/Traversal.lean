import HashLink.Graph.Error
import HashLink.Strategy
import Mathlib.Data.List.Forall2

/-!
# Going through a list, with errors

Resolving and flattening are traversals: every entry of a list goes through a function that may
fail, and the first failure in list order is the failure of the whole. Such a traversal succeeds
exactly when every entry does, which is a relation between two lists (`List.Forall₂`); everything
later on is stated with that relation and never opens a traversal again.

The second half says that sharing the work out over several workers changes nothing. The work is cut
into runs, and running one after another is running all of it, since each run starts at the true
number of its first item.
-/

namespace HashLink

variable {π ε α β γ : Type}

/-! ## Steps that may fail -/

@[simp] theorem ok_bind (a : α) (f : α → Except ε β) : (Except.ok a >>= f) = f a := rfl

@[simp] theorem error_bind (e : ε) (f : α → Except ε β) :
    ((Except.error e : Except ε α) >>= f) = .error e := rfl

@[simp] theorem pure_eq_ok (a : α) : (pure a : Except ε α) = .ok a := rfl

theorem bind_eq_ok_iff {x : Except ε α} {f : α → Except ε β} {b : β} :
    (x >>= f) = .ok b ↔ ∃ a, x = .ok a ∧ f a = .ok b := by
  cases x <;> simp

theorem bind_eq_error_iff {x : Except ε α} {f : α → Except ε β} {e : ε} :
    (x >>= f) = .error e ↔ x = .error e ∨ ∃ a, x = .ok a ∧ f a = .error e := by
  cases x <;> simp

theorem exists_bind_eq_ok_iff {x : Except ε α} {f : α → Except ε β} :
    (∃ b, (x >>= f) = .ok b) ↔ ∃ a, x = .ok a ∧ ∃ b, f a = .ok b := by
  cases x <;> simp

theorem map_eq_ok_iff {x : Except ε α} {f : α → β} {b : β} :
    x.map f = .ok b ↔ ∃ a, x = .ok a ∧ f a = b := by
  cases x <;> simp [Except.map]

theorem mapError_eq_ok_iff {f : ε → γ} {x : Except ε α} {a : α} :
    x.mapError f = .ok a ↔ x = .ok a := by
  cases x <;> simp [Except.mapError]

@[simp] theorem located_eq_ok_iff {place : Location} {x : Except Fault α} {a : α} :
    located place x = .ok a ↔ x = .ok a := by
  cases x <;> simp [located]

@[simp] theorem located_eq_error_iff {place : Location} {x : Except Fault α} {e : GraphError} :
    located place x = .error e ↔ x = .error e.fault ∧ e.location = some place := by
  obtain ⟨location, fault⟩ := e
  cases x <;> simp [located, and_comm, eq_comm]

@[simp] theorem unlocated_eq_ok_iff {x : Except Fault α} {a : α} :
    unlocated x = .ok a ↔ x = .ok a := by
  cases x <;> simp [unlocated]

@[simp] theorem unlocated_eq_error_iff {x : Except Fault α} {e : GraphError} :
    unlocated x = .error e ↔ x = .error e.fault ∧ e.location = none := by
  obtain ⟨location, fault⟩ := e
  cases x <;> simp [unlocated, and_comm, eq_comm]

/-! ## Traversals -/

/-- **A traversal succeeds exactly when every entry does.** -/
theorem mapM_eq_ok_iff {f : α → Except ε β} {xs : List α} {ys : List β} :
    xs.mapM f = .ok ys ↔ List.Forall₂ (fun x y => f x = .ok y) xs ys := by
  induction xs generalizing ys with
  | nil => simp [eq_comm]
  | cons x xs ih =>
      rw [List.mapM_cons, List.forall₂_cons_left_iff]
      simp only [bind_eq_ok_iff, ih, pure_eq_ok, Except.ok.injEq]
      constructor
      · rintro ⟨y, hy, ys, hys, rfl⟩
        exact ⟨y, ys, hy, hys, rfl⟩
      · rintro ⟨y, ys, hy, hys, rfl⟩
        exact ⟨y, hy, ys, hys, rfl⟩

/-- A traversal fails only where an entry does. -/
theorem exists_of_mapM_eq_error {f : α → Except ε β} {xs : List α} {e : ε}
    (h : xs.mapM f = .error e) : ∃ x ∈ xs, f x = .error e := by
  induction xs with
  | nil => simp at h
  | cons x xs ih =>
      rw [List.mapM_cons, bind_eq_error_iff] at h
      rcases h with h | ⟨y, _, h⟩
      · exact ⟨x, by simp, h⟩
      · rw [bind_eq_error_iff] at h
        rcases h with h | ⟨ys, _, h⟩
        · obtain ⟨x', hx', he⟩ := ih h
          exact ⟨x', List.mem_cons_of_mem x hx', he⟩
        · simp at h

/-- A traversal in which every entry succeeds does so as a whole. -/
theorem exists_mapM_eq_ok {f : α → Except ε β} {Q : β → Prop} {xs : List α}
    (h : ∀ x ∈ xs, ∃ y, f x = .ok y ∧ Q y) : ∃ ys, xs.mapM f = .ok ys ∧ ∀ y ∈ ys, Q y := by
  induction xs with
  | nil => exact ⟨[], rfl, by simp⟩
  | cons x xs ih =>
      rw [List.forall_mem_cons] at h
      obtain ⟨y, hy, hQ⟩ := h.1
      obtain ⟨ys, hys, hQs⟩ := ih h.2
      refine ⟨y :: ys, ?_, List.forall_mem_cons.mpr ⟨hQ, hQs⟩⟩
      rw [List.mapM_cons, hy, hys]
      rfl

/-- A traversal gives what a relation between its entries and others promises. -/
theorem mapM_of_forall₂ {R : α → β → Prop} {g : β → Except ε γ} {k : α → γ} {xs : List α}
    {ys : List β} (h : List.Forall₂ R xs ys) (each : ∀ x ∈ xs, ∀ y, R x y → g y = .ok (k x)) :
    ys.mapM g = .ok (xs.map k) := by
  induction h with
  | nil => rfl
  | @cons x y xs ys hy _ ih =>
      have hg := each x (by simp) y hy
      have hs := ih fun x' hx' y' => each x' (List.mem_cons_of_mem x hx') y'
      rw [List.mapM_cons, hg, hs]
      rfl

/-- The same for a relation that knows the number of an entry. -/
theorem mapM_of_forall₂_zipIdx {R : α × Nat → β → Prop} {g : β → Except ε γ} {k : α → γ}
    {xs : List α} {ys : List β} (h : List.Forall₂ R xs.zipIdx ys)
    (each : ∀ x ∈ xs, ∀ i y, R (x, i) y → g y = .ok (k x)) : ys.mapM g = .ok (xs.map k) := by
  have hmap : xs.map k = xs.zipIdx.map fun x => k x.1 := by
    conv_lhs => rw [← List.zipIdx_map_fst 0 xs, List.map_map]
    rfl
  rw [hmap]
  exact mapM_of_forall₂ h fun x hx y => each x.1 (List.fst_mem_of_mem_zipIdx hx) x.2 y

/-- What undoes every step undoes the traversal. -/
theorem mapM_undo {f : α → Except ε β} {g : β → Except ε γ} {k : α → γ} {xs : List α} {ys : List β}
    (h : xs.mapM f = .ok ys) (undo : ∀ x ∈ xs, ∀ y, f x = .ok y → g y = .ok (k x)) :
    ys.mapM g = .ok (xs.map k) :=
  mapM_of_forall₂ (mapM_eq_ok_iff.mp h) undo

/-- A traversal that only checks its entries. -/
theorem mapM_check_eq_ok_iff {f : α → Except ε α} {P : α → Prop} {xs ys : List α}
    (h : ∀ x y, f x = .ok y ↔ P x ∧ x = y) :
    xs.mapM f = .ok ys ↔ (∀ x ∈ xs, P x) ∧ xs = ys := by
  rw [mapM_eq_ok_iff]
  simp only [h]
  constructor
  · intro hf
    induction hf with
    | nil => simp
    | cons hxy _ ih =>
        obtain ⟨hx, rfl⟩ := hxy
        obtain ⟨hxs, rfl⟩ := ih
        exact ⟨List.forall_mem_cons.mpr ⟨hx, hxs⟩, rfl⟩
  · rintro ⟨hxs, rfl⟩
    exact List.forall₂_same.mpr fun x hx => ⟨hxs x hx, rfl⟩

/-- Two functions that succeed alike make traversals that succeed alike. -/
theorem mapM_eq_ok_congr {ε' : Type} {f : α → Except ε β} {g : α → Except ε' β} {xs : List α}
    {ys : List β} (h : ∀ x y, f x = .ok y ↔ g x = .ok y) :
    xs.mapM f = .ok ys ↔ xs.mapM g = .ok ys := by
  simp only [mapM_eq_ok_iff, h]

theorem exists_of_forall₂ {R : α → β → Prop} {xs : List α} {ys : List β} {x : α}
    (h : List.Forall₂ R xs ys) (hx : x ∈ xs) : ∃ y ∈ ys, R x y := by
  induction h with
  | nil => simp at hx
  | @cons x' y' _ _ hxy _ ih =>
      rcases List.mem_cons.mp hx with rfl | hx
      · exact ⟨y', List.mem_cons_self, hxy⟩
      · obtain ⟨y, hy, hxy⟩ := ih hx
        exact ⟨y, List.mem_cons_of_mem y' hy, hxy⟩

/-- Every entry of a traversal that succeeded did so. -/
theorem exists_of_mem_mapM {f : α → Except ε β} {xs : List α} {ys : List β} {x : α}
    (h : xs.mapM f = .ok ys) (hx : x ∈ xs) : ∃ y ∈ ys, f x = .ok y :=
  exists_of_forall₂ (mapM_eq_ok_iff.mp h) hx

/-- Every result of a traversal comes from an entry. -/
theorem exists_of_mem_result {f : α → Except ε β} {xs : List α} {ys : List β} {y : β}
    (h : xs.mapM f = .ok ys) (hy : y ∈ ys) : ∃ x ∈ xs, f x = .ok y :=
  exists_of_forall₂ (mapM_eq_ok_iff.mp h).flip hy

/-- The same without saying anything about the results, in both directions. -/
theorem exists_mapM_eq_ok_iff {f : α → Except ε β} {xs : List α} :
    (∃ ys, xs.mapM f = .ok ys) ↔ ∀ x ∈ xs, ∃ y, f x = .ok y := by
  constructor
  · intro h x hx
    obtain ⟨ys, hys⟩ := h
    obtain ⟨y, _, hy⟩ := exists_of_mem_mapM hys hx
    exact ⟨y, hy⟩
  · intro h
    have each : ∀ x ∈ xs, ∃ y, f x = .ok y ∧ True := by simpa using h
    obtain ⟨ys, hys, _⟩ := exists_mapM_eq_ok each
    exact ⟨ys, hys⟩

/-- What every step keeps, the traversal keeps. -/
theorem map_eq_of_mapM {f : α → Except ε β} {g : β → γ} {k : α → γ} {xs : List α} {ys : List β}
    (h : xs.mapM f = .ok ys) (each : ∀ x y, f x = .ok y → g y = k x) : ys.map g = xs.map k := by
  rw [mapM_eq_ok_iff] at h
  induction h with
  | nil => rfl
  | cons hxy _ ih => rw [List.map_cons, List.map_cons, each _ _ hxy, ih]

theorem getElem?_of_forall₂ {R : α → β → Prop} {xs : List α} {ys : List β} {i : Nat} {x : α}
    (h : List.Forall₂ R xs ys) (hx : xs[i]? = some x) : ∃ y, ys[i]? = some y ∧ R x y := by
  induction h generalizing i with
  | nil => simp at hx
  | @cons x' y _ _ hxy _ ih =>
      cases i with
      | zero =>
          obtain rfl : x' = x := by simpa using hx
          exact ⟨y, by simp, hxy⟩
      | succ i =>
          simp only [List.getElem?_cons_succ] at hx ⊢
          exact ih hx

/-- The number of an entry does not matter for one that succeeds if it matters only for errors. -/
theorem mapM_zipIdx_eq_ok_iff {ε' : Type} {f : Nat → α → Except ε β} {g : α → Except ε' β}
    {xs : List α} {ys : List β} {k : Nat} (h : ∀ i x y, f i x = .ok y ↔ g x = .ok y) :
    ((xs.zipIdx k).mapM fun (x, i) => f i x) = .ok ys ↔ xs.mapM g = .ok ys := by
  induction xs generalizing k ys with
  | nil => simp
  | cons x xs ih =>
      rw [List.zipIdx_cons, List.mapM_cons, List.mapM_cons]
      simp only [bind_eq_ok_iff, h, ih, pure_eq_ok, Except.ok.injEq]

/-- Saying where an entry failed changes nothing for one that succeeds. -/
theorem mapM_located_eq_ok_iff {place : Nat → Location} {f : α → Except Fault β} {xs : List α}
    {ys : List β} {k : Nat} :
    ((xs.zipIdx k).mapM fun (x, i) => located (place i) (f x)) = .ok ys ↔ xs.mapM f = .ok ys :=
  mapM_zipIdx_eq_ok_iff (f := fun i x => located (place i) (f x)) fun _ _ _ => located_eq_ok_iff

/-- The same for a fold. -/
theorem foldlM_located_eq_ok_iff {place : Nat → Location} {f : β → α → Except Fault β} {xs : List α}
    {b b' : β} {k : Nat} :
    (xs.zipIdx k).foldlM (fun b (x, i) => located (place i) (f b x)) b = .ok b' ↔
      xs.foldlM f b = .ok b' := by
  induction xs generalizing k b with
  | nil => simp
  | cons x xs ih =>
      rw [List.zipIdx_cons, List.foldlM_cons, List.foldlM_cons]
      simp only [bind_eq_ok_iff, located_eq_ok_iff, ih]

/-! ## Shared work -/

namespace Strategy

/-- One worker's run is a traversal of its items with their numbers. -/
theorem work_eq_mapM (f : Nat → α → Except π β) (base : Nat) (xs : List α) :
    work f base xs = (xs.zipIdx base).mapM fun (x, i) => f i x := by
  induction xs generalizing base with
  | nil => rfl
  | cons x xs ih => rw [work, List.zipIdx_cons, List.mapM_cons, ih]

/-- One run after another is a run over both. -/
theorem work_append (f : Nat → α → Except π β) (base : Nat) (xs ys : List α) :
    work f base (xs ++ ys) = do
      let us ← work f base xs
      let vs ← work f (base + xs.length) ys
      return us ++ vs := by
  induction xs generalizing base with
  | nil => exact (bind_pure (work f base ys)).symm
  | cons x xs ih =>
      rw [List.cons_append, work, work, ih, List.length_cons, Nat.add_right_comm, Nat.add_assoc]
      simp only [bind_assoc, pure_bind, List.cons_append]

/-- Cut into runs of one size, numbered from `k` on, the work is that of one worker who starts at
the first item of run `k`. -/
theorem join_chunks (f : Nat → α → Except π β) {size : Nat} (hs : 0 < size) (k : Nat) (xs : List α) :
    join (((chunks size xs).zipIdx k).map fun (run, i) => work f (i * size) run) =
      work f (k * size) xs := by
  induction hn : xs.length using Nat.strongRecOn generalizing k xs with
  | ind n ih =>
    rw [chunks]
    split
    · next h =>
      have hnil : xs = [] := h.resolve_left (Nat.ne_of_gt hs)
      subst hnil
      rfl
    · next h =>
      have hpos : 0 < xs.length := List.length_pos_iff.mpr fun e => h (.inr e)
      have hrest := ih (xs.drop size).length (by simp only [List.length_drop]; omega) (k + 1)
        (xs.drop size) rfl
      have hsplit := work_append f (k * size) (xs.take size) (xs.drop size)
      rw [List.take_append_drop] at hsplit
      rw [List.zipIdx_cons, List.map_cons, join, hrest, hsplit]
      -- the second run starts where it should, or there is nothing left for it to do
      rcases Nat.lt_or_ge size xs.length with hlt | hge
      · rw [List.length_take_of_le (Nat.le_of_lt hlt), Nat.succ_mul]
      · rw [List.drop_eq_nil_of_le hge]
        rfl

/-- **How work is shared out shows nowhere.** -/
theorem map_eq_work (s : Strategy) (f : Nat → α → Except π β) (xs : List α) :
    s.map f xs = work f 0 xs := by
  unfold map
  dsimp only
  split
  · rfl
  · next h =>
    have hsize : 0 < (xs.length + min s.workers xs.length - 1) / min s.workers xs.length :=
      Nat.div_pos (by omega) (by omega)
    simpa using join_chunks f hsize 0 xs

theorem collect_eq_mapM (rs : List (Except ε β)) : collect rs = rs.mapM id := by
  induction rs with
  | nil => rfl
  | cons r rs ih => rw [collect, List.mapM_cons, ih]; rfl

/-- The same for work that may fail: it is a traversal in list order. -/
theorem traverse_eq_mapM (s : Strategy) (f : Nat → α → Except ε β) (xs : List α) :
    s.traverse f xs = xs.zipIdx.mapM fun (x, i) => f i x := by
  have hwork : s.map (fun i x => (.ok (f i x) : Except Empty (Except ε β))) xs =
      .ok (xs.zipIdx.map fun (x, i) => f i x) := by
    rw [map_eq_work, work_eq_mapM]
    exact List.mapM_pure
  unfold traverse tryMap
  rw [hwork]
  simp only [Except.map, collect_eq_mapM, List.mapM_map]
  rfl

theorem traverse_eq_ok_iff {s : Strategy} {place : Nat → Location} {f : α → Except Fault β}
    {xs : List α} {ys : List β} :
    s.traverse (fun i x => located (place i) (f x)) xs = .ok ys ↔ xs.mapM f = .ok ys := by
  rw [traverse_eq_mapM, mapM_located_eq_ok_iff]

end Strategy

end HashLink
