import HashLink.Proofs.Traversal
import HashLink.Storage.FileTree

/-!
# What was written is read back

A save puts a file where its path leads to. The folders on the way there are still folders
afterwards, since a file never takes the place of one, so the path leads to the same place again, and
reading finds the file. Only a device that forgets what it is given stays as it was.
-/

namespace HashLink.FileTree

variable {t t' : FileTree} {place folder target : Place} {node : Node}

theorem lookup_eq_ok_iff {name : String} {found : Option Node} :
    t.lookup folder name = .ok found ↔
      name.utf8ByteSize ≤ maxNameBytes ∧ t.node? (folder ++ [name]) = found := by
  unfold lookup
  split
  · next hlong => simp [Nat.not_le.mpr hlong]
  · next hshort => simp [Nat.not_lt.mp hshort]

/-! ## The way to a place -/

/-- Folders stay where they are when a node is put where none of them is. -/
theorem node?_put_of_folder (hplace : t.node? place ≠ some .folder)
    (h : t.node? folder = some .folder) : (t.put place node).node? folder = some .folder := by
  have hne : folder ≠ place := by
    rintro rfl
    exact hplace h
  rw [node?_put_of_ne t hne, h]

theorem enter_down_eq_ok_iff {name : String} :
    t.enter folder (.down name) = .ok target ↔
      name.utf8ByteSize ≤ maxNameBytes ∧ t.node? (folder ++ [name]) = some .folder ∧
        target = folder ++ [name] := by
  constructor
  · intro h
    obtain ⟨found, hfound, h⟩ := bind_eq_ok_iff.mp h
    obtain ⟨hname, rfl⟩ := lookup_eq_ok_iff.mp hfound
    split at h
    · next hfolder => exact ⟨hname, hfolder, (Except.ok.inj h).symm⟩
    · cases h
    · cases h
  · rintro ⟨hname, hfolder, rfl⟩
    simp only [enter, lookup_eq_ok_iff.mpr ⟨hname, hfolder⟩, ok_bind]
    rfl

/-- A step that leads to a folder leads there again. -/
theorem enter_put (hplace : t.node? place ≠ some .folder) {step : PathStep}
    (h : t.enter folder step = .ok target) : (t.put place node).enter folder step = .ok target := by
  cases step with
  | stay => exact h
  | up => exact h
  | down name =>
      obtain ⟨hname, hfolder, rfl⟩ := enter_down_eq_ok_iff.mp h
      exact enter_down_eq_ok_iff.mpr ⟨hname, node?_put_of_folder hplace hfolder, rfl⟩

theorem foldlM_enter_put (hplace : t.node? place ≠ some .folder) {steps : List PathStep}
    (h : steps.foldlM t.enter folder = .ok target) :
    steps.foldlM (t.put place node).enter folder = .ok target := by
  induction steps generalizing folder with
  | nil => exact h
  | cons step steps ih =>
      rw [List.foldlM_cons] at h ⊢
      obtain ⟨next, hnext, h⟩ := bind_eq_ok_iff.mp h
      rw [enter_put hplace hnext]
      exact ih h

/-- **A path leads to the same place again** when a node was put where no folder is. -/
theorem walk_put (hplace : t.node? place ≠ some .folder) {path : Path} {d : Destination}
    (h : t.walk path = .ok d) : (t.put place node).walk path = .ok d := by
  have hagain {steps : List PathStep} {last : Place → Destination}
      (h : (do return last (← steps.foldlM t.enter (if path.fromRoot then [] else t.here))) = .ok d) :
      (do return last (← steps.foldlM (t.put place node).enter
        (if path.fromRoot then [] else t.here))) = .ok d := by
    obtain ⟨folder, hfolder, h⟩ := bind_eq_ok_iff.mp h
    rw [foldlM_enter_put hplace hfolder]
    exact h
  cases hlast : path.steps.getLast? with
  | none =>
      simp only [walk, hlast] at h ⊢
      exact hagain h
  | some step =>
      cases step <;> simp only [walk, hlast] at h ⊢ <;> exact hagain h

/-! ## Writing and reading -/

/-- A path that leads to a node which is no folder, and where it is. -/
def LeadsTo (t : FileTree) (text : String) (place : Place) : Prop :=
  ∃ path folder name, Path.ofString text = .ok path ∧ path.asFolder = false ∧
    t.walk path = .ok ⟨folder, some name⟩ ∧ name.utf8ByteSize ≤ maxNameBytes ∧
      place = folder ++ [name]

theorem LeadsTo.ne_nil {text : String} (h : t.LeadsTo text place) : place ≠ [] := by
  obtain ⟨_, folder, name, _, _, _, _, rfl⟩ := h
  exact List.append_ne_nil_of_right_ne_nil folder (List.cons_ne_nil name [])

theorem LeadsTo.put {text : String} (h : t.LeadsTo text place)
    (hplace : t.node? place ≠ some .folder) : (t.put place node).LeadsTo text place := by
  obtain ⟨path, folder, name, hpath, hfile, hwalk, hname, rfl⟩ := h
  exact ⟨path, folder, name, hpath, hfile, walk_put hplace hwalk, hname, rfl⟩

/-- What a path leads to is found. -/
theorem LeadsTo.find {text : String} (h : t.LeadsTo text place) (hnode : t.node? place = some node)
    (hfolder : node ≠ .folder) : t.find text = .ok node := by
  obtain ⟨path, folder, name, hpath, hfile, hwalk, hname, rfl⟩ := h
  simp only [FileTree.find, hpath, hwalk, lookup_eq_ok_iff.mpr ⟨hname, hnode⟩, ok_bind]
  cases node with
  | folder => exact absurd rfl hfolder
  | file bytes => rw [hfile]; rfl
  | device refusal => rw [hfile]; rfl

/-- **What a write comes to**: a file where the path leads to, instead of another one or of nothing, or
nothing new if a device is there. -/
theorem exists_place_of_write {text : String} {bytes : List UInt8}
    (h : t.write text bytes = .ok t') :
    ∃ place, t.LeadsTo text place ∧
      (t.node? place = some (.device none) ∧ t' = t ∨
        t.node? place ≠ some .folder ∧ t' = t.put place (.file bytes)) := by
  obtain ⟨path, hpath, h⟩ := bind_eq_ok_iff.mp h
  obtain ⟨⟨folder, name?⟩, hwalk, h⟩ := bind_eq_ok_iff.mp h
  dsimp only at h
  split at h
  · cases h
  · cases h
  · next name hfile =>
    obtain ⟨found, hfound, h⟩ := bind_eq_ok_iff.mp h
    obtain ⟨hname, rfl⟩ := lookup_eq_ok_iff.mp hfound
    refine ⟨folder ++ [name], ⟨path, folder, name, hpath, hfile, hwalk, hname, rfl⟩, ?_⟩
    split at h
    · cases h
    · cases h
    · next hdevice => exact .inl ⟨hdevice, (Except.ok.inj h).symm⟩
    · next hold => exact .inr ⟨by simp [hold], (Except.ok.inj h).symm⟩
    · next hnew => exact .inr ⟨by simp [hnew], (Except.ok.inj h).symm⟩

/-- These bytes were written, and are read where they went, unless that is a device that forgets what it
is given. -/
structure Saved (t t' : FileTree) (text : String) (bytes : List UInt8) : Prop where
  write : t.write text bytes = .ok t'
  read : t'.read text = .ok bytes ∨ t.find text = .ok (.device none)

/-- **What was written is read back**, unless the path leads to a device that forgets it. -/
theorem saved_of_write {text : String} {bytes : List UInt8} (h : t.write text bytes = .ok t') :
    t.Saved t' text bytes := by
  refine ⟨h, ?_⟩
  obtain ⟨place, hleads, ⟨hdevice, rfl⟩ | ⟨hplace, rfl⟩⟩ := exists_place_of_write h
  · exact .inr (hleads.find hdevice (by simp))
  · have hnode := node?_put_self t hleads.ne_nil (.file bytes)
    have hfind := (hleads.put hplace).find hnode (by simp)
    refine .inl ?_
    rw [read, hfind]
    rfl

/-- Nothing changes but what the path leads to. -/
theorem node?_of_write {text : String} {bytes : List UInt8} (h : t.write text bytes = .ok t') :
    ∃ place, t.LeadsTo text place ∧ ∀ other, other ≠ place → t'.node? other = t.node? other := by
  obtain ⟨place, hleads, ⟨_, rfl⟩ | ⟨_, rfl⟩⟩ := exists_place_of_write h
  · exact ⟨place, hleads, fun _ _ => rfl⟩
  · exact ⟨place, hleads, fun _ hother => node?_put_of_ne t hother _⟩

end HashLink.FileTree
