import HashLink.Patch.Runner

/-!
# Failed patches leave no trace

A patch may do anything to the form that it edits before it gives up or breaks. A run of a patch is
taken here as a run on the whole program, so that one statement covers both modes: the program after
the patch is the one that the run left behind if it finished, and the one from before if not. By
induction on the list, a list of patches does to a program what the patches do that were kept.
-/

namespace HashLink

/-! ## One patch -/

/-- The run of a patch on a program. The form that the mode does not select stays as it is. -/
def SourcedPatch.run (mode : PatchMode) (s : SourcedPatch) (p : Program) : PatchRun Program Unit :=
  match mode with
  | .raw =>
    let r := s.patch.raw p.graph p.module
    ⟨r.messages, { p with module := r.state }, r.result⟩
  | .resolved =>
    let r := s.patch.resolved p.module p.graph
    ⟨r.messages, { p with graph := r.state }, r.result⟩

namespace PatchRun

variable {σ : Type} {r : PatchRun σ Unit}

theorem outcome_eq_rolledBack_iff {e : PatchError} :
    r.outcome = .rolledBack e ↔ r.result = .error e := by
  unfold outcome
  split
  · simp_all
  · split <;> simp_all

theorem outcome_eq_reported_iff {n : Nat} :
    r.outcome = .reported n ↔
      r.result = .ok () ∧ 0 < Message.errorCount r.messages ∧ Message.errorCount r.messages = n := by
  unfold outcome
  split
  · simp_all
  · split <;> simp_all [Nat.pos_iff_ne_zero]

theorem outcome_eq_applied_iff :
    r.outcome = .applied ↔ r.result = .ok () ∧ Message.errorCount r.messages = 0 := by
  unfold outcome
  split
  · simp_all
  · split <;> simp_all

theorem isKept_outcome_iff : r.outcome.isKept = true ↔ r.result = .ok () := by
  cases h : r.outcome with
  | rolledBack e => simp [PatchOutcome.isKept, outcome_eq_rolledBack_iff.mp h]
  | reported n => simp [PatchOutcome.isKept, (outcome_eq_reported_iff.mp h).1]
  | applied => simp [PatchOutcome.isKept, (outcome_eq_applied_iff.mp h).1]

theorem kept_of_ok {before : σ} (h : r.result = .ok ()) : r.kept before = r.state := by
  simp only [kept, h]

theorem kept_of_error {before : σ} {e : PatchError} (h : r.result = .error e) :
    r.kept before = before := by
  simp only [kept, h]

/-- A run of a patch on `before` leaves `after`, and `outcome` is what became of the patch. -/
structure Settles (r : PatchRun σ Unit) (before after : σ) (outcome : PatchOutcome) : Prop where
  /-- A patch that stopped early, because it gave up or because it broke, is rolled back. -/
  rolledBack : ∀ e, outcome = .rolledBack e ↔ r.result = .error e
  /-- One that finished and reported problems is counted with their number. -/
  reported : ∀ n, outcome = .reported n ↔
    r.result = .ok () ∧ 0 < Message.errorCount r.messages ∧ Message.errorCount r.messages = n
  /-- One that finished and reported none is applied. -/
  applied : outcome = .applied ↔ r.result = .ok () ∧ Message.errorCount r.messages = 0
  /-- The edits of a patch that finished stay. -/
  edited : r.result = .ok () → after = r.state
  /-- Those of another one are gone. -/
  undone : ∀ e, r.result = .error e → after = before

theorem settles_kept (r : PatchRun σ Unit) (before : σ) :
    r.Settles before (r.kept before) r.outcome where
  rolledBack _ := outcome_eq_rolledBack_iff
  reported _ := outcome_eq_reported_iff
  applied := outcome_eq_applied_iff
  edited := kept_of_ok
  undone _ := kept_of_error

end PatchRun

namespace Program

variable {mode : PatchMode} {p : Program} {s : SourcedPatch} {patches : List SourcedPatch}

theorem program_apply : (p.apply mode s).program = (s.run mode p).kept p := by
  cases mode with
  | raw =>
      simp only [apply, SourcedPatch.run, PatchRun.kept]
      split <;> rfl
  | resolved =>
      simp only [apply, SourcedPatch.run, PatchRun.kept]
      split <;> rfl

theorem outcome_apply : (p.apply mode s).outcome = (s.run mode p).outcome := by
  cases mode <;> rfl

/-- Applying one patch, in one statement for both modes. -/
theorem settles_apply :
    (s.run mode p).Settles p (p.apply mode s).program (p.apply mode s).outcome := by
  rw [program_apply, outcome_apply]
  exact (s.run mode p).settles_kept p

/-- A patch that is not kept leaves the program as it was. -/
theorem apply_of_not_isKept (h : (p.apply mode s).outcome.isKept = false) :
    (p.apply mode s).program = p := by
  cases hresult : (s.run mode p).result with
  | error e => exact settles_apply.undone e hresult
  | ok =>
      have hkept := PatchRun.isKept_outcome_iff.mpr hresult
      rw [← outcome_apply, h] at hkept
      exact absurd hkept Bool.false_ne_true

theorem graph_apply_raw : (p.apply .raw s).program.graph = p.graph := rfl

theorem module_apply_resolved : (p.apply .resolved s).program.module = p.module := rfl

/-! ## A list of patches -/

theorem graph_applyAll_raw : (p.applyAll .raw patches).program.graph = p.graph := by
  induction patches generalizing p with
  | nil => rfl
  | cons s rest ih => exact ih.trans graph_apply_raw

theorem module_applyAll_resolved : (p.applyAll .resolved patches).program.module = p.module := by
  induction patches generalizing p with
  | nil => rfl
  | cons s rest ih => exact ih.trans module_apply_resolved

theorem sources_applyAll :
    (p.applyAll mode patches).outcomes.map (·.1) = patches.map (·.source) := by
  induction patches generalizing p with
  | nil => rfl
  | cons s rest ih => simp only [applyAll, List.map_cons, ih]

/-- Every patch runs on what the patches before it left, and leaves what those after it get. -/
theorem settles_applyAll {i : Nat} (h : patches[i]? = some s) :
    ∃ outcome, (p.applyAll mode patches).outcomes[i]? = some (s.source, outcome) ∧
      (s.run mode (p.applyAll mode (patches.take i)).program).Settles
        (p.applyAll mode (patches.take i)).program
        (p.applyAll mode (patches.take (i + 1))).program outcome := by
  induction patches generalizing p i with
  | nil => simp at h
  | cons s' rest ih =>
      cases i with
      | zero =>
          obtain rfl : s' = s := by simpa using h
          exact ⟨(p.apply mode s').outcome, rfl, settles_apply⟩
      | succ i =>
          have htail : rest[i]? = some s := by simpa using h
          exact ih (p := (p.apply mode s').program) htail

/-- The patches of a list whose edits are kept. -/
def kept (mode : PatchMode) (p : Program) (patches : List SourcedPatch) : List SourcedPatch :=
  ((patches.zip (p.applyAll mode patches).outcomes).filter (·.2.2.isKept)).map (·.1)

theorem kept_cons :
    p.kept mode (s :: patches) =
      if (p.apply mode s).outcome.isKept then s :: (p.apply mode s).program.kept mode patches
      else (p.apply mode s).program.kept mode patches := by
  simp only [kept, applyAll, List.zip_cons_cons, List.filter_cons]
  split <;> simp

/-- Without the patches that are not kept, the program comes out the same, and so does what became
of the others. -/
theorem applyAll_kept :
    (p.applyAll mode (p.kept mode patches)).program = (p.applyAll mode patches).program ∧
    (p.applyAll mode (p.kept mode patches)).outcomes =
      (p.applyAll mode patches).outcomes.filter (·.2.isKept) := by
  induction patches generalizing p with
  | nil => exact ⟨rfl, rfl⟩
  | cons s rest ih =>
      obtain ⟨hprogram, houtcomes⟩ := ih (p := (p.apply mode s).program)
      rw [kept_cons]
      cases hkept : (p.apply mode s).outcome.isKept with
      | true => simp [applyAll, hkept, hprogram, houtcomes]
      | false =>
          -- the patch did nothing, so the others start from the same program without it
          have hsame := apply_of_not_isKept hkept
          rw [hsame] at hprogram houtcomes
          simp [applyAll, hkept, hsame, hprogram, houtcomes]

/-- **Failed patches are invisible.** Applying patches, whatever they do, gives one outcome for each
of them in order, and each outcome says how that patch ended on what the patches before it left.
Without the patches that were rolled back, the program in the end and the other outcomes are the
same. The form that the mode does not select never changes. -/
theorem applyAll_rolls_back (mode : PatchMode) (p : Program) (patches : List SourcedPatch) :
    (p.applyAll mode patches).outcomes.map (·.1) = patches.map (·.source) ∧
    (∀ (i : Nat) (s : SourcedPatch), patches[i]? = some s →
      ∃ outcome, (p.applyAll mode patches).outcomes[i]? = some (s.source, outcome) ∧
        (s.run mode (p.applyAll mode (patches.take i)).program).Settles
          (p.applyAll mode (patches.take i)).program
          (p.applyAll mode (patches.take (i + 1))).program outcome) ∧
    ((p.applyAll mode (p.kept mode patches)).program = (p.applyAll mode patches).program ∧
      (p.applyAll mode (p.kept mode patches)).outcomes =
        (p.applyAll mode patches).outcomes.filter (·.2.isKept)) ∧
    (p.applyAll .raw patches).program.graph = p.graph ∧
    (p.applyAll .resolved patches).program.module = p.module :=
  ⟨sources_applyAll, fun _ _ => settles_applyAll, applyAll_kept, graph_applyAll_raw,
    module_applyAll_resolved⟩

end Program

end HashLink
