import HashLink.CommandLine.Run
import HashLink.Proofs.Patch.InfiniteJumps
import HashLink.Proofs.Pipeline
import HashLink.Proofs.SharedWork
import HashLink.Proofs.Storage.ReadBack

/-!
# What a run writes

Everything that a run does up to its last step comes down to `output`: a function of the mode, the
content of the input and one bit, which says whether some path leads to a patch. How often the patch
is applied does not matter, since it has nothing to do where it has been. It is assumed of the loader
that the paths of the run lead to this patch or to none.

In raw mode the edited module is written, otherwise the edited graph. The two edits are one, so the
module that was read and its graph can be followed together: `Program.Consistent` says that they are
two forms of one program, and editing both keeps it. From there, what is written in either mode reads
back as a module with the edited graph.
-/

namespace HashLink

open InfiniteJumps

/-! ## The outcome -/

/-- A program with both of its forms edited by the patch, or as it is. -/
def Program.patched (p : Program) (loads : Bool) : Program :=
  if loads then ⟨editModule p.graph p.module, editGraph p.graph⟩ else p

/-- The bytes of a program, from the form that the mode selects, or how a run fails for want of them. -/
def Program.bytes (mode : PatchMode) (p : Program) : Except RunFailure (List UInt8) :=
  match mode with
  | .raw => do
    p.module.verify.mapError fun _ => .error
    p.module.encode.mapError ModuleError.failure
  | .resolved => do
    let m ← (p.graph.flatten .sequential).mapError fun _ => .error
    m.encode.mapError ModuleError.failure

/-- The bytes that a run has to write in the end, or how it fails before. -/
def output (mode : PatchMode) (data : List UInt8) (loads : Bool) :
    Except RunFailure (List UInt8) := do
  let m ← (Module.decode data).mapError ModuleError.failure
  let g ← (m.resolve .sequential).mapError fun _ => .error
  ((⟨m, g⟩ : Program).patched loads).bytes mode

/-- The paths of a run lead to the patch for infinite jumps or to none. -/
def Options.LoadsInfiniteJumps (o : Options) (loader : DynamicLoader) : Prop :=
  ∀ path ∈ o.patches, ∀ patch, loader.load path = .ok patch → patch = InfiniteJumps.patch

/-- Whether some path of a run leads to a patch. -/
def Options.loadsPatch (o : Options) (loader : DynamicLoader) : Bool :=
  o.patches.any fun path => (loader.load path).isOk

/-- The exit status and the tree after writing these bytes, or after failing before. -/
def FileTree.deliver (t : FileTree) (path : String) :
    Except RunFailure (List UInt8) → Nat × FileTree
  | .error e => (e.exitStatus, t)
  | .ok bytes =>
    match t.write path bytes with
    | .error _ => (RunFailure.error.exitStatus, t)
    | .ok after => (0, after)

/-! ## Loading -/

namespace DynamicLoader

variable {loader : DynamicLoader} {path : String} {patch : Patch}

/-- **What it takes to load a patch**: a path that a loader can be asked about, a library for the
interface of this program, and a constructor that gives the patch. -/
theorem load_eq_ok_iff :
    loader.load path = .ok patch ↔
      '\x00' ∉ path.toList ∧ ∃ library, loader path = .ok library ∧
        library.interface = .ok patchInterface ∧ library.construct = .ok (some patch) := by
  rw [load, mapError_eq_ok_iff, construct]
  by_cases hzero : '\x00' ∈ path.toList
  · simp [hzero]
  · simp only [hzero, if_false, not_false_eq_true, true_and, bind_eq_ok_iff, mapError_eq_ok_iff]
    refine exists_congr fun library => and_congr_right fun _ => ?_
    constructor
    · rintro ⟨found, hfound, h⟩
      split at h
      · cases h
      · next hsame =>
        rw [not_not] at hsame
        obtain ⟨made, hmade, h⟩ := bind_eq_ok_iff.mp h
        cases made with
        | none => cases h
        | some patch' =>
            obtain rfl := Except.ok.inj h
            exact ⟨hsame ▸ hfound, mapError_eq_ok_iff.mp hmade⟩
    · rintro ⟨hinterface, hconstruct⟩
      exact ⟨patchInterface, hinterface, by simp [hconstruct, Except.mapError]⟩

/-- Whatever goes wrong, the error is about the path. -/
theorem exists_reason_of_load {e : PatchError} (h : loader.load path = .error e) :
    ∃ reason, e = .load path reason := by
  unfold load at h
  cases hconstruct : loader.construct path with
  | ok patch =>
      rw [hconstruct] at h
      cases h
  | error cause =>
      rw [hconstruct] at h
      exact ⟨cause.message, (Except.error.inj h).symm⟩

end DynamicLoader

/-! ## Patches -/

/-- A program with the form edited that the mode selects. -/
def Program.edited (mode : PatchMode) (p : Program) : Program :=
  match mode with
  | .raw => { p with module := editModule p.graph p.module }
  | .resolved => { p with graph := editGraph p.graph }

namespace Program

variable {mode : PatchMode} {p : Program}

theorem program_apply_patch (path : String) :
    (p.apply mode ⟨path, InfiniteJumps.patch⟩).program = p.edited mode := by
  cases mode with
  | raw => simp only [apply, edited, kept_raw]
  | resolved => simp only [apply, edited, kept_resolved]

theorem edited_edited : (p.edited mode).edited mode = p.edited mode := by
  cases mode with
  | raw => simp only [edited, editModule_editModule]
  | resolved => simp only [edited, editGraph_editGraph]

/-- The other form is not written. -/
theorem bytes_edited : (p.edited mode).bytes mode = (p.patched true).bytes mode := by
  cases mode <;> rfl

end Program

/-- Every patch that was loaded is the one for infinite jumps. -/
def AllInfiniteJumps (patches : LoadedPatches) : Prop :=
  ∀ path patch, (path, .ok patch) ∈ patches → patch = InfiniteJumps.patch

theorem allInfiniteJumps_loadPatches {o : Options} {loader : DynamicLoader}
    (h : o.LoadsInfiniteJumps loader) : AllInfiniteJumps (o.loadPatches loader) := by
  intro path patch hmem
  obtain ⟨path', hpath, heq⟩ := List.mem_map.mp hmem
  obtain ⟨rfl, hload⟩ := Prod.mk.inj heq
  exact h path' hpath patch hload

/-- **Patches that failed to load change nothing, and neither do repetitions.** -/
theorem applyLoaded_eq {mode : PatchMode} {patches : LoadedPatches} (h : AllInfiniteJumps patches)
    (p : Program) :
    (applyLoaded mode p patches).program =
      if patches.any (·.2.isOk) then p.edited mode else p := by
  induction patches generalizing p with
  | nil => rfl
  | cons entry rest ih =>
      have hrest : AllInfiniteJumps rest := fun path patch hmem => h path patch (.tail _ hmem)
      obtain ⟨path, e | patch⟩ := entry
      · exact ih hrest p
      · obtain rfl := h path patch (.head _)
        have hone : (applyFrom mode p path (.ok patch)).program = p.edited mode :=
          Program.program_apply_patch path
        simp only [applyLoaded, ih hrest, hone, Program.edited_edited, ite_self]
        rfl

/-! ## Runs -/

theorem mapError_encodeFor (path : String) (m : Module) :
    (encodeFor path m).mapError RunError.failure = m.encode.mapError ModuleError.failure := by
  unfold encodeFor
  cases m.encode <;> rfl

theorem conclude_eq (cores : Cores) (o : Options) (p : Program) :
    (conclude cores o p).result.mapError RunError.failure = p.bytes o.mode := by
  unfold conclude Program.bytes
  cases o.mode with
  | raw =>
      cases hverify : p.module.verify with
      | error e => rfl
      | ok => exact mapError_encodeFor o.output p.module
  | resolved =>
      rw [Graph.flatten_strategy (o.strategy cores) .sequential]
      simp only [Draft.after]
      cases hflatten : p.graph.flatten .sequential with
      | error e => rfl
      | ok m => exact mapError_encodeFor o.output m

theorem draft_eq (cores : Cores) (o : Options) (data : List UInt8) {patches : LoadedPatches}
    (h : AllInfiniteJumps patches) :
    (draft cores o (.ok data) patches).result.mapError RunError.failure =
      output o.mode data (patches.any (·.2.isOk)) := by
  simp only [draft, output, Draft.after]
  cases Module.decode data with
  | error e => rfl
  | ok m =>
      simp only [Module.resolve_strategy (o.strategy cores) .sequential, Except.mapError, ok_bind]
      cases m.resolve .sequential with
      | error e => rfl
      | ok g =>
          refine (conclude_eq cores o _).trans ?_
          rw [applyLoaded_eq h]
          cases patches.any (·.2.isOk) with
          | true => exact Program.bytes_edited
          | false => rfl

namespace FileTree

variable {t : FileTree} {loader : DynamicLoader} {e : Environment} {o : Options}

theorem run_eq_deliver {d : Draft}
    (h : draft e.cores o (t.read o.input) (o.loadPatches loader) = d) :
    ((t.run loader e o).1.exit, (t.run loader e o).2) =
      t.deliver o.output (d.result.mapError RunError.failure) := by
  simp only [run, h]
  obtain ⟨lines, log, _ | bytes⟩ := d
  · rfl
  · simp only [Except.mapError, deliver]
    cases t.write o.output bytes <;> rfl

/-- **A run writes its output or fails.** -/
theorem run_eq {data : List UInt8} (h : t.read o.input = .ok data)
    (hloader : o.LoadsInfiniteJumps loader) :
    ((t.run loader e o).1.exit, (t.run loader e o).2) =
      t.deliver o.output (output o.mode data (o.loadsPatch loader)) := by
  rw [run_eq_deliver rfl, h, draft_eq e.cores o data (allInfiniteJumps_loadPatches hloader),
    Options.loadPatches, List.any_map]
  rfl

end FileTree

/-! ## The two forms of a program -/

/-- The two forms are one program, and the module could have been read from a file. -/
structure Program.Consistent (limit : Nat) (p : Program) : Prop where
  supported : isSupported p.module.version = true
  compact : p.module.Compact limit
  resolves : ∀ s, p.module.resolve s = .ok p.graph

namespace Program

variable {mode : PatchMode} {p : Program} {limit : Nat}

/-- A module that was read and its graph are consistent, also once the patch has edited both. -/
theorem consistent_patched {data : List UInt8} {m : Module} {g : Graph}
    (hsize : data.length < varintLimit) (hdecode : Module.decode data = .ok m)
    (hresolve : m.resolve .sequential = .ok g) (loads : Bool) :
    ((⟨m, g⟩ : Program).patched loads).Consistent data.length := by
  obtain ⟨hsupported, hints, hcompact⟩ := Module.sizes_of_decode hdecode
  cases loads with
  | false =>
      exact ⟨hsupported, hcompact, fun s => (Module.resolve_strategy s .sequential m).trans hresolve⟩
  | true =>
      -- every integer took four bytes, so there is room for another one
      have hroom : m.ints.length + 1 < varintLimit := by
        unfold varintLimit at hsize ⊢
        omega
      have hfew : m.ints.length < int32Limit :=
        Nat.lt_trans (Nat.lt_of_succ_lt hroom) (by decide)
      refine ⟨?_, compact_editModule hcompact hroom, fun s => resolve_editModule hfew hresolve⟩
      show isSupported (editModule g m).version = true
      unfold editModule
      split <;> exact hsupported

/-- **The graph of a program can be written and read back.** -/
theorem Consistent.exists_flattened (h : p.Consistent limit) (hlimit : limit < varintLimit) :
    ∃ m b, p.graph.flatten .sequential = .ok m ∧ m.encode = .ok b ∧ Module.decode b = .ok m ∧
      ∀ s, m.resolve s = .ok p.graph := by
  obtain ⟨m, hflat, hbytes, hbody⟩ := h.compact.exists_encode hlimit (h.resolves .sequential)
  obtain ⟨_, _, _, _, hnamed, hfunctions⟩ := Module.resolve_functions (h.resolves .sequential)
  obtain ⟨_, _, _, _, stages⟩ := Module.resolve_eq_ok_iff.mp (h.resolves .sequential)
  obtain ⟨_, _, hcarries, _⟩ := Graph.flatten_spec (hflat .sequential)
  refine ⟨m, (ModuleOutput.body m).items, hflat .sequential,
    Module.encode_eq_ok_iff.mpr ⟨hbytes, hbody, rfl⟩, ?_, fun s => ?_⟩
  · have hversion : m.version = p.module.version := hcarries.version.trans stages.version_eq
    have hread := Module.decode_body (hversion ▸ h.supported) hbytes hbody []
    rwa [List.append_nil, Graph.normal_of_flatten (hflat .sequential)] at hread
  · rw [Graph.resolve_of_flatten (hflat .sequential), hnamed, ok_bind, hfunctions]
    rfl

/-- Whichever form is written, it reads back as a module with the graph of the program. -/
theorem Consistent.decode_bytes (h : p.Consistent limit) (hlimit : limit < varintLimit)
    {b : List UInt8} (hb : p.bytes mode = .ok b) :
    ∃ m, Module.decode b = .ok m ∧ ∀ s, m.resolve s = .ok p.graph := by
  cases mode with
  | raw =>
      obtain ⟨_, _, hencode⟩ := bind_eq_ok_iff.mp hb
      obtain ⟨hbytes, hbody, rfl⟩ := Module.encode_eq_ok_iff.mp (mapError_eq_ok_iff.mp hencode)
      have hread := Module.decode_body h.supported hbytes hbody []
      rw [List.append_nil] at hread
      exact ⟨p.module.normal, hread, fun s => Module.resolve_normal (h.resolves .sequential)⟩
  | resolved =>
      obtain ⟨m, b', hflat, hencode, hdecode, hresolve⟩ := h.exists_flattened hlimit
      have hsame : p.bytes .resolved = .ok b' := by
        simp only [bytes, hflat, hencode, Except.mapError, ok_bind]
      obtain rfl : b' = b := Except.ok.inj (hsame.symm.trans hb)
      exact ⟨m, hdecode, hresolve⟩

end Program

/-! ## What is written -/

theorem exists_of_output {mode : PatchMode} {data : List UInt8} {loads : Bool} {b : List UInt8}
    (h : output mode data loads = .ok b) :
    ∃ m g, Module.decode data = .ok m ∧ m.resolve .sequential = .ok g ∧
      ((⟨m, g⟩ : Program).patched loads).bytes mode = .ok b := by
  obtain ⟨m, hm, h⟩ := bind_eq_ok_iff.mp h
  obtain ⟨g, hg, h⟩ := bind_eq_ok_iff.mp h
  exact ⟨m, g, mapError_eq_ok_iff.mp hm, mapError_eq_ok_iff.mp hg, h⟩

theorem output_eq {mode : PatchMode} {data : List UInt8} {m : Module} {g : Graph}
    (hdecode : Module.decode data = .ok m) (hresolve : m.resolve .sequential = .ok g)
    (loads : Bool) : output mode data loads = ((⟨m, g⟩ : Program).patched loads).bytes mode := by
  simp only [output, hdecode, hresolve, Except.mapError, ok_bind]

/-- What can be read and resolved has an output in resolved mode. -/
theorem exists_output_resolved {data : List UInt8} (hsize : data.length < varintLimit) {m : Module}
    {s : Strategy} {g : Graph} (hdecode : Module.decode data = .ok m) (hresolve : m.resolve s = .ok g)
    (loads : Bool) : ∃ b, output .resolved data loads = .ok b := by
  rw [Module.resolve_strategy s .sequential] at hresolve
  have hconsistent := Program.consistent_patched hsize hdecode hresolve loads
  obtain ⟨m', b, hflat, hencode, _⟩ := hconsistent.exists_flattened hsize
  refine ⟨b, ?_⟩
  rw [output_eq hdecode hresolve]
  simp only [Program.bytes, hflat, hencode, Except.mapError, ok_bind]

/-- The outputs of the two modes have one graph. -/
theorem exists_graph_of_outputs {data : List UInt8} (hsize : data.length < varintLimit) {loads : Bool}
    {b b' : List UInt8} (h : output .raw data loads = .ok b)
    (h' : output .resolved data loads = .ok b') :
    ∃ m m' g, Module.decode b = .ok m ∧ Module.decode b' = .ok m' ∧
      ∀ s, m.resolve s = .ok g ∧ m'.resolve s = .ok g := by
  obtain ⟨before, g, hdecode, hresolve, hb⟩ := exists_of_output h
  have hb' := (output_eq hdecode hresolve loads).symm.trans h'
  have hconsistent := Program.consistent_patched hsize hdecode hresolve loads
  obtain ⟨m, hm, hgraph⟩ := hconsistent.decode_bytes hsize hb
  obtain ⟨m', hm', hgraph'⟩ := hconsistent.decode_bytes hsize hb'
  exact ⟨m, m', _, hm, hm', fun s => ⟨hgraph s, hgraph' s⟩⟩

namespace FileTree

variable {t t' : FileTree} {path : String}

theorem saved_of_deliver {written : Except RunFailure (List UInt8)}
    (h : t.deliver path written = (0, t')) : ∃ b, written = .ok b ∧ t.Saved t' path b := by
  cases written with
  | error e => cases e <;> simp [deliver, RunFailure.exitStatus] at h
  | ok b =>
      cases hwrite : t.write path b with
      | error e => simp [deliver, hwrite, RunFailure.exitStatus] at h
      | ok after =>
          obtain rfl : after = t' := by simpa [deliver, hwrite] using h
          exact ⟨b, rfl, saved_of_write hwrite⟩

/-- A run that succeeds has saved its output. -/
theorem saved_of_run {loader : DynamicLoader} {e : Environment} {o : Options} {data : List UInt8}
    (hread : t.read o.input = .ok data) (hloader : o.LoadsInfiniteJumps loader)
    (hexit : (t.run loader e o).1.exit = 0) :
    ∃ b, output o.mode data (o.loadsPatch loader) = .ok b ∧
      t.Saved (t.run loader e o).2 o.output b := by
  refine saved_of_deliver ?_
  rw [← run_eq (e := e) hread hloader, hexit]

/-- **What a run writes depends on three things only**: the content of the input, the mode, and
whether some path leads to a patch. A run that fails before it writes leaves the tree as it is, and
one that succeeds leaves its output where it was asked to. In resolved mode, whatever can be read and
resolved gets as far as writing. Where a raw run and a resolved one both succeed, their files can be
read and have the same graph. -/
theorem run_delivers_output (data : List UInt8) (hsize : data.length < 2 ^ 29) :
    (∀ (t : FileTree) (loader : DynamicLoader) (e : Environment) (o : Options),
      t.read o.input = .ok data → o.LoadsInfiniteJumps loader →
      ((t.run loader e o).1.exit, (t.run loader e o).2) =
          t.deliver o.output (output o.mode data (o.loadsPatch loader)) ∧
        ((t.run loader e o).1.exit = 0 →
          ∃ b, output o.mode data (o.loadsPatch loader) = .ok b ∧
            t.Saved (t.run loader e o).2 o.output b)) ∧
    (∀ (m : Module) (s : Strategy) (g : Graph) (loads : Bool), Module.decode data = .ok m →
      m.resolve s = .ok g → ∃ b, output .resolved data loads = .ok b) ∧
    ∀ (t : FileTree) (loader : DynamicLoader) (e e' : Environment) (o o' : Options),
      t.read o.input = .ok data → o.LoadsInfiniteJumps loader →
      o'.input = o.input → o'.patches = o.patches → o.mode = .raw → o'.mode = .resolved →
      (t.run loader e o).1.exit = 0 → (t.run loader e' o').1.exit = 0 →
      ∃ b b' m m' g, t.Saved (t.run loader e o).2 o.output b ∧
        t.Saved (t.run loader e' o').2 o'.output b' ∧
        Module.decode b = .ok m ∧ Module.decode b' = .ok m' ∧
        ∀ s, m.resolve s = .ok g ∧ m'.resolve s = .ok g := by
  refine ⟨fun t loader e o hread hloader => ⟨run_eq hread hloader, saved_of_run hread hloader⟩,
    fun m s g loads hdecode hresolve => exists_output_resolved hsize hdecode hresolve loads, ?_⟩
  intro t loader e e' o o' hread hloader hinput hpatches hraw hresolved hexit hexit'
  -- the same paths lead to the same patches
  have hloader' : o'.LoadsInfiniteJumps loader := by
    rw [Options.LoadsInfiniteJumps, hpatches]
    exact hloader
  have hloads : o'.loadsPatch loader = o.loadsPatch loader := by
    rw [Options.loadsPatch, hpatches, Options.loadsPatch]
  obtain ⟨b, hb, hsaved⟩ := saved_of_run hread hloader hexit
  obtain ⟨b', hb', hsaved'⟩ := saved_of_run (hinput.symm ▸ hread) hloader' hexit'
  rw [hraw] at hb
  rw [hresolved, hloads] at hb'
  obtain ⟨m, m', g, hgraph⟩ := exists_graph_of_outputs hsize hb hb'
  exact ⟨b, b', m, m', g, hsaved, hsaved', hgraph⟩

end FileTree

/-- A hero whose jumps are counted. -/
def heroModule : Module where
  version := 5
  strings := ["Hero", "airJumps", "get_airJumps"]
  types := [.atom .i32, .object .object ⟨0, -1, 0, [⟨1, 0⟩], [⟨2, 0, -1⟩], []⟩,
            .callable .function ⟨[1], 0⟩]
  methods := [⟨2, 0, [1, 0], [⟨.label, []⟩, ⟨.label, []⟩, ⟨.field, [1, 0, 0]⟩, ⟨.ret, [1]⟩], none,
               none⟩]

/-- The bytes of the module, which has an integer in its pool only when it is patched. -/
def heroFile : List UInt8 := (ModuleOutput.body heroModule).items

/-- The file, in the root. -/
def heroTree : FileTree := ⟨[(["game.hl"], .file heroFile)], []⟩

/-- A loader that knows one library. -/
def heroLoader : DynamicLoader := fun path =>
  if path = "/jumps.so" then .ok ⟨.ok 1, .ok (some InfiniteJumps.patch)⟩
  else .error (path ++ ": cannot open shared object file")

/-- A run with a path that leads nowhere and the library twice. -/
def heroOptions (raw : Bool) : Options :=
  ⟨raw, false, false, .never, ["/missing.so", "/jumps.so", "/jumps.so"], "/game.hl", "/patched.hl"⟩

/-- A machine with four cores and no colours. -/
def heroEnvironment : Environment := ⟨true, none, ⟨4, by decide⟩⟩

theorem run_delivers_output_heroTree :
    (heroOptions true).loadsPatch heroLoader = true ∧
      (∃ b, output .resolved heroFile true = .ok b) ∧
      ∃ b b' m m' g,
        (heroTree.run heroLoader heroEnvironment (heroOptions true)).2.read "/patched.hl" = .ok b ∧
        (heroTree.run heroLoader heroEnvironment (heroOptions false)).2.read "/patched.hl" = .ok b' ∧
        Module.decode b = .ok m ∧ Module.decode b' = .ok m' ∧
        ∀ s, m.resolve s = .ok g ∧ m'.resolve s = .ok g := by
  obtain ⟨hdelivers, hreaches, hagrees⟩ :=
    FileTree.run_delivers_output heroFile (by decide)
  have hread : heroTree.read "/game.hl" = .ok heroFile := rfl
  have hloader (raw : Bool) : (heroOptions raw).LoadsInfiniteJumps heroLoader := by
    intro path _ patch hload
    obtain ⟨_, library, hlibrary, _, hpatch⟩ := DynamicLoader.load_eq_ok_iff.mp hload
    unfold heroLoader at hlibrary
    split at hlibrary
    · obtain rfl := Except.ok.inj hlibrary
      exact (Option.some.inj (Except.ok.inj hpatch)).symm
    · cases hlibrary
  have hloads (raw : Bool) : (heroOptions raw).loadsPatch heroLoader = true := by
    rfl
  have hexit (raw : Bool) :
      (heroTree.run heroLoader heroEnvironment (heroOptions raw)).1.exit = 0 := by
    have hrun := (hdelivers heroTree heroLoader heroEnvironment (heroOptions raw) hread (hloader raw)).1
    rw [hloads] at hrun
    refine (congrArg Prod.fst hrun).trans ?_
    cases raw <;> rfl
  -- nothing has the name of the output yet
  have hnew : heroTree.find "/patched.hl" ≠ .ok (.device none) := by decide
  obtain ⟨b, b', m, m', g, hsaved, hsaved', hgraph⟩ :=
    hagrees heroTree heroLoader heroEnvironment heroEnvironment (heroOptions true) (heroOptions false)
      hread (hloader true) rfl rfl rfl rfl (hexit true) (hexit false)
  exact ⟨hloads true, hreaches heroModule .sequential _ true rfl rfl, b, b', m, m', g,
    hsaved.read.resolve_right hnew, hsaved'.read.resolve_right hnew, hgraph⟩

end HashLink
