import HashLink.Proofs.Graph.Recode
import HashLink.Proofs.Module.Growth

/-!
# Entries that nothing refers to

A patch of a module may add what it likes at the ends of the pools: no index leads there yet, and
every index leads where it did. So a verified module stays verified, and the graph of the module is the
very same graph (`Module.appendPools_harmless`). Since a flattened module has the pools of its graph,
which hold nothing but what the graph mentions, the added entries are gone after the next trip through
a graph, together with all others that were not used.
-/

namespace HashLink

namespace Module

variable {m : Module} {more : ValuePools} {files : List String}

/-- The pools of values of a module. -/
def valuePools (m : Module) : ValuePools where
  ints := m.ints
  floats := m.floats
  strings := m.strings
  bytes := m.bytes

/-- A module with more entries at the ends of its pools. -/
def appendPools (m : Module) (more : ValuePools) (files : List String) : Module :=
  { m with
    ints := m.ints ++ more.ints
    floats := m.floats ++ more.floats
    strings := m.strings ++ more.strings
    bytes := m.bytes ++ more.bytes
    debugFiles := m.debugFiles ++ files }

/-- A module that only grows keeps its declarations. -/
theorem Grows.preserves {m' : Module} (h : m.Grows m') : m.Preserves m' where
  version := h.version
  ints := h.ints
  floats := h.floats
  strings := h.strings
  bytes := h.bytes
  types := h.types
  globals := h.globals
  natives := h.natives
  methods := by simpa using congrArg List.length h.methodIndices
  constants := h.constants
  entrypoint := h.entrypoint

theorem grows_appendPools (m : Module) (more : ValuePools) (files : List String) :
    m.Grows (m.appendPools more files) where
  version := rfl
  ints := List.prefix_append _ _
  floats := List.prefix_append _ _
  strings := List.prefix_append _ _
  bytes := List.prefix_append _ _
  debugFiles := List.prefix_append _ _
  types := rfl
  globals := rfl
  natives := rfl
  methodIndices := rfl
  constants := rfl
  entrypoint := rfl

theorem verify_appendPools (h : m.verify = .ok ()) : (m.appendPools more files).verify = .ok () := by
  have hgrows := m.grows_appendPools more files
  exact hgrows.verify (fun hmethods f hf => hgrows.methodFaults f (hmethods f hf)) h

/-- The methods are the same, and the edit of their code is none. -/
theorem resolve_appendPools {s s' : Strategy} {g : Graph} (h : m.resolve s = .ok g) :
    (m.appendPools more files).resolve s' = .ok g := by
  have hpreserves := (m.grows_appendPools more files).preserves
  rw [← g.recode_none]
  refine hpreserves.resolve (fun _ => rfl) (List.forall₂_same.mpr fun f _ => ?_) h
  exact ⟨rfl, rfl, rfl, hpreserves.resolveInstructions f.instructions⟩

/-- A flattened program has the pools of its graph. -/
theorem valuePools_of_flatten {s : Strategy} {g : Graph} (h : g.flatten s = .ok m) :
    m.valuePools = g.pools ∧ m.debugFiles = [placeholderFile] := by
  obtain ⟨natives, p, methods, stages⟩ := Graph.flatten_eq_ok_iff.mp h
  obtain ⟨_, rfl⟩ := Graph.valuePools_eq_ok_iff.mp stages.pools
  exact ⟨congrArg valuePools stages.module_eq, congrArg debugFiles stages.module_eq⟩

/-- **Entries at the ends of pools do no harm.** A verified module stays verified, and a module that
can be resolved has the same graph as before, hence the same flattened form. That form has the pools of
the graph: nothing in them that the graph does not mention, and nothing that was not in the module before
the entries were added. -/
theorem appendPools_harmless (m : Module) (more : ValuePools) (files : List String) :
    (m.verify = .ok () → (m.appendPools more files).verify = .ok ()) ∧
      ∀ s g, m.resolve s = .ok g →
        (∀ s', (m.appendPools more files).resolve s' = .ok g) ∧
        (∀ s', ((m.appendPools more files).resolve s >>= Graph.flatten s') =
          m.resolve s >>= Graph.flatten s') ∧
        ∀ s' m', g.flatten s' = .ok m' →
          m'.valuePools = g.pools ∧ m'.valuePools.DrawnFrom m ∧ m'.debugFiles = [placeholderFile] := by
  refine ⟨verify_appendPools, fun s g h => ⟨fun s' => resolve_appendPools h, fun s' => ?_, ?_⟩⟩
  · rw [resolve_appendPools h, h]
  · intro s' m' hm'
    obtain ⟨hpools, hfiles⟩ := valuePools_of_flatten hm'
    obtain ⟨p, hp, hdrawn⟩ := exists_pools h
    obtain ⟨_, rfl⟩ := Graph.valuePools_eq_ok_iff.mp hp
    exact ⟨hpools, hpools ▸ hdrawn, hfiles⟩

end Module

/-- A module of a version that keeps bytes among the strings, with a string that it does not use. -/
def frugalModule : Module where
  version := 4
  hasDebug := true
  ints := [7]
  strings := ["unused", "text"]
  debugFiles := ["Main.hx"]
  types := [.atom .void, .callable .function ⟨[], 0⟩]
  methods := [⟨1, 0, [0], [⟨.int, [0, 0]⟩, ⟨.bytes, [0, 1]⟩], some [⟨0, 1⟩, ⟨0, 2⟩], some []⟩]

theorem appendPools_frugalModule :
    let grown := frugalModule.appendPools ⟨[9, 7], [1], ["spare"], [[1]]⟩ ["More.hx"]
    ∃ g m', frugalModule.resolve .sequential = .ok g ∧ g.flatten .sequential = .ok m' ∧
      grown.verify = .ok () ∧ grown.resolve .sequential = .ok g ∧
      m'.valuePools = ⟨[7], [], ["text"], []⟩ ∧ g.pools = ⟨[7], [], ["text"], []⟩ := by
  obtain ⟨g, m', hg, hm', hpools⟩ : ∃ g m', frugalModule.resolve .sequential = .ok g ∧
      g.flatten .sequential = .ok m' ∧ m'.valuePools = ⟨[7], [], ["text"], []⟩ :=
    ⟨_, _, rfl, rfl, rfl⟩
  obtain ⟨hverify, hresolve⟩ :=
    frugalModule.appendPools_harmless ⟨[9, 7], [1], ["spare"], [[1]]⟩ ["More.hx"]
  obtain ⟨hsame, _, hflat⟩ := hresolve .sequential g hg
  exact ⟨g, m', hg, hm', hverify rfl, hsame .sequential, hpools,
    (hflat .sequential m' hm').1.symm.trans hpools⟩

end HashLink
