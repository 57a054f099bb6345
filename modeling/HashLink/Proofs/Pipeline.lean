import HashLink.Proofs.Graph.Reflatten
import HashLink.Proofs.Graph.Restore
import HashLink.Proofs.Module.RoundTrip

/-!
# Programs that nobody edited

Reading a file, resolving it, flattening the graph and writing the module may change the file:
pools are made anew, calls become as narrow as they can be and source positions are lost. It does
not change the program. The graph of the new file is the graph of the old one, and from then on
nothing changes any more.

Flattening and writing cannot fail because everything they could object to has been read from a
file. The file has to be shorter than 2^29 bytes, since otherwise a pool could be too large for its
places to be written.
-/

namespace HashLink

open Emission

variable {limit : Nat} {m : Module} {s : Strategy} {g : Graph}

/-! ## Sizes -/

theorem Module.Compact.lengths (hm : m.Compact limit) :
    m.ints.length < varintLimit ∧ m.floats.length < varintLimit ∧ m.strings.length < varintLimit ∧
      m.bytes.length < varintLimit ∧ m.types.length < varintLimit ∧ m.globals.length < varintLimit ∧
      m.natives.length < varintLimit ∧ m.methods.length < varintLimit ∧
      m.constants.length < varintLimit := by
  have hcounts := hm.counts
  simp only [Output.counts, finishes_append, Output.finishes_index] at hcounts
  obtain ⟨⟨⟨⟨⟨⟨⟨⟨⟨hints, hfloats⟩, hstrings⟩, hbytes⟩, htypes⟩, hglobals⟩, hnatives⟩, hmethods⟩,
    hconstants⟩, _⟩ := hcounts
  refine ⟨hints, hfloats, hstrings, ?_, htypes, hglobals, hnatives, hmethods, hconstants⟩
  by_cases hb : hasBytesPool m.version = true
  · rw [if_pos hb, Output.finishes_index] at hbytes
    exact hbytes
  · rw [hm.blocks (by simpa using hb)]
    decide

/-- Function indices fill the index space, and each of them was read. -/
theorem Module.Compact.functionCount_le (hm : m.Compact limit) {table : List FunctionRecord}
    (htable : m.functionTable = .ok table) : m.functionCount ≤ varintLimit := by
  obtain ⟨hperm, hrange⟩ := Module.functionTable_spec htable
  rcases Nat.eq_zero_or_pos m.functionCount with hzero | hpos
  · omega
  · have hlast : m.functionCount - 1 ∈ table.map (·.index) := by
      rw [hrange, List.mem_range]
      omega
    obtain ⟨r, hr, hindex⟩ := List.mem_map.mp hlast
    have hlt : r.index < varintLimit := by
      have hr' := hperm.mem_iff.mp hr
      rw [Module.functionRecords, List.mem_append, List.mem_map, List.mem_map] at hr'
      rcases hr' with ⟨n, hn, rfl⟩ | ⟨f, hf, rfl⟩
      · have hwritten := hm.natives n hn
        simp only [Output.native, finishes_append, Output.finishes_index] at hwritten
        exact hwritten.2
      · have hwritten := hm.methods f hf
        simp only [Output.methodCode, finishes_append, Output.finishes_index] at hwritten
        exact hwritten.1.1.1.1.2
    omega

/-- The graph of a module that was read has as much as the module. -/
theorem Module.Compact.mirrors (hm : m.Compact limit) (h : m.resolve s = .ok g) :
    g.inventory.Mirrors m := by
  obtain ⟨table, _, htable, _⟩ := Module.resolve_functions h
  obtain ⟨_, _, _, _, stages⟩ := Module.resolve_eq_ok_iff.mp h
  obtain ⟨_, _, hstrings, _, htypesLt, hglobalsLt, _⟩ := hm.lengths
  have htypesEq : g.types.length = m.types.length := (mapM_eq_ok_iff.mp stages.types).length_eq.symm
  have hglobalsEq : g.globals.length = m.globals.length := by rw [stages.globals_eq]
  have hfunctionsEq := Module.length_functions h
  have hnames := (Module.draws_names h).subperm.length_le
  exact ⟨htypesEq, hfunctionsEq, hglobalsEq, htypesEq.trans_lt htypesLt,
    hfunctionsEq.trans_le (hm.functionCount_le htable),
    hglobalsEq.trans_lt hglobalsLt, Nat.lt_of_le_of_lt hnames hstrings⟩

theorem Module.Compact.few (hm : m.Compact limit) {p : ValuePools} (hp : p.DrawnFrom m) : p.Few := by
  obtain ⟨hints, hfloats, hstrings, hbytes, _⟩ := hm.lengths
  exact ⟨Nat.lt_of_le_of_lt hp.ints.subperm.length_le hints,
    Nat.lt_of_le_of_lt hp.floats.subperm.length_le hfloats,
    Nat.lt_of_le_of_lt hp.strings.subperm.length_le hstrings,
    Nat.lt_of_le_of_lt hp.bytes.subperm.length_le hbytes⟩

theorem Module.Compact.text_le (hm : m.Compact limit) {text : String} (h : text ∈ m.strings) :
    (utf8 text).length ≤ limit := by
  have hdraws : Draws [text] m.strings := ⟨List.nodup_singleton text, by simpa using h⟩
  have hle := hdraws.sum_le Reader.textSize
  have hsum := hm.strings
  rw [List.map_singleton, List.sum_singleton, Reader.textSize] at hle
  omega

/-! ## Natives and methods are as many as before -/

def Function.isNative (f : Function) : Bool := f.routine?.isNone

theorem countP_of_forall₂ {α β : Type} {R : α → β → Prop} {p : α → Bool} {q : β → Bool}
    {xs : List α} {ys : List β} (h : List.Forall₂ R xs ys) (hR : ∀ x y, R x y → p x = q y) :
    xs.countP p = ys.countP q := by
  induction h with
  | nil => rfl
  | cons hxy _ ih => rw [List.countP_cons, List.countP_cons, ih, hR _ _ hxy]

theorem length_natives_eq {s' : Strategy} {m' : Module} (h : m.resolve s = .ok g)
    (h' : g.flatten s' = .ok m') : m'.natives.length = m.natives.length := by
  obtain ⟨table, _, htable, hresolves, _⟩ := Module.resolve_functions h
  obtain ⟨p, table', _, htable', hflat⟩ := Graph.flatten_spec h'
  have hbefore : table.countP FunctionRecord.isNative = g.functions.countP Function.isNative :=
    countP_of_forall₂ hresolves fun r f hr => by cases hr <;> rfl
  have hafter : g.functions.zipIdx.countP (Function.isNative ∘ Prod.fst) =
      table'.countP FunctionRecord.isNative :=
    countP_of_forall₂ hflat fun f r hr => by cases hr <;> rfl
  rw [← List.countP_map, List.zipIdx_map_fst] at hafter
  rw [← Module.countP_isNative htable, hbefore, hafter, Module.countP_isNative htable']

theorem length_methods_eq {s' : Strategy} {m' : Module} (h : m.resolve s = .ok g)
    (h' : g.flatten s' = .ok m') : m'.methods.length = m.methods.length := by
  obtain ⟨_, _, hcarries, _⟩ := Graph.flatten_spec h'
  have hcount : m'.functionCount = m.functionCount :=
    hcarries.functions.trans (Module.length_functions h)
  have hnatives := length_natives_eq h h'
  unfold Module.functionCount at hcount
  omega

/-! ## Flattening what was read -/

theorem Inventory.normal_of_flattenMethod {has : Inventory} {p : ValuePools} {i : Nat}
    {f : Function} {method : Method} (h : has.flattenMethod p i f = .ok (some method)) :
    method.normal true = method := by
  obtain ⟨type, body⟩ := f
  cases body with
  | native lib name => cases h
  | method r =>
      obtain ⟨_, _, _, _, heq⟩ := Inventory.flattenMethod_method_eq_ok_iff.mp h
      obtain rfl := Option.some.inj heq
      rfl

/-- A flattened graph has every table that the format has a place for. -/
theorem Graph.normal_of_flatten {m' : Module} (h : g.flatten s = .ok m') : m'.normal = m' := by
  obtain ⟨_, _, methods, stages⟩ := Graph.flatten_eq_ok_iff.mp h
  have hnormal : (methods.filterMap id).map (·.normal true) = methods.filterMap id := by
    conv_rhs => rw [← List.map_id (methods.filterMap id)]
    refine List.map_congr_left fun method hmethod => ?_
    obtain ⟨method', hmem, rfl⟩ := List.mem_filterMap.mp hmethod
    obtain ⟨_, _, hflat⟩ := exists_of_mem_result stages.methods hmem
    exact Inventory.normal_of_flattenMethod hflat
  rw [stages.module_eq]
  simp only [Module.normal, hnormal, if_true]

/-- Every function of a resolved graph can be flattened and written, with the index that it has. -/
theorem Module.Compact.exists_functions (hm : m.Compact limit) (h : m.resolve s = .ok g)
    {p : ValuePools} (hp : g.inventory.valuePools (g.functions.map Function.poolValues) = .ok p)
    (hdrawn : p.DrawnFrom m) :
    (∃ ns, (g.functions.zipIdx.mapM fun (f, i) => g.inventory.flattenNative i f) = .ok ns ∧
      ∀ n ∈ ns, ∀ n' ∈ n, (Output.native n').Finishes) ∧
    ∃ fs, (g.functions.zipIdx.mapM fun (f, i) => g.inventory.flattenMethod p i f) = .ok fs ∧
      ∀ f ∈ fs, ∀ f' ∈ f, (ModuleOutput.method true f').Finishes := by
  obtain ⟨table, _, htable, hresolves, _⟩ := Module.resolve_functions h
  have hmirrors := hm.mirrors h
  have hheld := (Inventory.valuePools_spec hp).2
  -- a function and the record it comes from, with the index that it keeps
  have hfunction (x : Function × Nat) (hx : x ∈ g.functions.zipIdx) :
      x.1 ∈ g.functions ∧ x.2 < varintLimit ∧ ∃ r ∈ table, m.Resolves r x.1 := by
    have hf := List.fst_mem_of_mem_zipIdx hx
    have hi := (List.getElem?_eq_some_iff.mp (List.mem_zipIdx_iff_getElem?.mp hx)).1
    exact ⟨hf, Nat.lt_of_lt_of_le hi hmirrors.fewFunctions, exists_of_forall₂ hresolves.flip hf⟩
  constructor
  · refine exists_mapM_eq_ok fun x hx => ?_
    obtain ⟨_, hi, r, _, hr⟩ := hfunction x hx
    exact hmirrors.flattenNative hr hi
  · refine exists_mapM_eq_ok fun x hx => ?_
    obtain ⟨hf, hi, r, hmem, hr⟩ := hfunction x hx
    refine hmirrors.flattenMethod (hm.few hdrawn) hr ?_ hi (hheld _ (List.mem_map_of_mem hf))
    intro method hmethod
    refine hm.methods method ?_
    have hrecord := (Module.functionTable_spec htable).1.mem_iff.mp hmem
    rw [hmethod] at hrecord
    simpa [Module.functionRecords] using hrecord

/-- The parts of a resolved graph can be flattened and written one by one. -/
theorem Module.Compact.exists_flatten (hm : m.Compact limit) (hlimit : limit < varintLimit)
    (h : m.resolve s = .ok g) :
    ∃ (m' : Module) (p : ValuePools), (∀ s', g.flatten s' = .ok m') ∧ p.DrawnFrom m ∧
      (m'.ints = p.ints ∧ m'.floats = p.floats ∧ m'.strings = p.strings ∧ m'.bytes = p.bytes) ∧
      m'.constants.length = m.constants.length ∧
      (∀ t ∈ m'.types, (Output.typeDef t).Finishes) ∧
      (∀ n ∈ m'.natives, (Output.native n).Finishes) ∧
      (∀ f ∈ m'.methods, (ModuleOutput.method true f).Finishes) ∧
      ∀ c ∈ m'.constants, (Output.constant c).Finishes := by
  obtain ⟨_, _, _, _, stages⟩ := Module.resolve_eq_ok_iff.mp h
  have hmirrors := hm.mirrors h
  obtain ⟨types, ftypes, _, htypes⟩ := exists_rewritten stages.types fun t ht t' _ hr =>
    hmirrors.flattenType hr (hm.types t ht)
  obtain ⟨constants, fconstants, hconstantsLength, hconstants⟩ :=
    exists_rewritten stages.constants fun c _ c' _ hr =>
      hmirrors.flattenConstant hr (Nat.lt_of_le_of_lt
        (hm.text_le (Module.mem_strings_of_resolveConstant hr)) hlimit)
  obtain ⟨p, hp, hdrawn⟩ := Module.exists_pools h
  obtain ⟨⟨natives, fnatives, hnatives⟩, methods, fmethods, hmethods⟩ :=
    hm.exists_functions h hp hdrawn
  refine ⟨{ version := g.version, hasDebug := true, ints := p.ints, floats := p.floats,
            strings := p.strings, bytes := p.bytes, debugFiles := [placeholderFile], types,
            globals := g.globals, natives := natives.filterMap id, methods := methods.filterMap id,
            constants, entrypoint := g.entrypoint }, p,
    fun s' => Graph.flatten_eq_ok_iff.mpr ⟨natives, p, methods, ftypes, ?_, fnatives, fconstants,
      hp, fmethods, ?_, rfl⟩, hdrawn, ⟨rfl, rfl, rfl, rfl⟩, hconstantsLength, htypes, ?_, ?_,
    hconstants⟩
  · rw [stages.globals_eq]
    exact fun t ht => Nat.lt_of_lt_of_eq (stages.globals t ht) hmirrors.types.symm
  · rw [stages.entrypoint_eq]
    exact Nat.lt_of_lt_of_eq stages.entrypoint hmirrors.functions.symm
  · intro n hn
    obtain ⟨n', hmem, rfl⟩ := List.mem_filterMap.mp hn
    exact hnatives _ hmem n rfl
  · intro f hf
    obtain ⟨f', hmem, rfl⟩ := List.mem_filterMap.mp hf
    exact hmethods _ hmem f rfl

/-! ## Writing what was flattened -/

theorem Module.Compact.finishes_valuePools (hm : m.Compact limit) (hlimit : limit < varintLimit)
    {m' : Module} (hstrings : Draws m'.strings m.strings) (hbytes : Draws m'.bytes m.bytes)
    (hfiles : m'.debugFiles = [placeholderFile]) : (Output.valuePools m').Finishes := by
  have hlimits : varintLimit < int32Limit := by decide
  have htexts : (Output.stringPool m'.strings).Finishes := by
    refine Output.finishes_stringPool ?_ fun text htext => ?_
    · have := hstrings.sum_le Reader.textSize
      have := hm.strings
      omega
    · exact Nat.lt_of_le_of_lt (hm.text_le (hstrings.within htext)) hlimit
  have hblocks : (Output.bytesPool m'.bytes).Finishes := by
    refine Output.finishes_bytesPool ?_
    have hsum := hbytes.sum_le List.length
    have hle := hm.bytes
    rw [List.length_flatten] at hle ⊢
    omega
  have hfile : (Output.index m'.debugFiles.length ++ Output.stringPool m'.debugFiles).Finishes := by
    rw [hfiles]
    decide
  simp only [Output.valuePools, finishes_append, finishes_each, Output.finishes_int32,
    Output.finishes_float64, implies_true, true_and]
  refine ⟨⟨htexts, ?_⟩, ?_⟩
  · split
    · exact hblocks
    · exact finishes_empty
  · split
    · exact hfile
    · exact finishes_empty

/-- **What was read can be flattened and written.** -/
theorem Module.Compact.exists_encode (hm : m.Compact limit) (hlimit : limit < varintLimit)
    (h : m.resolve s = .ok g) :
    ∃ m', (∀ s', g.flatten s' = .ok m') ∧ (hasBytesPool m'.version = false → m'.bytes = []) ∧
      (ModuleOutput.body m').Finishes := by
  obtain ⟨m', p, hflat, hdrawn, ⟨hints, hfloats, hstrings, hbytes⟩, hconstantsLength, htypes, hnatives,
    hmethods, hconstants⟩ := hm.exists_flatten hlimit h
  obtain ⟨_, _, _, _, resolved⟩ := Module.resolve_eq_ok_iff.mp h
  obtain ⟨_, _, _, flattened⟩ := Graph.flatten_eq_ok_iff.mp (hflat s)
  obtain ⟨_, _, hcarries, _⟩ := Graph.flatten_spec (hflat s)
  have hmirrors := hm.mirrors h
  have hfew := hm.few hdrawn
  obtain ⟨_, _, _, _, _, _, hnativesLt, hmethodsLt, hconstantsLt⟩ := hm.lengths
  have hdebug : m'.hasDebug = true := by rw [flattened.module_eq]
  have hfiles : m'.debugFiles = [placeholderFile] := by rw [flattened.module_eq]
  have hmglobals : m'.globals = g.globals := by rw [flattened.module_eq]
  have hmentry : m'.entrypoint = g.entrypoint := by rw [flattened.module_eq]
  have hcounts : (Output.counts m').Finishes := by
    simp only [Output.counts, finishes_append, Output.finishes_index]
    refine ⟨⟨⟨⟨⟨⟨⟨⟨⟨?_, ?_⟩, ?_⟩, ?_⟩, ?_⟩, ?_⟩, ?_⟩, ?_⟩, ?_⟩, ?_⟩
    · exact hints ▸ hfew.ints
    · exact hfloats ▸ hfew.floats
    · exact hstrings ▸ hfew.strings
    · split
      · exact Output.finishes_index.mpr (hbytes ▸ hfew.bytes)
      · exact finishes_empty
    · exact hcarries.types.trans_lt hmirrors.fewTypes
    · exact hcarries.globals.trans_lt hmirrors.fewGlobals
    · exact length_natives_eq h (hflat s) ▸ hnativesLt
    · exact length_methods_eq h (hflat s) ▸ hmethodsLt
    · exact hconstantsLength ▸ hconstantsLt
    · exact hmentry ▸ Nat.lt_of_lt_of_le flattened.entrypoint hmirrors.fewFunctions
  have hpools := hm.finishes_valuePools hlimit (hstrings ▸ hdrawn.strings)
    (hbytes ▸ hdrawn.bytes) hfiles
  refine ⟨m', hflat, fun hb => ?_, ?_⟩
  · -- a version without a bytes pool was read without one, and nothing else fills it
    have hversion' : m'.version = m.version := hcarries.version.trans resolved.version_eq
    have hnone := hdrawn.bytes.within
    rw [hm.blocks (hversion' ▸ hb)] at hnone
    rw [hbytes, List.subset_nil.mp hnone]
  · simp only [ModuleOutput.body, ModuleOutput.ofOutput, Output.beforeMethods, finishes_append,
      finishes_mapError, finishes_each, finishes_ofList, true_and, Output.finishes_index, hmglobals,
      hdebug]
    refine ⟨⟨⟨⟨⟨⟨hcounts, hpools⟩, htypes⟩, ?_⟩, hnatives⟩, hmethods⟩, hconstants⟩
    exact fun t ht => Nat.lt_trans (flattened.globals t ht) hmirrors.fewTypes

/-- **A program that nobody edited stays the same.** A file that can be read and resolved can be
flattened and written again; the new file holds the module that was written and resolves to the same
graph, so flattening it once more gives the same module. -/
theorem unedited_pipeline {data : List UInt8} (hsize : data.length < 2 ^ 29)
    (hdecode : Module.decode data = .ok m) (hresolve : m.resolve s = .ok g) :
    ∃ m' b, (∀ s', g.flatten s' = .ok m') ∧ m'.encode = .ok b ∧ Module.decode b = .ok m' ∧
      (∀ s', m'.resolve s' = .ok g) ∧
      ∀ s' s'', (m'.resolve s' >>= Graph.flatten s'') = .ok m' := by
  obtain ⟨hsupported, hm⟩ := Module.compact_of_decode hdecode
  obtain ⟨m', hflat, hbytes, hbody⟩ := hm.exists_encode hsize hresolve
  obtain ⟨_, named, _, _, hnamed, hfunctions⟩ := Module.resolve_functions hresolve
  obtain ⟨_, _, _, _, resolved⟩ := Module.resolve_eq_ok_iff.mp hresolve
  obtain ⟨_, _, hcarries, _⟩ := Graph.flatten_spec (hflat s)
  have hresolve' (s' : Strategy) : m'.resolve s' = .ok g := by
    rw [Graph.resolve_of_flatten (hflat s), hnamed, ok_bind, hfunctions]
    rfl
  refine ⟨m', (ModuleOutput.body m').items, hflat, ?_, ?_, hresolve', fun s' s'' => ?_⟩
  · exact Module.encode_eq_ok_iff.mpr ⟨hbytes, hbody, rfl⟩
  · have hversion : m'.version = m.version := hcarries.version.trans resolved.version_eq
    have hread := Module.decode_body (hversion ▸ hsupported) hbytes hbody []
    rwa [List.append_nil, Graph.normal_of_flatten (hflat s)] at hread
  · rw [hresolve', ok_bind, hflat]

/-- A module that comes back shorter: an integer is there twice, a string is not used, and a call
with one argument has the opcode for any number of them. Its version keeps bytes among the strings.
-/
def wastefulModule : Module where
  version := 4
  ints := [7, 7]
  strings := ["unused", "A", "f"]
  types := [.atom .void, .callable .function ⟨[0], 0⟩,
            .object .object ⟨1, -1, 1, [⟨2, 0⟩], [⟨2, 0, -1⟩], []⟩]
  globals := [2]
  methods := [⟨1, 1, [0], [⟨.callN, [0, 0, 0]⟩, ⟨.bytes, [0, 2]⟩], none, none⟩,
              ⟨1, 0, [0], [⟨.int, [0, 1]⟩], none, none⟩]
  constants := [⟨0, [1]⟩]
  entrypoint := 1

theorem unedited_pipeline_wastefulModule :
    ∃ data g, data.length = 84 ∧ Module.decode data = .ok wastefulModule ∧
      wastefulModule.resolve .sequential = .ok g ∧
      ∃ m' b, (∀ s', g.flatten s' = .ok m') ∧ m'.encode = .ok b ∧ Module.decode b = .ok m' ∧
        (∀ s', m'.resolve s' = .ok g) ∧
        ∀ s' s'', (m'.resolve s' >>= Graph.flatten s'') = .ok m' := by
  have hdecode : Module.decode (ModuleOutput.body wastefulModule).items = .ok wastefulModule := by
    have hread := Module.decode_body (m := wastefulModule) rfl (fun _ => rfl) rfl []
    rwa [List.append_nil] at hread
  have hlength : (ModuleOutput.body wastefulModule).items.length = 84 := rfl
  have hsize : (ModuleOutput.body wastefulModule).items.length < 2 ^ 29 := by
    rw [hlength]
    decide
  exact ⟨_, _, hlength, hdecode, rfl, unedited_pipeline hsize hdecode (s := .sequential) rfl⟩

end HashLink
