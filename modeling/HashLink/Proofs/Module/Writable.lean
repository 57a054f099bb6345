import HashLink.Proofs.Code.PositionLimits
import HashLink.Proofs.Module.RoundTrip

/-!
# Modules that were read

Every number in a module that was decoded has a form on the wire, every list in it is short enough
to have its length written, and its pools are no larger than the file. `Module.Compact` collects
this. It does not say that such a module can be encoded, since that also depends on the lines in its
debug tables.
-/

namespace HashLink

open Emission

variable {limit : Nat}

/-! ## Type descriptors and records -/

namespace Reader

theorem yields_indices :
    Yields limit (counted index) fun xs => (Output.indices xs).Finishes :=
  yields_index.counted.mono fun xs h => by simpa [Output.indices] using h

theorem yields_signature :
    Yields limit signature fun s => (Output.indices s.args ++ Output.index s.result).Finishes := by
  refine yields_indices.bind fun args hargs => yields_index.map fun result hresult => ?_
  exact finishes_append.mpr ⟨hargs, Output.finishes_index.mpr hresult⟩

theorem yields_field :
    Yields limit field fun f => (Output.index f.name ++ Output.index f.type).Finishes := by
  refine yields_index.bind fun name hname => yields_index.map fun type htype => ?_
  simp [hname, htype]

theorem yields_proto :
    Yields limit proto fun p =>
      (Output.index p.name ++ Output.index p.function ++ Output.varint p.slot).Finishes := by
  refine yields_index.bind fun name hname => yields_index.bind fun function hfunction => ?_
  refine yields_varint.map fun slot hslot => ?_
  simp [hname, hfunction, hslot]

theorem yields_binding :
    Yields limit binding fun b => (Output.index b.field ++ Output.index b.function).Finishes := by
  refine yields_index.bind fun field hfield => yields_index.map fun function hfunction => ?_
  simp [hfield, hfunction]

theorem yields_objectDef : Yields limit objectDef fun o => (Output.objectDef o).Finishes := by
  refine yields_index.bind fun name hname => yields_varint.bind fun super hsuper => ?_
  refine yields_index.bind fun global hglobal => ?_
  refine yields_count.bind fun fieldCount hfieldCount => ?_
  refine yields_count.bind fun protoCount hprotoCount => ?_
  refine yields_count.bind fun bindingCount hbindingCount => ?_
  refine (yields_field.times _).bind fun fields hfields => ?_
  refine (yields_proto.times _).bind fun protos hprotos => ?_
  refine (yields_binding.times _).map fun bindings hbindings => ?_
  obtain ⟨rfl, hfields⟩ := hfields
  obtain ⟨rfl, hprotos⟩ := hprotos
  obtain ⟨rfl, hbindings⟩ := hbindings
  simp only [Output.objectDef, Output.fields, Output.protos, Output.bindings, finishes_append,
    finishes_each, Output.finishes_index, Output.finishes_varint] at *
  exact ⟨⟨⟨⟨⟨⟨⟨⟨hname, hsuper⟩, hglobal⟩, hfieldCount.1⟩, hprotoCount.1⟩, hbindingCount.1⟩, hfields⟩,
    hprotos⟩, hbindings⟩

theorem yields_construct :
    Yields limit construct fun c => (Output.index c.name ++ Output.indices c.params).Finishes := by
  refine yields_index.bind fun name hname => yields_indices.map fun params hparams => ?_
  exact finishes_append.mpr ⟨Output.finishes_index.mpr hname, hparams⟩

theorem yields_enumDef : Yields limit enumDef fun e => (Output.enumDef e).Finishes := by
  refine yields_index.bind fun name hname => yields_index.bind fun global hglobal => ?_
  refine yields_construct.counted.map fun constructs hconstructs => ?_
  simp only [Output.enumDef, finishes_append, finishes_each, Output.finishes_index] at *
  exact ⟨⟨⟨hname, hglobal⟩, hconstructs.1⟩, hconstructs.2⟩

theorem yields_typeParts (kind : TypeKind) :
    Yields limit (typeParts kind) fun t => (Output.typeParts t).Finishes := by
  cases kind with
  | atom kind => exact yields_pure finishes_empty
  | callable kind => exact yields_signature.map fun _ h => h
  | object kind => exact yields_objectDef.map fun _ h => h
  | wrapper kind => exact yields_index.map fun _ h => Output.finishes_index.mpr h
  | virtual =>
      refine yields_field.counted.map fun fields h => ?_
      simpa [Output.typeParts, Output.fields] using h
  | abstract => exact yields_index.map fun _ h => Output.finishes_index.mpr h
  | enum => exact yields_enumDef.map fun _ h => h

theorem yields_typeDef : Yields limit typeDef fun t => (Output.typeDef t).Finishes := by
  refine yields_position.bind fun offset _ => yields_byte.bind fun tag _ => ?_
  split
  · next kind _ =>
    exact (yields_typeParts kind).mono fun t h => finishes_append.mpr ⟨finishes_ofList _, h⟩
  · exact yields_throw _ _

theorem yields_native : Yields limit native fun n => (Output.native n).Finishes := by
  refine yields_index.bind fun lib hlib => yields_index.bind fun name hname => ?_
  refine yields_index.bind fun type htype => yields_index.map fun function hfunction => ?_
  simp [Output.native, hlib, hname, htype, hfunction]

theorem yields_constant : Yields limit constant fun c => (Output.constant c).Finishes := by
  refine yields_index.bind fun global hglobal => yields_indices.map fun fields hfields => ?_
  exact finishes_append.mpr ⟨Output.finishes_index.mpr hglobal, hfields⟩

theorem yields_assigns :
    Yields limit (counted varAssign) fun as => (Output.assigns as).Finishes := by
  have hone : Yields limit varAssign fun a =>
      (Output.index a.name ++ Output.varint a.position).Finishes := by
    refine yields_index.bind fun name hname => yields_varint.map fun position hposition => ?_
    simp [hname, hposition]
  refine hone.counted.mono fun as h => ?_
  simp only [Output.assigns, finishes_append, finishes_each, Output.finishes_index] at *
  exact h

/-! ## Positions -/

theorem yields_positionRecord : Yields limit PositionRecord.read fun r => r.Fits := by
  refine yields_byte.bind fun a _ => ?_
  have ha := a.toNat_lt
  dsimp only
  split
  · refine yields_byte.map fun b _ => ?_
    have hb := b.toNat_lt
    show _ < 0x8000
    omega
  · split
    · exact yields_pure ⟨by omega, by omega⟩
    · split
      · exact yields_pure (by show _ < 32; omega)
      · refine yields_byte.bind fun b _ => yields_byte.map fun c _ => ?_
        have hb := b.toNat_lt
        have hc := c.toNat_lt
        show _ < 0x200000
        omega

/-- Positions that were read are as many as asked for, in files that can be written, and on lines that
are not negative if the stream starts on one. -/
theorem yields_positionsFrom (total rounds : Nat) {track : Track} (hline : 0 ≤ track.line.toInt)
    (needed : Nat) :
    Yields limit (positionsFrom total rounds track needed) fun ps =>
      ps.length = needed ∧ (track.position :: ps).Pairwise Position.FileFollows ∧
        ∀ p ∈ ps, 0 ≤ p.line.toInt := by
  have hdone (track : Track) : ([] : List Position).length = 0 ∧
      [track.position].Pairwise Position.FileFollows ∧
        ∀ p ∈ ([] : List Position), 0 ≤ p.line.toInt := ⟨rfl, by simp, by simp⟩
  induction rounds generalizing track needed with
  | zero =>
      cases needed with
      | zero => exact yields_pure (hdone track)
      | succ needed => exact yields_position.bind fun _ _ => yields_throw _ _
  | succ rounds ih =>
      cases needed with
      | zero => exact yields_pure (hdone track)
      | succ needed =>
          refine yields_positionRecord.bind fun record hrecord => ?_
          dsimp only
          split
          · exact yields_throw _ _
          · split
            · exact yields_throw _ _
            · next hreach =>
              rw [not_not] at hreach
              have hnext := PositionRecord.line_next_nonneg hrecord hreach hline
              refine (ih hnext _).map fun more ⟨hlength, hfiles, hlines⟩ => ?_
              refine ⟨?_, PositionRecord.pairwise_fileFollows hrecord hfiles, ?_⟩
              · rw [List.length_append, PositionRecord.length_positions, hlength]
                omega
              · rw [List.forall_mem_append]
                exact ⟨fun p => PositionRecord.line_nonneg_of_mem_positions hrecord hreach hline,
                  hlines⟩

theorem yields_positions (count : Nat) :
    Yields limit (positions count) fun ps =>
      ps.length = count ∧ (Position.start :: ps).IsChain Position.FileFollows ∧
        ∀ p ∈ ps, 0 ≤ p.line.toInt := by
  have hstart : 0 ≤ ({} : Track).line.toInt := Int.le_refl 0
  exact yields_get.bind fun c _ =>
    (yields_positionsFrom count c.remaining hstart count).mono fun _ h =>
      ⟨h.1, h.2.1.isChain, h.2.2⟩

end Reader

/-- The tables of a method can be written but for the lines of its positions. -/
structure Method.Tabled (f : Method) : Prop where
  aligned : (f.debug.getD []).length = f.instructions.length
  files : (Position.start :: f.debug.getD []).IsChain Position.FileFollows
  lines : ∀ p ∈ f.debug.getD [], 0 ≤ p.line.toInt
  assigns : (Output.assigns (f.assigns.getD [])).Finishes

namespace Reader

theorem yields_method (hasDebug : Bool) :
    Yields limit (method hasDebug) fun f => (Output.methodCode f).Finishes ∧
      (hasDebug = true → f.Tabled) ∧ (hasDebug = false → f.debug = none) := by
  refine yields_index.bind fun type htype => yields_index.bind fun function hfunction => ?_
  refine yields_count.bind fun registerCount hregisterCount => ?_
  refine yields_count.bind fun instructionCount hinstructionCount => ?_
  refine (yields_index.times _).bind fun registers hregisters => ?_
  refine (Instruction.yields_read.times _).bind fun instructions hinstructions => ?_
  obtain ⟨rfl, hregisters⟩ := hregisters
  obtain ⟨rfl, hinstructions⟩ := hinstructions
  have hcode (debug : Option (List Position)) (assigns : Option (List VarAssign)) :
      (Output.methodCode ⟨type, function, registers, instructions, debug, assigns⟩).Finishes := by
    simp only [Output.methodCode, finishes_append, finishes_each, Output.finishes_index]
    exact ⟨⟨⟨⟨⟨htype, hfunction⟩, hregisterCount.1⟩, hinstructionCount.1⟩, hregisters⟩, hinstructions⟩
  cases hasDebug with
  | true =>
      refine (yields_positions _).bind fun debug hdebug => ?_
      refine yields_assigns.map fun assigns hassigns => ?_
      exact ⟨hcode _ _, fun _ => ⟨hdebug.1, hdebug.2.1, hdebug.2.2, hassigns⟩, by simp⟩
  | false => exact yields_pure ⟨hcode _ _, by simp, fun _ => rfl⟩

end Reader

/-! ## The whole module -/

/-- What can be said of a module that was read from at most `limit` bytes. -/
structure Module.Compact (limit : Nat) (m : Module) : Prop where
  blocks : hasBytesPool m.version = false → m.bytes = []
  counts : (Output.counts m).Finishes
  strings : (m.strings.map Reader.textSize).sum < limit
  bytes : m.bytes.flatten.length ≤ limit
  pools : limit < int32Limit → (Output.valuePools m).Finishes
  types : ∀ t ∈ m.types, (Output.typeDef t).Finishes
  globals : ∀ t ∈ m.globals, t < varintLimit
  natives : ∀ n ∈ m.natives, (Output.native n).Finishes
  methods : ∀ f ∈ m.methods, (Output.methodCode f).Finishes
  tables : m.hasDebug = true → ∀ f ∈ m.methods, f.Tabled
  untabled : m.hasDebug = false → ∀ f ∈ m.methods, f.debug = none
  constants : ∀ c ∈ m.constants, (Output.constant c).Finishes

namespace Reader

/-- The blocks of a module that was read; a version without a pool for them has none. -/
theorem yields_blocks (c : Bool) {count : Nat} (hcount : c = false → count = 0) :
    Yields limit (if c then bytesPool count else pure []) fun blocks =>
      blocks.length = count ∧ blocks.flatten.length ≤ limit ∧ (c = false → blocks = []) ∧
        (limit < int32Limit → (if c then Output.bytesPool blocks else empty).Finishes) := by
  cases c with
  | true =>
      refine (yields_bytesPool count).mono fun blocks h => ?_
      exact ⟨h.1, h.2.1, by simp, fun hlimit =>
        Output.finishes_bytesPool_of_starts (Nat.lt_of_le_of_lt h.2.1 hlimit) h.2.2⟩
  | false =>
      exact yields_pure ⟨(hcount rfl).symm, Nat.zero_le _, fun _ => rfl, fun _ => finishes_empty⟩

/-- The debug files of a module that was read. -/
theorem yields_debugFiles (c : Bool) :
    Yields limit (if c then do stringPool (← count) else pure []) fun files =>
      limit < int32Limit →
        (if c then Output.index files.length ++ Output.stringPool files else empty).Finishes := by
  cases c with
  | true =>
      refine yields_count.bind fun fileCount hcount => (yields_stringPool fileCount).mono
        fun files h hlimit => finishes_append.mpr ⟨?_, ?_⟩
      · exact Output.finishes_index.mpr (h.1 ▸ hcount.1)
      · exact Output.finishes_stringPool (Nat.lt_trans h.2.2 hlimit) h.2.1
  | false => exact yields_pure fun _ => finishes_empty

theorem yields_moduleBody (version : UInt8) (hasDebug : Bool) :
    Yields limit (moduleBody version hasDebug) fun m =>
      m.version = version ∧ 4 * m.ints.length ≤ limit ∧ m.Compact limit := by
  refine yields_count.bind fun intCount hints => yields_count.bind fun floatCount hfloats => ?_
  refine yields_count.bind fun stringCount hstrings => ?_
  dsimp only
  rw [ite_bind]
  have hbytesCount : Yields limit (if hasBytesPool version then count else pure 0) fun n =>
      n < varintLimit ∧ (hasBytesPool version = false → n = 0) := by
    cases hasBytesPool version with
    | true => exact yields_count.mono fun n hn => ⟨hn.1, by simp⟩
    | false => exact yields_pure ⟨by decide, fun _ => rfl⟩
  refine hbytesCount.bind fun bytesCount hbytesCount => ?_
  refine yields_count.bind fun typeCount htypes => yields_count.bind fun globalCount hglobals => ?_
  refine yields_count.bind fun nativeCount hnatives => ?_
  refine yields_count.bind fun methodCount hmethods => ?_
  refine yields_count.bind fun constantCount hconstants => ?_
  refine yields_index.bind fun entrypoint hentrypoint => ?_
  refine (yields_ints _).bind fun ints hints' => ?_
  refine (yields_float64.times _).bind fun floats hfloats' => ?_
  refine (yields_stringPool _).bind fun strings hstrings' => ?_
  rw [ite_bind]
  refine (yields_blocks (hasBytesPool version) hbytesCount.2).bind fun bytes hbytes => ?_
  rw [ite_bind_bind]
  refine (yields_debugFiles hasDebug).bind fun files hfiles => ?_
  refine (yields_typeDef.times _).bind fun types htypes' => ?_
  refine (yields_index.times _).bind fun globals hglobals' => ?_
  refine (yields_native.times _).bind fun natives hnatives' => ?_
  refine ((yields_method hasDebug).times _).bind fun methods hmethods' => ?_
  refine (yields_constant.times _).map fun constants hconstants' => ⟨rfl, hints'.1 ▸ hints'.2, ?_⟩
  obtain ⟨hbytesLength, hbytesSize, hbytesNone, hbytesPool⟩ := hbytes
  have hblocks : (if hasBytesPool version then Output.index bytes.length else empty).Finishes := by
    split
    · rw [Output.finishes_index, hbytesLength]
      exact hbytesCount.1
    · exact finishes_empty
  have hcounts : (Output.counts ⟨version, hasDebug, ints, floats, strings, bytes, files, types,
      globals, natives, methods, constants, entrypoint⟩).Finishes := by
    simp only [Output.counts, finishes_append, Output.finishes_index, hints'.1, hfloats'.1,
      hstrings'.1, htypes'.1, hglobals'.1, hnatives'.1, hmethods'.1, hconstants'.1]
    exact ⟨⟨⟨⟨⟨⟨⟨⟨⟨hints.1, hfloats.1⟩, hstrings.1⟩, hblocks⟩, htypes.1⟩, hglobals.1⟩, hnatives.1⟩,
      hmethods.1⟩, hconstants.1⟩, hentrypoint⟩
  have hpools (hlimit : limit < int32Limit) : (Output.valuePools ⟨version, hasDebug, ints, floats,
      strings, bytes, files, types, globals, natives, methods, constants, entrypoint⟩).Finishes := by
    simp only [Output.valuePools, finishes_append, finishes_each, Output.finishes_int32,
      Output.finishes_float64, implies_true, true_and]
    have hstringPool := Output.finishes_stringPool (Nat.lt_trans hstrings'.2.2 hlimit) hstrings'.2.1
    exact ⟨⟨hstringPool, hbytesPool hlimit⟩, hfiles hlimit⟩
  exact {
    blocks := hbytesNone
    counts := hcounts
    strings := hstrings'.2.2
    bytes := hbytesSize
    pools := hpools
    types := htypes'.2
    globals := hglobals'.2
    natives := hnatives'.2
    methods := fun f hf => (hmethods'.2 f hf).1
    tables := fun hdebug f hf => (hmethods'.2 f hf).2.1 hdebug
    untabled := fun hdebug f hf => (hmethods'.2 f hf).2.2 hdebug
    constants := hconstants'.2 }

theorem Yields.ofReader {α : Type} {r : Reader α} {P : α → Prop} (h : Yields limit r P) :
    Yields limit (ModuleReader.ofReader r) P := by
  intro c hc a c' heq
  unfold ModuleReader.ofReader at heq
  split at heq
  · next a' c'' hr =>
    cases heq
    exact h c hc a c' hr
  · cases heq

end Reader

open Reader in
/-- What is known of a module that was read. -/
theorem Module.sizes_of_decode {data : List UInt8} {m : Module} (h : decode data = .ok m) :
    isSupported m.version = true ∧ 4 * m.ints.length ≤ data.length ∧ m.Compact data.length := by
  have hread : Yields data.length ModuleReader.read fun m =>
      isSupported m.version = true ∧ 4 * m.ints.length ≤ data.length ∧ m.Compact data.length := by
    refine (yields_take 3).ofReader.bind fun magic _ => ?_
    dsimp only
    split
    · exact yields_throw _ _
    · refine yields_byte.ofReader.bind fun version _ => ?_
      split
      · exact yields_throw _ _
      · next hversion =>
        refine yields_byte.ofReader.bind fun flag _ => ?_
        refine (yields_moduleBody version (flag != 0)).ofReader.mono fun m hm => ?_
        rw [hm.1]
        exact ⟨by simpa using hversion, hm.2⟩
  obtain ⟨c, hr⟩ := decode_eq_ok_iff.mp h
  exact (hread (.ofBytes data) (Nat.le_refl _) m c hr).2

/-- **A module that was read is compact.** -/
theorem Module.compact_of_decode {data : List UInt8} {m : Module} (h : decode data = .ok m) :
    isSupported m.version = true ∧ m.Compact data.length :=
  ⟨(sizes_of_decode h).1, (sizes_of_decode h).2.2⟩

end HashLink
