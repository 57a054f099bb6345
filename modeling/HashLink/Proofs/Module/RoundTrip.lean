import HashLink.Module.Wire
import HashLink.Proofs.Code.InstructionWire
import HashLink.Proofs.Code.PositionStream

/-!
# Modules are read back

The records of a module are read back one kind at a time, and then the module as a whole. Reading
gives back what was written except for what the format cannot say: without debug information there
are no tables and no files, and with it an absent table is an empty one. `Module.normal` is the
module up to that.

All sizes stand at the front of a module, so each of them has to be paid for by a section that comes
much later. No other part of the argument looks past the next field.
-/

namespace HashLink

open Emission

variable {ε β : Type}

/-! ## Type descriptors -/

namespace Output

theorem atLeast_fields (fs : List (Field Nat)) : AtLeast fs.length (fields fs) :=
  .each fun f _ => (atLeast_index f.name).left _

theorem atLeast_protos (ps : List (Proto Nat)) : AtLeast ps.length (protos ps) :=
  .each fun p _ => ((atLeast_index p.name).left _).left _

theorem atLeast_bindings (bs : List Binding) : AtLeast bs.length (bindings bs) :=
  .each fun b _ => (atLeast_index b.field).left _

theorem atLeast_typeDef (t : RawType) : AtLeast 1 (typeDef t) := (atLeast_ofList [_]).left _

end Output

namespace Reader

theorem reads_indices (xs : List Nat) : Reads (counted index) (Output.indices xs) xs :=
  .counted (fun n _ => reads_index n) fun n _ => Output.atLeast_index n

theorem reads_signature (s : Signature) :
    Reads signature (Output.indices s.args ++ Output.index s.result) s := by
  refine (reads_indices s.args).bind ?_
  exact (reads_index s.result).map (Signature.mk s.args)

theorem reads_field (f : Field Nat) : Reads field (Output.index f.name ++ Output.index f.type) f := by
  refine (reads_index f.name).bind ?_
  exact (reads_index f.type).map (Field.mk f.name)

theorem reads_proto (p : Proto Nat) :
    Reads proto (Output.index p.name ++ Output.index p.function ++ Output.varint p.slot) p := by
  rw [append_assoc]
  refine (reads_index p.name).bind ((reads_index p.function).bind ?_)
  exact (reads_varint p.slot).map (Proto.mk p.name p.function)

theorem reads_binding (b : Binding) :
    Reads binding (Output.index b.field ++ Output.index b.function) b := by
  refine (reads_index b.field).bind ?_
  exact (reads_index b.function).map (Binding.mk b.field)

/-- An object announces its three lists before the first one starts. -/
theorem reads_objectDef (o : ObjectDef Nat Int32 Nat) :
    Reads objectDef (Output.objectDef o) o := by
  unfold Output.objectDef
  simp only [append_assoc]
  refine (reads_index o.name).bind ((reads_varint o.super).bind ((reads_index o.global).bind ?_))
  refine (reads_index o.fields.length).count_bind
    (.right _ (.right _ ((Output.atLeast_fields o.fields).left _))) ?_
  refine (reads_index o.protos.length).count_bind
    (.right _ (.right _ ((Output.atLeast_protos o.protos).left _))) ?_
  refine (reads_index o.bindings.length).count_bind
    (.right _ (.right _ (Output.atLeast_bindings o.bindings))) ?_
  refine (Reads.times fun f _ => reads_field f).bind ?_
  refine (Reads.times fun p _ => reads_proto p).bind ?_
  exact (Reads.times fun b _ => reads_binding b).map (ObjectDef.mk o.name o.super o.global o.fields
    o.protos)

theorem reads_construct (c : Construct Nat) :
    Reads construct (Output.index c.name ++ Output.indices c.params) c := by
  refine (reads_index c.name).bind ?_
  exact (reads_indices c.params).map (Construct.mk c.name)

theorem reads_enumDef (e : EnumDef Nat Nat) : Reads enumDef (Output.enumDef e) e := by
  unfold Output.enumDef
  rw [append_assoc, append_assoc]
  refine (reads_index e.name).bind ((reads_index e.global).bind ?_)
  exact (Reads.counted (fun c _ => reads_construct c)
    fun c _ => (Output.atLeast_index c.name).left _).map (EnumDef.mk e.name e.global)

theorem reads_typeParts (t : RawType) : Reads (typeParts t.kind) (Output.typeParts t) t := by
  cases t with
  | atom kind => exact reads_pure _
  | callable kind signature => exact (reads_signature signature).map (TypeDef.callable kind)
  | object kind layout => exact (reads_objectDef layout).map (TypeDef.object kind)
  | wrapper kind inner => exact (reads_index inner).map (TypeDef.wrapper kind)
  | virtual fields =>
      exact (Reads.counted (fun f _ => reads_field f)
        fun f _ => (Output.atLeast_index f.name).left _).map TypeDef.virtual
  | abstract name => exact (reads_index name).map TypeDef.abstract
  | enum layout => exact (reads_enumDef layout).map TypeDef.enum

/-- **A type descriptor is read back.** -/
theorem reads_typeDef (t : RawType) : Reads typeDef (Output.typeDef t) t := by
  have htag : (UInt8.ofNat t.kind.tag).toNat = t.kind.tag := by
    obtain ⟨hlt, _⟩ := List.getElem?_eq_some_iff.mp (TypeKind.ofTag?_tag t.kind)
    rw [UInt8.toNat_ofNat']
    exact Nat.mod_eq_of_lt (Nat.lt_trans hlt (by decide))
  refine Reads.position_bind fun _ => (reads_byte _).bind ?_
  rw [htag, TypeKind.ofTag?_tag]
  exact reads_typeParts t

/-! ## Records -/

theorem reads_native (n : Native) : Reads native (Output.native n) n := by
  unfold Output.native
  rw [append_assoc, append_assoc]
  refine (reads_index n.lib).bind ((reads_index n.name).bind ((reads_index n.type).bind ?_))
  exact (reads_index n.index).map (Native.mk n.lib n.name n.type)

theorem reads_constant (c : Constant) : Reads constant (Output.constant c) c := by
  refine (reads_index c.global).bind ?_
  exact (reads_indices c.fields).map (Constant.mk c.global)

theorem reads_varAssign (a : VarAssign) :
    Reads varAssign (Output.index a.name ++ Output.varint a.position) a := by
  refine (reads_index a.name).bind ?_
  exact (reads_varint a.position).map (VarAssign.mk a.name)

theorem reads_assigns (as : List VarAssign) : Reads (counted varAssign) (Output.assigns as) as :=
  .counted (fun a _ => reads_varAssign a) fun a _ => (Output.atLeast_index a.name).left _

end Reader

/-- A method as far as the format can say: its tables are there exactly with debug information. -/
def Method.normal (hasDebug : Bool) (m : Method) : Method :=
  if hasDebug then { m with debug := some (m.debug.getD []), assigns := some (m.assigns.getD []) }
  else { m with debug := none, assigns := none }

/-- A module as far as the format can say. -/
def Module.normal (m : Module) : Module :=
  { m with
    methods := m.methods.map (·.normal m.hasDebug)
    debugFiles := if m.hasDebug then m.debugFiles else [] }

namespace ModuleOutput

theorem atLeast_method (hasDebug : Bool) (m : Method) : AtLeast 1 (method hasDebug m) :=
  .left (atLeast_mapError ((((((Output.atLeast_index m.type).left _).left _).left _).left _).left _)) _

end ModuleOutput

namespace Reader

theorem reads_method (hasDebug : Bool) (m : Method) :
    Reads (method hasDebug) (ModuleOutput.method hasDebug m) (m.normal hasDebug) := by
  unfold ModuleOutput.method ModuleOutput.ofOutput Output.methodCode
  dsimp only
  simp only [mapError_append, append_assoc]
  refine ((reads_index m.type).mapError _).bind (((reads_index m.index).mapError _).bind ?_)
  refine ((reads_index m.registers.length).mapError _).count_bind
    (.right _ (.left (atLeast_mapError (.each fun n _ => Output.atLeast_index n)) _)) ?_
  refine ((reads_index m.instructions.length).mapError _).count_bind
    (.right _ (.left (atLeast_mapError (.each fun i _ => Instruction.atLeast_write i)) _)) ?_
  refine ((Reads.times fun n _ => reads_index n).mapError _).bind ?_
  refine ((Reads.times fun i _ => Instruction.reads_write i).mapError _).bind ?_
  cases hasDebug with
  | false => exact reads_pure _
  | true =>
      rw [if_pos rfl, if_pos rfl]
      split
      · next hlength =>
        rw [← hlength]
        refine ((reads_positions _).mapError _).bind ?_
        exact ((reads_assigns _).mapError _).map (Method.mk m.type m.index m.registers m.instructions
          (some (m.debug.getD [])) ∘ some)
      · exact fun hf => absurd hf (not_finishes_fail _)

/-! ## Sections that only some modules have -/

/-- A count that is only there for some versions; without it nothing is announced. -/
theorem Reads.ite_count_bind {c : Bool} {f : Nat → Reader β} {w o : Emission ε UInt8} {n : Nat} {b : β}
    (hw : Reads index w n) (hn : AtLeast n o) (hzero : c = false → n = 0) (h : Reads (f n) o b) :
    Reads ((if c then count else pure 0) >>= f) ((if c then w else empty) ++ o) b := by
  cases c with
  | true => exact hw.count_bind hn h
  | false =>
      rw [hzero rfl] at h
      rw [if_neg (by simp), if_neg (by simp), empty_append, pure_bind]
      exact h

theorem reads_blocks {c : Bool} {blocks : List (List UInt8)} (hnil : c = false → blocks = []) :
    Reads (if c then bytesPool blocks.length else pure [])
      (if c then Output.bytesPool blocks else empty) blocks := by
  cases c with
  | true => exact reads_bytesPool blocks
  | false =>
      rw [hnil rfl]
      exact reads_pure []

theorem reads_debugFiles (c : Bool) (files : List String) :
    Reads (if c then count >>= stringPool else pure [])
      (if c then Output.index files.length ++ Output.stringPool files else empty)
      (if c then files else []) := by
  cases c with
  | true => exact (reads_index _).count_bind (Output.atLeast_stringPool files) (reads_stringPool files)
  | false => exact reads_pure []

/-! ## The whole module -/

/-- What follows the debug flag. -/
def afterFlag (m : Module) : ModuleOutput :=
  ModuleOutput.ofOutput (Output.counts m ++ Output.valuePools m ++ .each m.types Output.typeDef ++
    .each m.globals Output.index ++ .each m.natives Output.native) ++
    .each m.methods (ModuleOutput.method m.hasDebug) ++
    ModuleOutput.ofOutput (.each m.constants Output.constant)

theorem reads_moduleBody {m : Module} (hbytes : hasBytesPool m.version = false → m.bytes = []) :
    Reads (moduleBody m.version m.hasDebug) (afterFlag m) m.normal := by
  -- every section pays for its own count
  have hints : AtLeast m.ints.length
      ((Emission.each m.ints Output.int32).mapError ModuleError.encode) :=
    atLeast_mapError (.each fun v _ => Output.atLeast_int32 v)
  have hfloats : AtLeast m.floats.length
      ((Emission.each m.floats Output.float64).mapError ModuleError.encode) :=
    atLeast_mapError (.each fun v _ => Output.atLeast_float64 v)
  have hstrings : AtLeast m.strings.length
      ((Output.stringPool m.strings).mapError ModuleError.encode) :=
    atLeast_mapError (Output.atLeast_stringPool m.strings)
  have hblocks : AtLeast m.bytes.length (if hasBytesPool m.version then
      (Output.bytesPool m.bytes).mapError ModuleError.encode else empty) := by
    split
    · exact atLeast_mapError (Output.atLeast_bytesPool m.bytes)
    · next h =>
      rw [hbytes (by simpa using h)]
      exact fun _ => Nat.zero_le _
  have htypes : AtLeast m.types.length
      ((Emission.each m.types Output.typeDef).mapError ModuleError.encode) :=
    atLeast_mapError (.each fun t _ => Output.atLeast_typeDef t)
  have hglobals : AtLeast m.globals.length
      ((Emission.each m.globals Output.index).mapError ModuleError.encode) :=
    atLeast_mapError (.each fun n _ => Output.atLeast_index n)
  have hnatives : AtLeast m.natives.length
      ((Emission.each m.natives Output.native).mapError ModuleError.encode) :=
    atLeast_mapError (.each fun n _ => (((Output.atLeast_index n.lib).left _).left _).left _)
  have hmethods : AtLeast m.methods.length
      (Emission.each m.methods (ModuleOutput.method m.hasDebug)) :=
    .each fun f _ => ModuleOutput.atLeast_method m.hasDebug f
  have hconstants : AtLeast m.constants.length
      ((Emission.each m.constants Output.constant).mapError ModuleError.encode) :=
    atLeast_mapError (.each fun c _ => (Output.atLeast_index c.global).left _)
  unfold afterFlag Output.counts Output.valuePools ModuleOutput.ofOutput
  simp only [mapError_append, mapError_ite, append_assoc]
  refine ((reads_index m.ints.length).mapError _).count_bind
    (by repeat (first | exact hints.left _ | apply AtLeast.right)) ?_
  refine ((reads_index m.floats.length).mapError _).count_bind
    (by repeat (first | exact hfloats.left _ | apply AtLeast.right)) ?_
  refine ((reads_index m.strings.length).mapError _).count_bind
    (by repeat (first | exact hstrings.left _ | apply AtLeast.right)) ?_
  dsimp only
  rw [ite_bind]
  refine Reads.ite_count_bind ((reads_index m.bytes.length).mapError _)
    (by repeat (first | exact hblocks.left _ | apply AtLeast.right))
    (fun h => by rw [hbytes h]; rfl) ?_
  refine ((reads_index m.types.length).mapError _).count_bind
    (by repeat (first | exact htypes.left _ | apply AtLeast.right)) ?_
  refine ((reads_index m.globals.length).mapError _).count_bind
    (by repeat (first | exact hglobals.left _ | apply AtLeast.right)) ?_
  refine ((reads_index m.natives.length).mapError _).count_bind
    (by repeat (first | exact hnatives.left _ | apply AtLeast.right)) ?_
  refine ((reads_index m.methods.length).mapError _).count_bind
    (by repeat (first | exact hmethods.left _ | apply AtLeast.right)) ?_
  refine ((reads_index m.constants.length).mapError _).count_bind
    (by repeat (first | exact hconstants | apply AtLeast.right)) ?_
  refine ((reads_index m.entrypoint).mapError _).bind ?_
  refine ((Reads.times fun v _ => reads_int32 v).mapError _).bind ?_
  refine ((Reads.times fun v _ => reads_float64 v).mapError _).bind ?_
  refine ((reads_stringPool m.strings).mapError _).bind ?_
  have hreadBlocks := (reads_blocks hbytes).mapError ModuleError.encode
  have hreadFiles := (reads_debugFiles m.hasDebug m.debugFiles).mapError ModuleError.encode
  rw [mapError_ite] at hreadBlocks hreadFiles
  rw [mapError_append] at hreadFiles
  rw [ite_bind]
  refine hreadBlocks.bind ?_
  rw [ite_bind_bind]
  refine hreadFiles.bind ?_
  refine ((Reads.times fun t _ => reads_typeDef t).mapError _).bind ?_
  refine ((Reads.times fun n _ => reads_index n).mapError _).bind ?_
  refine ((Reads.times fun n _ => reads_native n).mapError _).bind ?_
  refine (Reads.times_map fun f _ => reads_method m.hasDebug f).bind ?_
  exact ((Reads.times fun c _ => reads_constant c).mapError _).map fun constants =>
    { m.normal with constants }

end Reader

/-- The marker and a version that can be read lead to the body. -/
theorem ModuleReader.read_header {version : UInt8} (h : isSupported version = true) (flag : UInt8)
    (rest : List UInt8) :
    read ⟨0, moduleMagic ++ [version, flag] ++ rest⟩ =
      ofReader (Reader.moduleBody version (flag != 0)) ⟨5, rest⟩ := by
  simp [read, ofReader, Reader.take, Reader.byte, Cursor.hasAtLeast, moduleMagic, bind, EStateM.bind, h]

theorem Module.decode_eq_ok_iff {data : List UInt8} {m : Module} :
    decode data = .ok m ↔ ∃ c, ModuleReader.read (.ofBytes data) = .ok m c := by
  unfold decode
  cases ModuleReader.read (.ofBytes data) with
  | ok m' c => simp
  | error e c => simp

/-- A module that can be written is read back, and the reader stops where the writer did. -/
theorem ModuleReader.read_body {m : Module} (hversion : isSupported m.version = true)
    (hbytes : hasBytesPool m.version = false → m.bytes = [])
    (hf : (ModuleOutput.body m).Finishes) (s : List UInt8) :
    read ⟨0, (ModuleOutput.body m).items ++ s⟩ =
      .ok m.normal ⟨(ModuleOutput.body m).items.length, s⟩ := by
  have hbody : ModuleOutput.body m =
      .ofList (moduleMagic ++ [m.version, if m.hasDebug then 1 else 0]) ++ Reader.afterFlag m := by
    unfold ModuleOutput.body Output.beforeMethods Reader.afterFlag ModuleOutput.ofOutput
    simp only [mapError_append, append_assoc]
    rfl
  have hflag : ((if m.hasDebug then 1 else 0 : UInt8) != 0) = m.hasDebug := by
    cases m.hasDebug <;> rfl
  rw [hbody] at hf ⊢
  have hread := Reader.reads_moduleBody hbytes (finishes_append.mp hf).2 5 s
  have hheader := ModuleReader.read_header hversion (if m.hasDebug then 1 else 0)
    ((Reader.afterFlag m).items ++ s)
  rw [hflag, ModuleReader.ofReader, hread] at hheader
  rw [items_append (finishes_ofList _), List.append_assoc, List.length_append]
  exact hheader

/-- A module that can be written is read back, whatever follows it. -/
theorem Module.decode_body {m : Module} (hversion : isSupported m.version = true)
    (hbytes : hasBytesPool m.version = false → m.bytes = [])
    (hf : (ModuleOutput.body m).Finishes) (s : List UInt8) :
    Module.decode ((ModuleOutput.body m).items ++ s) = .ok m.normal :=
  decode_eq_ok_iff.mpr ⟨_, ModuleReader.read_body hversion hbytes hf s⟩

theorem Module.encode_eq_ok_iff {m : Module} {b : List UInt8} :
    m.encode = .ok b ↔ (hasBytesPool m.version = false → m.bytes = []) ∧
      (ModuleOutput.body m).Finishes ∧ (ModuleOutput.body m).items = b := by
  unfold encode
  split
  · next h =>
    rw [toExcept_eq_ok_iff]
    refine ⟨fun hb => ⟨fun hv => h.resolve_left (by simp [hv]), hb⟩, fun hb => hb.2⟩
  · next h =>
    rw [not_or] at h
    refine ⟨fun he => by simp at he, fun hb => absurd (hb.1 (by simpa using h.1)) h.2⟩

/-- **The format is read back.** What encoding gives, decoding takes, whatever bytes follow; the
module comes back as it was, up to tables and files that the format has no place for. -/
theorem Module.decode_encode_append {m : Module} (hversion : m.version = 4 ∨ m.version = 5)
    {b : List UInt8} (h : m.encode = .ok b) (s : List UInt8) :
    Module.decode (b ++ s) = .ok m.normal := by
  have hsupported : isSupported m.version = true := by
    rcases hversion with hv | hv <;> rw [hv] <;> rfl
  obtain ⟨hbytes, hf, rfl⟩ := encode_eq_ok_iff.mp h
  exact decode_body hsupported hbytes hf s

/-- A module with an entry in every pool. Its first method has a table of positions that starts
before any file; the second one has no tables. -/
def smallModule : Module where
  version := 5
  hasDebug := true
  ints := [-1]
  floats := [0x7FF8000000000001]
  strings := ["é", ""]
  bytes := [[], [0, 255]]
  debugFiles := ["a"]
  types := [.atom .void, .callable .function ⟨[], 0⟩]
  globals := [0]
  methods := [
    ⟨1, 0, [0], [⟨.int, [0, 0]⟩, ⟨.ret, [0]⟩], some [⟨-1, 0⟩, ⟨0, 7⟩], some [⟨1, -1⟩]⟩,
    ⟨1, 1, [], [], none, none⟩]
  constants := [⟨0, [0, 2]⟩]

/-- The small module is read back in front of another byte, and the absent tables come back empty.
-/
theorem decode_encode_smallModule :
    ∃ b, smallModule.encode = .ok b ∧ Module.decode (b ++ [255]) = .ok { smallModule with
      methods := [
        ⟨1, 0, [0], [⟨.int, [0, 0]⟩, ⟨.ret, [0]⟩], some [⟨-1, 0⟩, ⟨0, 7⟩], some [⟨1, -1⟩]⟩,
        ⟨1, 1, [], [], some [], some []⟩] } := by
  have hencode : smallModule.encode = .ok [72, 76, 66, 5, 1, 1, 1, 2, 2, 2, 1, 0, 2, 1, 0, 255, 255,
      255, 255, 1, 0, 0, 0, 0, 0, 248, 127, 4, 0, 0, 0, 195, 169, 0, 0, 2, 0, 2, 0, 0, 0, 0, 255, 0, 0,
      1, 2, 0, 0, 0, 97, 0, 1, 0, 10, 0, 0, 0, 1, 0, 1, 2, 0, 1, 0, 0, 67, 0, 6, 1, 0, 60, 1, 1, 160,
      1, 1, 1, 0, 0, 0, 0, 2, 0, 2] := rfl
  exact ⟨_, hencode, Module.decode_encode_append (.inr rfl) hencode [255]⟩

end HashLink
