import HashLink.Proofs.Module.RoundTrip
import HashLink.Proofs.Wire.Truncation

/-!
# Where a module ends

Decoding a module takes all of its bytes and looks at none behind them. Both follow from one
property of the reader: more input makes no difference to it, unless it failed for want of input. So
bytes behind a module do not matter. And if the first bytes of a written module were enough, all of
its bytes would give the same module with some of them left over; but nothing is left over.

No part of the format has a length of its own that would tell a short file from a whole one, so the
property has to hold of every field, which is what the lemmas go through.
-/

namespace HashLink

variable {α : Type}

namespace Reader

/-! ## Types and code -/

theorem steady_signature : Steady signature :=
  steady_index.counted.bind fun args => steady_index.map (Signature.mk args)

theorem steady_field : Steady field :=
  steady_index.bind fun name => steady_index.map (Field.mk name)

theorem steady_proto : Steady proto :=
  steady_index.bind fun name => steady_index.bind fun function =>
    steady_varint.map (Proto.mk name function)

theorem steady_binding : Steady binding :=
  steady_index.bind fun field => steady_index.map (Binding.mk field)

theorem steady_objectDef : Steady objectDef := by
  refine steady_index.bind fun name => steady_varint.bind fun super => ?_
  refine steady_index.bind fun global => steady_count.bind fun fieldCount => ?_
  refine steady_count.bind fun protoCount => steady_count.bind fun bindingCount => ?_
  refine (steady_field.times _).bind fun fields => (steady_proto.times _).bind fun protos => ?_
  exact (steady_binding.times _).map (ObjectDef.mk name super global fields protos)

theorem steady_construct : Steady construct :=
  steady_index.bind fun name => steady_index.counted.map (Construct.mk name)

theorem steady_enumDef : Steady enumDef :=
  steady_index.bind fun name => steady_index.bind fun global =>
    steady_construct.counted.map (EnumDef.mk name global)

theorem steady_typeParts (kind : TypeKind) : Steady (typeParts kind) := by
  cases kind with
  | atom kind => exact foresees_pure _
  | callable kind => exact steady_signature.map _
  | object kind => exact steady_objectDef.map _
  | wrapper kind => exact steady_index.map _
  | virtual => exact steady_field.counted.map _
  | abstract => exact steady_index.map _
  | enum => exact steady_enumDef.map _

theorem steady_typeDef : Steady typeDef := by
  refine steady_position.bind fun offset => steady_byte.bind fun tag => ?_
  split
  · exact steady_typeParts _
  · exact foresees_throw _

theorem steady_readArgs (s : Shape) : Steady (Instruction.readArgs s) := by
  cases s with
  | exactly kinds => exact steady_varint.times _
  | withRegisters kinds =>
      refine (steady_varint.times _).bind fun fixed => ?_
      exact steady_varint.counted.map (fixed ++ ·)
  | branches =>
      refine steady_varint.bind fun selector => steady_varint.counted.bind fun offsets => ?_
      exact steady_varint.map (selector :: offsets ++ [·])

theorem steady_instruction : Steady Instruction.read := by
  refine steady_position.bind fun offset => steady_varint.bind fun tag => ?_
  dsimp only
  split
  · next opcode _ => exact (steady_readArgs opcode.shape).map (Instruction.mk opcode)
  · exact foresees_throw _

/-! ## Positions -/

theorem steady_positionRecord : Steady PositionRecord.read := by
  refine steady_byte.bind fun a => ?_
  dsimp only
  split
  · exact steady_byte.map _
  · split
    · exact foresees_pure _
    · split
      · exact foresees_pure _
      · exact steady_byte.bind fun b => steady_byte.map _

/-- A stream is read in rounds, and a longer input allows more of them. A reader that has used up its
rounds has used up its bytes. -/
theorem foresees_positionsFrom (total : Nat) {rounds rounds' : Nat} (hrounds : rounds ≤ rounds')
    (track : Track) (needed : Nat) :
    Foresees DecodeError.IsCutOff (positionsFrom total rounds track needed)
      (positionsFrom total rounds' track needed) := by
  induction rounds generalizing rounds' track needed with
  | zero =>
      cases needed with
      | zero =>
          rw [positionsFrom, positionsFrom]
          exact foresees_pure []
      | succ needed => exact fun _ _ => .inl trivial
  | succ rounds ih =>
      cases needed with
      | zero =>
          rw [positionsFrom, positionsFrom]
          exact foresees_pure []
      | succ needed =>
          obtain ⟨rounds', rfl⟩ : ∃ k, rounds' = k + 1 := ⟨rounds' - 1, by omega⟩
          refine steady_positionRecord.bind fun record => ?_
          dsimp only
          split
          · exact foresees_throw _
          · split
            · exact foresees_throw _
            · exact (ih (by omega) _ _).map (record.positions track ++ ·)

theorem steady_positions (count : Nat) : Steady (positions count) := by
  refine foresees_get_bind fun c more => foresees_positionsFrom count ?_ {} count
  unfold Cursor.remaining Cursor.followedBy
  rw [List.length_append]
  exact Nat.le_add_right _ _

/-! ## Records and modules -/

theorem steady_native : Steady native :=
  steady_index.bind fun lib => steady_index.bind fun name => steady_index.bind fun type =>
    steady_index.map (Native.mk lib name type)

theorem steady_constant : Steady constant :=
  steady_index.bind fun global => steady_index.counted.map (Constant.mk global)

theorem steady_varAssign : Steady varAssign :=
  steady_index.bind fun name => steady_varint.map (VarAssign.mk name)

theorem steady_method (hasDebug : Bool) : Steady (method hasDebug) := by
  refine steady_index.bind fun type => steady_index.bind fun function => ?_
  refine steady_count.bind fun registerCount => steady_count.bind fun instructionCount => ?_
  refine (steady_index.times _).bind fun registers => ?_
  refine (steady_instruction.times _).bind fun instructions => ?_
  cases hasDebug with
  | true =>
      refine (steady_positions _).bind fun debug => ?_
      exact steady_varAssign.counted.map
        (Method.mk type function registers instructions (some debug) ∘ some)
  | false => exact foresees_pure _

/-- A choice between two steady readers is steady. -/
theorem Steady.ite {c : Bool} {r r' : Reader α} (h : Steady r) (h' : Steady r') :
    Steady (if c then r else r') := by
  cases c with
  | true => exact h
  | false => exact h'

theorem steady_moduleBody (version : UInt8) (hasDebug : Bool) :
    Steady (moduleBody version hasDebug) := by
  refine steady_count.bind fun intCount => steady_count.bind fun floatCount => ?_
  refine steady_count.bind fun stringCount => ?_
  dsimp only
  rw [ite_bind]
  refine (Steady.ite steady_count (foresees_pure 0)).bind fun bytesCount => ?_
  refine steady_count.bind fun typeCount => steady_count.bind fun globalCount => ?_
  refine steady_count.bind fun nativeCount => steady_count.bind fun methodCount => ?_
  refine steady_count.bind fun constantCount => steady_index.bind fun entrypoint => ?_
  refine (steady_int32.times _).bind fun ints => (steady_float64.times _).bind fun floats => ?_
  refine (steady_stringPool _).bind fun strings => ?_
  rw [ite_bind]
  refine (Steady.ite (steady_bytesPool _) (foresees_pure [])).bind fun bytes => ?_
  rw [ite_bind_bind]
  refine (Steady.ite (steady_count.bind steady_stringPool) (foresees_pure [])).bind fun files => ?_
  refine (steady_typeDef.times _).bind fun types => (steady_index.times _).bind fun globals => ?_
  refine (steady_native.times _).bind fun natives => ?_
  refine ((steady_method hasDebug).times _).bind fun methods => ?_
  exact (steady_constant.times _).map _

end Reader

/-! ## The whole module -/

/-- The file of a module ended too early. -/
def ModuleError.IsCutOff (e : ModuleError) : Prop :=
  ∃ cause : DecodeError, e = .decode cause ∧ cause.IsCutOff

namespace ModuleReader

open Reader

theorem foresees_ofReader {r : Reader α} (h : Steady r) :
    Foresees ModuleError.IsCutOff (ofReader r) (ofReader r) := by
  intro c more
  have hc := h c more
  unfold ofReader
  cases hr : r c with
  | ok a c' =>
      rw [hr] at hc
      dsimp only at hc ⊢
      rw [hc]
  | error e c' =>
      rw [hr] at hc
      rcases hc with hcut | ⟨c'', hr'⟩
      · exact .inl ⟨e, rfl, hcut⟩
      · rw [hr']
        exact .inr ⟨c'', rfl⟩

/-- **More input makes no difference to reading a module, unless it failed for want of it.** -/
theorem foresees_read : Foresees ModuleError.IsCutOff read read := by
  refine (foresees_ofReader (steady_take 3)).bind fun magic => ?_
  dsimp only
  split
  · exact foresees_throw _
  · refine (foresees_ofReader steady_byte).bind fun version => ?_
    split
    · exact foresees_throw _
    · refine (foresees_ofReader steady_byte).bind fun flag => ?_
      exact foresees_ofReader (steady_moduleBody version (flag != 0))

end ModuleReader

namespace Module

/-- Bytes behind a module do not matter. -/
theorem decode_append_of_decode {data : List UInt8} {m : Module} (h : decode data = .ok m)
    (s : List UInt8) : decode (data ++ s) = .ok m := by
  obtain ⟨c, hr⟩ := decode_eq_ok_iff.mp h
  have hlong := ModuleReader.foresees_read (.ofBytes data) s
  rw [hr] at hlong
  exact decode_eq_ok_iff.mpr ⟨_, hlong⟩

/-- A reader that takes all of an input fails for want of input on a part of it. -/
theorem decode_take_of_read {b : List UInt8} {m : Module} {k position : Nat}
    (h : ModuleReader.read (.ofBytes b) = .ok m ⟨position, []⟩) (hk : k < b.length) :
    ∃ e : DecodeError, decode (b.take k) = .error (.decode e) ∧ e.IsCutOff := by
  have hwhole : (Cursor.ofBytes (b.take k)).followedBy (b.drop k) = .ofBytes b := by
    unfold Cursor.ofBytes Cursor.followedBy
    rw [List.take_append_drop]
  have hread := ModuleReader.foresees_read (.ofBytes (b.take k)) (b.drop k)
  rw [hwhole, h] at hread
  unfold decode
  cases hr : ModuleReader.read (.ofBytes (b.take k)) with
  | ok m' c' =>
      -- the bytes that were taken away would be left over
      rw [hr] at hread
      have hrest : [] = c'.rest ++ b.drop k := by
        injection hread with _ hc
        exact congrArg Cursor.rest hc
      have hnil := (List.append_eq_nil_iff.mp hrest.symm).2
      rw [List.drop_eq_nil_iff] at hnil
      omega
  | error e c' =>
      rw [hr] at hread
      rcases hread with ⟨cause, rfl, hcut⟩ | ⟨c'', hr'⟩
      · exact ⟨cause, rfl, hcut⟩
      · cases hr'

/-- **Decoding takes every byte of a module and none behind it.** What is left of a written module
when bytes are missing at its end is refused because it ended too early, wherever it was cut. And
whatever was decoded, in the writer's form or another, is decoded just the same when more bytes
follow. -/
theorem decode_exact_extent :
    (∀ (m : Module) (b : List UInt8) (k : Nat), (m.version = 4 ∨ m.version = 5) →
      m.encode = .ok b → k < b.length →
        ∃ e : DecodeError, Module.decode (b.take k) = .error (.decode e) ∧ e.IsCutOff) ∧
    ∀ (data : List UInt8) (m : Module), Module.decode data = .ok m →
      ∀ s, Module.decode (data ++ s) = .ok m := by
  refine ⟨?_, fun data m h s => decode_append_of_decode h s⟩
  intro m b k hversion hencode hk
  have hsupported : isSupported m.version = true := by
    rcases hversion with hv | hv <;> rw [hv] <;> rfl
  obtain ⟨hbytes, hf, rfl⟩ := encode_eq_ok_iff.mp hencode
  have hread := ModuleReader.read_body hsupported hbytes hf []
  rw [List.append_nil] at hread
  exact decode_take_of_read hread hk

end Module

/-- An empty module of version 4 whose entry point takes a byte more than the writer would give it. -/
def longhandBytes : List UInt8 :=
  moduleMagic ++ [4, 0] ++ List.replicate 8 0 ++ [0x80, 0] ++ [0, 0, 0, 0]

theorem decode_exact_extent_smallModule :
    (smallModule.encode = .ok (ModuleOutput.body smallModule).items ∧
      60 < (ModuleOutput.body smallModule).items.length ∧
      ∃ e : DecodeError, Module.decode ((ModuleOutput.body smallModule).items.take 60) =
        .error (.decode e) ∧ e.IsCutOff) ∧
    Module.decode longhandBytes = .ok { version := 4 } ∧
      Module.decode (longhandBytes ++ [0, 255]) = .ok { version := 4 } := by
  have hencode : smallModule.encode = .ok (ModuleOutput.body smallModule).items := rfl
  have hlong : 60 < (ModuleOutput.body smallModule).items.length := by decide
  have hdecode : Module.decode longhandBytes = .ok { version := 4 } := by decide +kernel
  obtain ⟨hcut, hmore⟩ := Module.decode_exact_extent
  exact ⟨⟨hencode, hlong, hcut smallModule _ 60 (.inr rfl) hencode hlong⟩, hdecode,
    hmore longhandBytes _ hdecode [0, 255]⟩

end HashLink
