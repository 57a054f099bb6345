import HashLink.Proofs.Code.PositionFaults
import HashLink.Proofs.Module.RoundTrip
import HashLink.Proofs.Module.Writable

/-!
# Saving what was loaded

A module that was loaded can be saved again, in a form of its own: whatever forms its numbers, pools
and tables had in the file, there is one that the writer gives them. Lines are the exception. A
file can lead to a line beyond those that a record can name, in several small steps of which some
place no instruction, while the writer takes a single step from one instruction to the next. So
saving depends on the lines of the debug tables, on nothing else, and fails with a line if it fails.
-/

namespace HashLink

open Emission

/-- The lines of a method's positions can be written one after another. -/
def Method.LinesFollow (f : Method) : Prop :=
  (Position.start :: f.debug.getD []).IsChain Position.LineFollows

namespace Method.Tabled

variable {f : Method}

theorem stopsOnly_positions (hf : f.Tabled) :
    StopsOnly (fun e => ∃ p ∈ f.debug.getD [], e = .debugLineOutOfRange p.line)
      (Output.positions (f.debug.getD [])) :=
  fun _ he => Output.error_positions_of_nonneg hf.files hf.lines he

end Method.Tabled

namespace Module.Compact

variable {limit : Nat} {m : Module} {f : Method}

/-- **A method that was read can be written exactly when its lines can.** -/
theorem finishes_method_iff (hm : m.Compact limit) (hf : f ∈ m.methods) :
    (ModuleOutput.method m.hasDebug f).Finishes ↔ f.LinesFollow := by
  have hcode := hm.methods f hf
  unfold ModuleOutput.method ModuleOutput.ofOutput
  cases hdebug : m.hasDebug with
  | false =>
      have hnone : f.LinesFollow := by
        rw [Method.LinesFollow, hm.untabled hdebug f hf]
        exact .singleton _
      simp [hcode, hnone]
  | true =>
      have htables := hm.tables hdebug f hf
      simp [hcode, htables.aligned, htables.assigns, Output.finishes_positions_iff htables.files,
        Method.LinesFollow]

theorem stopsOnly_method (hm : m.Compact limit) (hf : f ∈ m.methods) :
    StopsOnly (fun e => ∃ p ∈ f.debug.getD [], e = .encode (.debugLineOutOfRange p.line))
      (ModuleOutput.method m.hasDebug f) := by
  refine (finishes_mapError.mpr (hm.methods f hf)).stopsOnly.append ?_
  cases hdebug : m.hasDebug with
  | false => exact finishes_empty.stopsOnly
  | true =>
      have htables := hm.tables hdebug f hf
      rw [if_pos rfl, if_pos htables.aligned]
      exact (htables.stopsOnly_positions.append htables.assigns.stopsOnly).mapError
        fun _ ⟨p, hp, he⟩ => ⟨p, hp, congrArg ModuleError.encode he⟩

theorem finishes_beforeMethods (hm : m.Compact limit) (hlimit : limit < int32Limit) :
    (Output.beforeMethods m).Finishes := by
  simp only [Output.beforeMethods, finishes_append, finishes_ofList, finishes_each, true_and,
    Output.finishes_index]
  exact ⟨⟨⟨⟨hm.counts, hm.pools hlimit⟩, hm.types⟩, hm.globals⟩, hm.natives⟩

end Module.Compact

/-- **A module that was loaded can be saved exactly when the lines of its positions follow each
other**, and if it cannot, the line of a position is the reason. -/
theorem Module.encode_iff_of_decode {data : List UInt8} {m : Module} (hsize : data.length < 2 ^ 31)
    (h : Module.decode data = .ok m) :
    ((∃ b, m.encode = .ok b) ↔ ∀ f ∈ m.methods, f.LinesFollow) ∧
      ∀ e, m.encode = .error e → ∃ f ∈ m.methods, ∃ p ∈ f.debug.getD [],
        e = .encode (.debugLineOutOfRange p.line) := by
  obtain ⟨_, hm⟩ := compact_of_decode h
  have hbefore : (ModuleOutput.ofOutput (Output.beforeMethods m)).Finishes :=
    finishes_mapError.mpr (hm.finishes_beforeMethods hsize)
  have hafter : (ModuleOutput.ofOutput (.each m.constants Output.constant)).Finishes :=
    finishes_mapError.mpr (finishes_each.mpr hm.constants)
  constructor
  · simp only [encode_eq_ok_iff, exists_and_left, exists_eq', and_true]
    rw [and_iff_right hm.blocks, ModuleOutput.body, finishes_append, finishes_append, finishes_each,
      and_iff_left hafter, and_iff_right hbefore]
    exact forall₂_congr fun f hf => hm.finishes_method_iff hf
  · intro e he
    have hplace : hasBytesPool m.version = true ∨ m.bytes = [] := by
      cases hb : hasBytesPool m.version with
      | true => exact .inl rfl
      | false => exact .inr (hm.blocks hb)
    rw [encode, if_pos hplace] at he
    have hbody := (hbefore.stopsOnly.append (StopsOnly.each fun f hf e' he' =>
      (⟨f, hf, hm.stopsOnly_method hf e' he'⟩ : ∃ f ∈ m.methods, ∃ p ∈ f.debug.getD [],
        e' = .encode (.debugLineOutOfRange p.line)))).append hafter.stopsOnly
    exact hbody.of_toExcept he

/-- A file with a method of two instructions. The first is on a line of its own; from there the
stream goes three lines further without placing anything, and then takes another step. -/
def steppingBytes (first : List UInt8) (step : UInt8) : List UInt8 :=
  -- the header with the counts, two empty pools, a debug file and two types
  [72, 76, 66, 5, 1, 0, 0, 0, 0, 2, 0, 0, 1, 0, 0] ++ [0, 0, 0, 0] ++ [0, 0, 0, 0] ++
    [1, 2, 0, 0, 0, 97, 0, 1] ++ [0, 10, 0, 0] ++
    -- the method: its code, its file, its lines, and no variables
    [1, 0, 0, 2, 66, 66] ++ [1, 0] ++ first ++ [0xC2, step] ++ [0]

/-- The module in such a file. -/
def steppingModule (first second : Int32) : Module where
  version := 5
  hasDebug := true
  debugFiles := ["a"]
  types := [.atom .void, .callable .function ⟨[], 0⟩]
  methods := [⟨1, 0, [], [⟨.label, []⟩, ⟨.label, []⟩], some [⟨0, first⟩, ⟨0, second⟩], some []⟩]

theorem encode_iff_of_decode_steppingBytes :
    Module.decode (steppingBytes [0x28, 0, 0] 0x14) = .ok (steppingModule 5 10) ∧
      ∃ b, (steppingModule 5 10).encode = .ok b := by
  have hdecode : Module.decode (steppingBytes [0x28, 0, 0] 0x14) = .ok (steppingModule 5 10) := by
    decide +kernel
  refine ⟨hdecode, (Module.encode_iff_of_decode (by decide) hdecode).1.mpr ?_⟩
  unfold Method.LinesFollow
  decide

/-- Not every module that was loaded can be saved: the steps to a line may have no form as one. -/
theorem exists_decode_not_encode :
    ¬∀ (data : List UInt8) (m : Module), data.length < 2 ^ 31 → Module.decode data = .ok m →
      ∃ b, m.encode = .ok b := by
  intro hall
  have hdecode : Module.decode (steppingBytes [0xF8, 0xFF, 0xFF] 0xFC) =
      .ok (steppingModule 0x1FFFFF 0x200021) := by
    decide +kernel
  have hencode : (steppingModule 0x1FFFFF 0x200021).encode =
      .error (.encode (.debugLineOutOfRange 0x200021)) := rfl
  obtain ⟨b, hb⟩ := hall _ _ (by decide) hdecode
  rw [hencode] at hb
  cases hb

end HashLink
