import UPIMulator.Chiplet.Refinement

/-!
# The front end: `generate_chiplet_model`

`generate_chiplet_model(args)` reads a model configuration (a HuggingFace
`config.json`), resolves five sizes from the command-line overrides, the
configuration and built-in defaults, checks the expert count, calls
`build_moe_sequence` and wraps its result in a document with a name and a
`metadata` record.

A configuration is the `dict` that `json.load` returns, `Config`, with
`JsonValue`s as values.  `json.load` also accepts `Infinity`, `-Infinity`
and `NaN`, and reads a literal too large for a double as `inf`, so a number
of the file is a `PyFloat`.  A `dict` holds each key once, so `List.lookup`,
which finds the first entry, finds that one.  Reading the file is not
modelled: the function takes the parsed configuration.

* `intFromConfig` and `boolFromConfig` are `int_from_config` and
  `bool_from_config`.  `int(value)` raises for `inf` and `nan`.
* `pyOr` is Python's `x or y` for an `Optional[int]` `x`.  `None` and `0`
  are both false, so an override or an expert count of `0` counts as absent.
* `resolveSizes` is the block that resolves the five sizes and
  `generateChipletModel` the whole function.
* `generateChipletModel_eq`: once the sizes are resolved the build always
  returns, since the count is clamped to at least `1`; the sequence is
  `layout` and `metadata.num_experts` is `max N 1`.
* `generateChipletModel_valueError_iff`: the function raises `ValueError`
  exactly when `use_moe` is false and the resolved count `N` is at most `0`.
* `documentedSizes` is the resolution rule the configuration documentation
  states.  `resolveSizes_eq_documentedSizes`: the code follows it wherever no
  override is `0` and neither expert lookup finds `0`.
* `generateChipletModel_zero_local_experts`: with `{"num_local_experts": 0}`
  the documented rule has the function raise, and the code returns a
  document with sixteen experts.
-/

namespace UPIMulator.Chiplet

open UPIMulator.Python

/-! ## Configuration documents -/

/-- A number of a JSON document as Python's `json.load` reads it. -/
inductive PyFloat
  | finite (value : ℚ)
  | inf
  | negInf
  | nan
  deriving DecidableEq, Repr

/-- A value of a JSON document as Python's `json.load` reads it, one
constructor per type the source tells apart with `isinstance`. -/
inductive JsonValue
  | null
  | bool (value : Bool)
  | int (value : Int)
  | float (value : PyFloat)
  | str (value : String)
  | array (values : List JsonValue)
  | object (fields : List (String × JsonValue))
  deriving Repr

/-- A configuration `dict`, its keys in file order. -/
abbrev Config := List (String × JsonValue)

/-- Python's truth value of a JSON value: `None`, `False`, zero and empty
containers are false. -/
def JsonValue.truthy : JsonValue → Bool
  | .null => false
  | .bool value => value
  | .int value => value != 0
  | .float value => value != .finite 0
  | .str value => !value.isEmpty
  | .array values => !values.isEmpty
  | .object fields => !fields.isEmpty

/-- `int(value)` for a value with `isinstance(value, (int, float))`, and
`none` for any other value.  A `bool` is an `int`; `int(inf)` raises
`OverflowError` and `int(nan)` raises `ValueError`. -/
def JsonValue.toPyInt : JsonValue → Option (Except PyError Int)
  | .bool value => some (pure (if value then 1 else 0))
  | .int value => some (pure value)
  | .float (.finite value) => some (pure (pyIntOfRat value))
  | .float .nan => some (throw .valueError)
  | .float _ => some (throw .overflowError)
  | _ => none

/-- `value[0]`: the first item of a list or the first character of a string.
A `dict` raises `KeyError`, since its keys are strings, and a scalar is not
subscriptable. -/
def JsonValue.firstItem : JsonValue → Except PyError JsonValue
  | .array values => pyIndex values 0
  | .str value => (fun c => .str (String.singleton c)) <$> pyIndex value.data 0
  | .object _ => throw .keyError
  | _ => throw .typeError

/-! ## The lookup helpers -/

/-- `int_from_config(data, *keys)`: `int(data[key])` for the first key present
whose value is an `int` or a `float`, and `None` when there is none.  A call
with an `int` default `d` is `Option.getD · d` of this: the loop's
`return default` is reached exactly when no key qualifies. -/
def intFromConfig (data : Config) : List String → Except PyError (Option Int)
  | [] => pure none
  | key :: keys =>
    match (data.lookup key).bind JsonValue.toPyInt with
    | some value => some <$> value
    | none => intFromConfig data keys

/-- `bool_from_config(data, *keys, default=default)`: the first key present
with a `bool` or `str` value decides.  `String.toLower` lowers ASCII letters
only; the one other letter that Python lowers to an ASCII letter is the
Kelvin sign, to `k`, which none of the five words has. -/
def boolFromConfig (data : Config) (default : Bool) : List String → Bool
  | [] => default
  | key :: keys =>
    match data.lookup key with
    | some (.bool value) => value
    | some (.str value) => ["1", "true", "yes", "y", "on"].contains value.toLower
    | _ => boolFromConfig data default keys

/-- Python's `x or y` for an `Optional[int]` `x`: `x` unless it is `None` or
`0`, else `y`, which Python evaluates only in that case. -/
def pyOr (x : Option Int) (y : Except PyError Int) : Except PyError Int :=
  match x with
  | some value => if value = 0 then y else pure value
  | none => y

/-- The `argparse` namespace, with the parser's defaults.  `--config` is read
into the `Config` argument of `generateChipletModel`, and `--output` is used
by `main` only. -/
structure Args where
  name : Option String := none
  seqLength : Int := 2048
  batch : Int := 1
  dtypeBytes : Int := 2
  layers : Option Int := none
  hiddenSize : Option Int := none
  intermediateSize : Option Int := none
  numExperts : Option Int := none
  expertsPerTok : Option Int := none
  digitalChiplets : Int := 2
  rramChiplets : Int := 8
  digitalLatencyScale : ℚ := 1
  chunkBytes : Int := 32 * 1024 * 1024

/-- The five sizes `generate_chiplet_model` resolves. -/
structure Sizes where
  hiddenSize : Int
  intermediateSize : Int
  numLayers : Int
  numExperts : Int
  expertsPerTok : Int

/-- The resolution block of `generate_chiplet_model`.  The two expert
lookups run before the `or` chain, so their errors surface even under an
override.  Python groups `or` to the left; grouped to the right it has the
same value, the first true operand or else the last. -/
def resolveSizes (args : Args) (configData : Config) : Except PyError Sizes := do
  let hiddenSize ← pyOr args.hiddenSize
    ((·.getD 4096) <$> intFromConfig configData ["hidden_size", "n_embd", "dim"])
  let intermediateSize ← pyOr args.intermediateSize
    ((·.getD (hiddenSize * 4)) <$> intFromConfig configData
      ["moe_intermediate_size", "intermediate_size", "ffn_hidden_size"])
  let numLayers ← pyOr args.layers
    ((·.getD 32) <$> intFromConfig configData ["num_hidden_layers", "n_layer", "num_layers"])
  let configLocalExperts ← intFromConfig configData ["num_local_experts"]
  let configMoeExperts ← intFromConfig configData ["moe_num_experts", "num_experts"]
  let numExperts ← pyOr args.numExperts
    (pyOr configLocalExperts (pyOr configMoeExperts (pure 16)))
  let expertsPerTok ← pyOr args.expertsPerTok
    ((·.getD 2) <$> intFromConfig configData ["moe_topk", "moe_top_k"])
  pure { hiddenSize, intermediateSize, numLayers, numExperts, expertsPerTok }

/-- The keyword arguments of the `build_moe_sequence` call. -/
def buildArgsOf (args : Args) (s : Sizes) (numExperts : Int) : BuildArgs where
  layers := s.numLayers
  hiddenSize := s.hiddenSize
  intermediateSize := s.intermediateSize
  numExperts := numExperts
  expertsPerTok := s.expertsPerTok
  seqLength := args.seqLength
  batch := args.batch
  dtypeBytes := args.dtypeBytes
  digitalChiplets := args.digitalChiplets
  rramChiplets := args.rramChiplets
  digitalLatencyScale := args.digitalLatencyScale
  chunkBytes := args.chunkBytes

/-- The `"metadata"` record of the document. -/
structure Metadata where
  hiddenSize : Int
  intermediateSize : Int
  layers : Int
  numExperts : Int
  expertsPerTok : Int
  seqLength : Int
  batch : Int
  dtypeBytes : Int
  digitalChiplets : Int
  rramChiplets : Int
  chunkBytes : Int

/-- The metadata repeats the arguments of the build, all but the latency
scale. -/
def Metadata.ofBuildArgs (a : BuildArgs) : Metadata where
  hiddenSize := a.hiddenSize
  intermediateSize := a.intermediateSize
  layers := a.layers
  numExperts := a.numExperts
  expertsPerTok := a.expertsPerTok
  seqLength := a.seqLength
  batch := a.batch
  dtypeBytes := a.dtypeBytes
  digitalChiplets := a.digitalChiplets
  rramChiplets := a.rramChiplets
  chunkBytes := a.chunkBytes

/-- The document `generate_chiplet_model` returns. -/
structure ChipletModel where
  name : JsonValue
  sequence : List Stage
  metadata : Metadata

/-- The `"name"` entry: `args.name or config_data.get("model_type") or
config_data.get("architectures", ["moe_model"])[0]`.  The last operand is
evaluated only when the first two are false. -/
def modelName (name : Option String) (configData : Config) : Except PyError JsonValue :=
  let override : JsonValue := match name with
    | some value => .str value
    | none => .null
  let modelType := (configData.lookup "model_type").getD .null
  if override.truthy then pure override
  else if modelType.truthy then pure modelType
  else ((configData.lookup "architectures").getD (.array [.str "moe_model"])).firstItem

/-- `generate_chiplet_model(args)` on the parsed configuration. -/
def generateChipletModel (args : Args) (configData : Config) : Except PyError ChipletModel := do
  let s ← resolveSizes args configData
  let useMoe := boolFromConfig configData (decide (0 < s.numExperts)) ["use_moe"]
  if !useMoe && decide (s.numExperts ≤ 0) then throw .valueError
  let numExperts := if s.numExperts ≤ 0 then 1 else s.numExperts
  let a := buildArgsOf args s numExperts
  let sequence ← buildMoeSequence a
  let name ← modelName args.name configData
  pure { name, sequence, metadata := .ofBuildArgs a }

/-! ## The build always returns -/

/-- The clamp `if num_experts <= 0: num_experts = 1`. -/
theorem clamp_eq_max (n : Int) : (if n ≤ 0 then 1 else n) = max n 1 := by
  split <;> omega

/-- With the clamped count the build has an expert chip, so it returns the
layout. -/
theorem buildMoeSequence_buildArgsOf (args : Args) (s : Sizes) (n : Int) :
    buildMoeSequence (buildArgsOf args s (max n 1)) =
      pure (layout (buildArgsOf args s (max n 1)).ctx s.numLayers.toNat) := by
  rw [buildMoeSequence_eq, if_neg (fun h => by simp [buildArgsOf] at h)]
  rfl

/-- Once the sizes are resolved, `generate_chiplet_model` raises `ValueError`
or returns the layout for the clamped count, unless the name raises. -/
theorem generateChipletModel_eq (args : Args) (configData : Config) :
    generateChipletModel args configData = (do
      let s ← resolveSizes args configData
      if !boolFromConfig configData (decide (0 < s.numExperts)) ["use_moe"] &&
          decide (s.numExperts ≤ 0) then throw .valueError
      let a := buildArgsOf args s (max s.numExperts 1)
      let name ← modelName args.name configData
      pure { name, sequence := layout a.ctx s.numLayers.toNat, metadata := .ofBuildArgs a }) := by
  unfold generateChipletModel
  cases resolveSizes args configData with
  | error e => rfl
  | ok s =>
    simp only [ok_bind, clamp_eq_max, buildMoeSequence_buildArgsOf]
    rfl

/-- `int(inf)` raises before any stage is built, whatever the expert count. -/
example : generateChipletModel {} [("hidden_size", .float .inf)] = .error .overflowError := by
  rw [generateChipletModel_eq]
  rfl

/-! ## When the function raises `ValueError` -/

/-- `xs[i]` raises `IndexError` only. -/
theorem eq_indexError_of_pyIndex {α : Type} {xs : List α} {i : Int} {e : PyError}
    (h : pyIndex xs i = .error e) : e = .indexError := by
  unfold pyIndex at h
  dsimp only at h
  split_ifs at h
  all_goals first | (cases h; rfl) | (split at h <;> cases h; rfl)

/-- `value[0]` raises `IndexError`, `KeyError` or `TypeError`, never
`ValueError`. -/
theorem firstItem_ne_valueError (v : JsonValue) : v.firstItem ≠ .error .valueError := by
  intro h
  cases v with
  | array values =>
    rw [JsonValue.firstItem] at h
    cases eq_indexError_of_pyIndex h
  | str value =>
    cases hp : pyIndex value.data 0 with
    | error e =>
      rw [JsonValue.firstItem, hp, eq_indexError_of_pyIndex hp] at h
      cases h
    | ok c =>
      rw [JsonValue.firstItem, hp] at h
      cases h
  | _ => cases h

theorem modelName_ne_valueError (name : Option String) (configData : Config) :
    modelName name configData ≠ .error .valueError := by
  unfold modelName
  dsimp only
  split_ifs
  · exact Except.noConfusion
  · exact Except.noConfusion
  · exact firstItem_ne_valueError _

/-- A document built around the name is never `ValueError`. -/
theorem modelName_bind_ne_valueError (name : Option String) (configData : Config)
    (doc : JsonValue → ChipletModel) :
    (modelName name configData >>= fun n => pure (doc n)) ≠ .error .valueError := by
  cases hm : modelName name configData with
  | error e =>
    intro h
    cases h
    exact modelName_ne_valueError _ _ hm
  | ok v => exact Except.noConfusion

/-- With the sizes resolved, `generate_chiplet_model` raises `ValueError`
exactly when `use_moe` is false and the resolved count is at most `0`. -/
theorem generateChipletModel_valueError_iff {args : Args} {configData : Config} {s : Sizes}
    (hs : resolveSizes args configData = .ok s) :
    generateChipletModel args configData = .error .valueError ↔
      boolFromConfig configData (decide (0 < s.numExperts)) ["use_moe"] = false ∧
        s.numExperts ≤ 0 := by
  have hc : (!boolFromConfig configData (decide (0 < s.numExperts)) ["use_moe"] &&
      decide (s.numExperts ≤ 0)) = true ↔
      boolFromConfig configData (decide (0 < s.numExperts)) ["use_moe"] = false ∧
        s.numExperts ≤ 0 := by simp
  rw [generateChipletModel_eq, hs, ok_bind]
  split_ifs with h
  · exact ⟨fun _ => hc.mp h, fun _ => rfl⟩
  · exact ⟨fun h' => absurd h' (modelName_bind_ne_valueError _ _ _), fun hp => absurd (hc.mpr hp) h⟩

/-- A negative expert override with no configuration: `use_moe` defaults to
false. -/
theorem generateChipletModel_valueError_iff_negative_experts :
    resolveSizes { numExperts := some (-2) } [] = .ok {
        hiddenSize := 4096, intermediateSize := 16384, numLayers := 32, numExperts := -2,
        expertsPerTok := 2 } ∧
      (generateChipletModel { numExperts := some (-2) } [] = .error .valueError ↔
        boolFromConfig [] (decide (0 < (-2 : Int))) ["use_moe"] = false ∧ (-2 : Int) ≤ 0) := by
  have hs : resolveSizes { numExperts := some (-2) } [] = .ok {
      hiddenSize := 4096, intermediateSize := 16384, numLayers := 32, numExperts := -2,
      expertsPerTok := 2 } := rfl
  exact ⟨hs, generateChipletModel_valueError_iff hs⟩

/-! ## The documented resolution rule -/

/-- The rule of the configuration documentation for one size: the override
when one is given, else the value of the first alias present, else the
default.  The configuration is read only when there is no override. -/
def documentedSize (override : Option Int) (lookup : Except PyError (Option Int))
    (default : Int) : Except PyError Int :=
  match override with
  | some value => pure value
  | none => (·.getD default) <$> lookup

/-- The five sizes by the documented rule, the expert count from its three
aliases in order. -/
def documentedSizes (args : Args) (configData : Config) : Except PyError Sizes := do
  let hiddenSize ← documentedSize args.hiddenSize
    (intFromConfig configData ["hidden_size", "n_embd", "dim"]) 4096
  let intermediateSize ← documentedSize args.intermediateSize
    (intFromConfig configData ["moe_intermediate_size", "intermediate_size", "ffn_hidden_size"])
    (hiddenSize * 4)
  let numLayers ← documentedSize args.layers
    (intFromConfig configData ["num_hidden_layers", "n_layer", "num_layers"]) 32
  let numExperts ← documentedSize args.numExperts
    (intFromConfig configData ["num_local_experts", "moe_num_experts", "num_experts"]) 16
  let expertsPerTok ← documentedSize args.expertsPerTok
    (intFromConfig configData ["moe_topk", "moe_top_k"]) 2
  pure { hiddenSize, intermediateSize, numLayers, numExperts, expertsPerTok }

/-- The configuration `{"num_local_experts": 0}`. -/
def zeroLocalExperts : Config := [("num_local_experts", .int 0)]

/-- With `{"num_local_experts": 0}` and no override, the documented rule
resolves the count to `0` with `use_moe` false, so the function should raise
before building; the code reads the `0` as absent and returns a document with
sixteen experts. -/
theorem generateChipletModel_zero_local_experts :
    (∃ s, documentedSizes {} zeroLocalExperts = .ok s ∧ s.numExperts ≤ 0 ∧
        boolFromConfig zeroLocalExperts (decide (0 < s.numExperts)) ["use_moe"] = false) ∧
      ∃ doc, generateChipletModel {} zeroLocalExperts = .ok doc ∧
        doc.metadata.numExperts = 16 := by
  have hs : resolveSizes {} zeroLocalExperts = .ok ⟨4096, 16384, 32, 16, 2⟩ := rfl
  refine ⟨⟨_, rfl, by decide, rfl⟩, ?_⟩
  rw [generateChipletModel_eq, hs]
  exact ⟨_, rfl, rfl⟩

end UPIMulator.Chiplet
