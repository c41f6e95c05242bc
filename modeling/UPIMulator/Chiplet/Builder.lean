import UPIMulator.Chiplet.Stage
import UPIMulator.Chiplet.ChunkPlan

/-!
# The chunked `build_moe_sequence`

This is `build_moe_sequence` of `src/golang/uPIMulator/tools/generate_chiplet_model.py`,
the builder that cuts every activation tensor into the chunks of
`build_chunk_plan` and emits the stages of one chunk at a time.

The Python function keeps its state in local variables and in closures.
`Ctx` holds the locals the nested helpers read, with the values they have
when the helpers run; `digital_chiplets` and `rram_chiplets` are read after
their clamps, which come before every call of `chunk_digital_owner`.  The
stage `dict` literals are the stage builders below, one per literal, so the
loops read as the source's loops:

* `appendChunkedStage` is `append_chunked_stage`, with `chunkDepArg` the
  dependency list it computes for one chunk;
* `addProjection` is the nested `add_projection`, three stages per chunk;
* `moeDispatch` is the per-chunk MoE loop of the layer body, the one place a
  `%` can divide by zero (`len(expert_chips)` is `0` when `num_experts ≤ 0`);
* `buildLayer` is the body of `for layer_idx in range(layers)` and
  `buildLayers` the loop.

Every `for ... in enumerate(chunk_plan)` loop is a recursion over the plan
with the chunk index carried along.

The source's two float steps, `int(hidden_size * digital_latency_scale)` and
the transfer latencies `math.ceil(chunk_size / 4096)`, are computed exactly;
they reach only the `latency` fields.  The ceilings agree with the source's
below `2 ^ 53` (`ceil_roundNearest_div`).  The float product can round up to
an integer that the exact product lies just below, and beyond the float range,
or with a NaN scale, `int` raises; those cases are left out.
-/

namespace UPIMulator.Chiplet

open UPIMulator.Python

/-! ## `append_chunked_stage` -/

/-- A dependency argument of `append_chunked_stage`: `None`, one position,
or a list of positions. -/
inductive DepArg
  | none
  | one (idx : Nat)
  | many (idxs : List Nat)
  deriving DecidableEq, Repr

/-- `_normalize_deps`. -/
def normalizeDeps : DepArg → List Nat
  | .none => []
  | .one idx => [idx]
  | .many idxs => idxs

/-- The `dep_arg` that `append_chunked_stage` passes to `append_stage` for
chunk `idx`, `prevIdx` being the position of the chunk before. -/
def chunkDepArg (baseList : List Nat) (perChunkDep : Option (List DepArg))
    (enforceSequential : Bool) (idx : Nat) (prevIdx : Option Nat) : Option (List Nat) :=
  let deps := match perChunkDep with
    | some pcd => (pcd[idx]?.map normalizeDeps).getD []
    | none => []
  let deps := if idx == 0 && deps.isEmpty && !baseList.isEmpty then deps ++ baseList else deps
  let deps := match enforceSequential, prevIdx with
    | true, some prev => deps ++ [prev]
    | _, _ => deps
  if deps.isEmpty then none else some deps

/-- The `for idx, token_count in enumerate(chunk_plan)` loop of
`append_chunked_stage`. -/
def appendChunkedStage.loop (stageBuilder : Nat → Int → Stage) (baseList : List Nat)
    (perChunkDep : Option (List DepArg)) (enforceSequential : Bool) :
    Nat → List Int → List Stage → List Nat → Option Nat → List Stage × List Nat
  | _, [], sequence, chunkIds, _ => (sequence, chunkIds)
  | idx, tokenCount :: rest, sequence, chunkIds, prevIdx =>
    let (sequence, stageIdx) := appendStage sequence (stageBuilder idx tokenCount)
      (chunkDepArg baseList perChunkDep enforceSequential idx prevIdx)
    loop stageBuilder baseList perChunkDep enforceSequential (idx + 1) rest sequence
      (chunkIds ++ [stageIdx]) (some stageIdx)

/-- `append_chunked_stage`: one stage per chunk, and their positions. -/
def appendChunkedStage (sequence : List Stage) (stageBuilder : Nat → Int → Stage)
    (chunkPlan : List Int) (baseDep : DepArg) (perChunkDep : Option (List DepArg))
    (enforceSequential : Bool) : List Stage × List Nat :=
  if chunkPlan.isEmpty then (sequence, []) else
    appendChunkedStage.loop stageBuilder (normalizeDeps baseDep) perChunkDep
      enforceSequential 0 chunkPlan sequence [] none

/-! ## The locals of `build_moe_sequence` -/

/-- The locals that the nested helpers and lambdas of `build_moe_sequence`
read. -/
structure Ctx where
  hiddenSize : Int
  intermediateSize : Int
  numExperts : Int
  expertsPerTok : Int
  dtypeBytes : Int
  tokens : Int
  activationBytesTotal : Int
  projectionWeightBytes : Int
  expertWeightBytes : Int
  chunkPlan : List Int
  chunkBytePlan : List Int
  digitalLatencyBase : Int
  digitalChiplets : Int
  rramChiplets : Int
  expertChips : List Int

/-- The locals once the chunk plan is known: the clamps, the byte totals, the
byte size of each chunk and `expert_chips`. -/
def Ctx.ofArgs (a : BuildArgs) (chunkPlan : List Int) : Ctx :=
  let dtypeBytes := max a.dtypeBytes 1
  let tokens := a.seqLength * a.batch
  let rramChiplets := max a.rramChiplets 1
  { hiddenSize := a.hiddenSize
    intermediateSize := a.intermediateSize
    numExperts := a.numExperts
    expertsPerTok := a.expertsPerTok
    dtypeBytes := dtypeBytes
    tokens := tokens
    activationBytesTotal := tokens * a.hiddenSize * dtypeBytes
    projectionWeightBytes := a.hiddenSize * a.hiddenSize * dtypeBytes
    expertWeightBytes := a.hiddenSize * a.intermediateSize * dtypeBytes
    chunkPlan := chunkPlan
    chunkBytePlan := chunkPlan.map fun chunkTokens =>
      max (chunkTokens * a.hiddenSize * dtypeBytes) dtypeBytes
    digitalLatencyBase := max (pyIntOfRat (a.hiddenSize * a.digitalLatencyScale)) 1
    digitalChiplets := max a.digitalChiplets 1
    rramChiplets := rramChiplets
    expertChips := (List.range a.numExperts.toNat).map fun (chipIdx : Nat) =>
      (chipIdx : Int).fmod rramChiplets }

namespace Ctx

variable (ctx : Ctx)

/-- `num_chunks = len(chunk_plan)`. -/
def numChunks : Nat := ctx.chunkPlan.length

@[simp] theorem length_chunkPlan : ctx.chunkPlan.length = ctx.numChunks := rfl

/-- The nested `chunk_digital_owner(layer_idx, chunk_idx)`. -/
def chunkDigitalOwner (layerIdx chunkIdx : Nat) : Int :=
  if ctx.digitalChiplets ≤ 0 then 0
  else ((layerIdx + chunkIdx : Nat) : Int).fmod ctx.digitalChiplets

/-- `chunk_byte_plan[chunk_idx] if chunk_idx < len(chunk_byte_plan) else
chunk_byte_plan[-1]`.  Both lists have one entry per chunk, so the `else`
branch is never taken. -/
def chunkSize (chunkIdx : Nat) : Int :=
  match ctx.chunkBytePlan[chunkIdx]? with
  | some size => size
  | none => ctx.chunkBytePlan.getLast?.getD 0

/-- The `latency` of a transfer of `size` bytes. -/
def transferLatency (size : Int) : Int := max (pyCeilDiv size 4096) 4

end Ctx

/-! ## The stage literals -/

section Literals

variable (ctx : Ctx)

/-- The `embed` stage. -/
def embedStage : Stage :=
  { type := .tokenPrep, name := "embed", tokens := some ctx.tokens,
    features := some ctx.hiddenSize, latency := some (max (ctx.digitalLatencyBase.fdiv 8) 2),
    hostLoadKind := some "kv_cache" }

/-- The `aux` map of the three stages of a projection chunk. -/
def projAux (projLabel : String) (chunkIdx : Nat) : AuxMap :=
  [("chunk_index", .int chunkIdx), ("chunk_total", .int ctx.numChunks),
    ("projection", .str projLabel)]

/-- The `digital_to_rram` transfer of `add_projection`. -/
def projTransferToRram (projLabel : String) (layerIdx chunkIdx : Nat) (rramId : Int) :
    Stage :=
  { type := .transfer, name := s!"{projLabel}_transfer_to_rram_L{layerIdx}_C{chunkIdx}",
    direction := some .digitalToRram, bytes := some (ctx.chunkSize chunkIdx),
    latency := some (Ctx.transferLatency (ctx.chunkSize chunkIdx)),
    aux := some (projAux ctx projLabel chunkIdx), chiplet := some rramId,
    queue := some (ctx.chunkDigitalOwner layerIdx chunkIdx) }

/-- The `rram_linear` stage of `add_projection`; the weights are charged to
chunk `0` only. -/
def projRram (projLabel : String) (layerIdx chunkIdx : Nat) (chunkTokens weightBytes rramId : Int) :
    Stage :=
  { type := .rramLinear, name := s!"{projLabel}_proj_rram_L{layerIdx}_C{chunkIdx}",
    rows := some chunkTokens, cols := some ctx.hiddenSize, k := some ctx.hiddenSize,
    activationBytes := some (ctx.chunkSize chunkIdx),
    weightBytes := some (if chunkIdx = 0 then weightBytes else 0),
    pulseCount := some (max (ctx.hiddenSize.fdiv 64) 16), adcSamples := some ctx.hiddenSize,
    preCycles := some 12, postCycles := some 10,
    aux := some (projAux ctx projLabel chunkIdx), chiplet := some rramId }

/-- The `rram_to_digital` transfer of `add_projection`. -/
def projTransferToDigital (projLabel : String) (layerIdx chunkIdx : Nat) (rramId : Int) :
    Stage :=
  { type := .transfer, name := s!"{projLabel}_transfer_to_digital_L{layerIdx}_C{chunkIdx}",
    direction := some .rramToDigital, bytes := some (ctx.chunkSize chunkIdx),
    latency := some (Ctx.transferLatency (ctx.chunkSize chunkIdx)),
    aux := some (projAux ctx projLabel chunkIdx),
    chiplet := some (ctx.chunkDigitalOwner layerIdx chunkIdx), queue := some rramId }

/-- The `metadata` map of the attention-block stages. -/
def chunkMetadata (layerIdx : Nat) (stage : String) (chunkIdx : Nat) (chunkTokens : Int) :
    AuxMap :=
  [("layer_index", .int layerIdx), ("stage", .str stage), ("chunk_index", .int chunkIdx),
    ("chunk_tokens", .int chunkTokens), ("chunk_total", .int ctx.numChunks)]

/-- The lambda of the `attn_score` stages. -/
def attnScoreStage (layerIdx chunkIdx : Nat) (chunkTokens : Int) : Stage :=
  { type := .attention, name := s!"attn_score_L{layerIdx}_C{chunkIdx}",
    rows := some chunkTokens, cols := some ctx.hiddenSize, k := some ctx.hiddenSize,
    latency := some ctx.digitalLatencyBase,
    chiplet := some (ctx.chunkDigitalOwner layerIdx chunkIdx),
    queue := some (ctx.chunkDigitalOwner layerIdx chunkIdx),
    weightBytes := some (chunkTokens * ctx.hiddenSize * ctx.dtypeBytes),
    metadata := some (chunkMetadata ctx layerIdx "attention_score" chunkIdx chunkTokens) }

/-- The lambda of the `softmax` stages. -/
def softmaxStage (layerIdx chunkIdx : Nat) (chunkTokens : Int) : Stage :=
  { type := .softmax, name := s!"softmax_L{layerIdx}_C{chunkIdx}",
    rows := some chunkTokens, cols := some ctx.hiddenSize,
    latency := some (max (ctx.digitalLatencyBase.fdiv 4) 8),
    chiplet := some (ctx.chunkDigitalOwner layerIdx chunkIdx),
    queue := some (ctx.chunkDigitalOwner layerIdx chunkIdx),
    nonlinearKind := some "softmax",
    metadata := some (chunkMetadata ctx layerIdx "attention_norm" chunkIdx chunkTokens) }

/-- The lambda of the `attn_mix` stages. -/
def attnMixStage (layerIdx chunkIdx : Nat) (chunkTokens : Int) : Stage :=
  { type := .attention, name := s!"attn_mix_L{layerIdx}_C{chunkIdx}",
    rows := some chunkTokens, cols := some ctx.hiddenSize, k := some ctx.hiddenSize,
    latency := some ctx.digitalLatencyBase,
    chiplet := some (ctx.chunkDigitalOwner layerIdx chunkIdx),
    queue := some (ctx.chunkDigitalOwner layerIdx chunkIdx),
    weightBytes := some (chunkTokens * ctx.hiddenSize * ctx.dtypeBytes),
    metadata := some (chunkMetadata ctx layerIdx "attention_mix" chunkIdx chunkTokens) }

/-- The lambda of the `post_attention` stages. -/
def postAttentionStage (layerIdx chunkIdx : Nat) (chunkTokens : Int) : Stage :=
  { type := .postprocess, name := s!"post_attention_L{layerIdx}_C{chunkIdx}",
    rows := some chunkTokens, cols := some ctx.hiddenSize,
    latency := some (max (ctx.digitalLatencyBase.fdiv 5) 10),
    chiplet := some (ctx.chunkDigitalOwner layerIdx chunkIdx),
    queue := some (ctx.chunkDigitalOwner layerIdx chunkIdx),
    nonlinearKind := some "residual",
    metadata := some (chunkMetadata ctx layerIdx "post_attention" chunkIdx chunkTokens) }

/-- The lambda of the `moe_gating` stages. -/
def moeGatingStage (layerIdx chunkIdx : Nat) (chunkTokens : Int) : Stage :=
  { type := .moeGating, name := s!"moe_gating_L{layerIdx}_C{chunkIdx}",
    rows := some chunkTokens, cols := some ctx.expertsPerTok, k := some ctx.numExperts,
    latency := some (max (ctx.digitalLatencyBase.fdiv 6) 6),
    aux := some [("experts_per_tok", .int ctx.expertsPerTok), ("chunk_index", .int chunkIdx)],
    chiplet := some (ctx.chunkDigitalOwner layerIdx chunkIdx),
    queue := some (ctx.chunkDigitalOwner layerIdx chunkIdx),
    randomizeExperts := some true }

/-- The `aux` map of the three stages of a MoE chunk. -/
def moeAux (chunkIdx : Nat) : AuxMap :=
  [("chunk_index", .int chunkIdx), ("chunk_total", .int ctx.numChunks),
    ("experts_per_tok", .int ctx.expertsPerTok)]

/-- The `digital_to_rram` transfer of a MoE chunk. -/
def moeTransferToRram (layerIdx chunkIdx : Nat) (targetRram : Int) : Stage :=
  { type := .transfer, name := s!"moe_transfer_to_rram_L{layerIdx}_C{chunkIdx}",
    direction := some .digitalToRram, bytes := some (ctx.chunkSize chunkIdx),
    latency := some (Ctx.transferLatency (ctx.chunkSize chunkIdx)),
    aux := some (moeAux ctx chunkIdx), chiplet := some targetRram,
    queue := some (ctx.chunkDigitalOwner layerIdx chunkIdx) }

/-- The entries of `experts_template`, one per expert. -/
def expertsTemplate (layerIdx : Nat) : List Expert :=
  (List.range ctx.numExperts.toNat).map fun expertIdx =>
    { name := s!"expert_{layerIdx}_{expertIdx}", chiplet := ctx.expertChips.getD expertIdx 0,
      activationBytes := ctx.activationBytesTotal.fdiv (max ctx.expertsPerTok 1),
      weightBytes := ctx.expertWeightBytes,
      executeLatency := max (ctx.intermediateSize.tdiv 16) 32 }

/-- `{**expert, "activation_bytes": ..., "weight_bytes": ..., "chunk_index": ...}`:
a template entry specialised to one chunk. -/
def chunkExpert (chunkIdx : Nat) (expert : Expert) : Expert :=
  { expert with
    activationBytes := (ctx.chunkSize chunkIdx).fdiv (max ctx.expertsPerTok 1),
    weightBytes := if chunkIdx = 0 then expert.weightBytes else 0,
    chunkIndex := some chunkIdx }

/-- The `moe_linear` stage of a MoE chunk. -/
def moeLinearStage (layerIdx chunkIdx : Nat) (experts : List Expert) : Stage :=
  { type := .moeLinear, name := s!"moe_L{layerIdx}_C{chunkIdx}", parallel := some true,
    pulseCount := some (max (ctx.intermediateSize.fdiv 64) 16),
    adcSamples := some ctx.hiddenSize, preCycles := some 12, postCycles := some 10,
    activationBytes := some (ctx.chunkSize chunkIdx),
    weightBytes := some (if chunkIdx = 0 then ctx.expertWeightBytes else 0),
    experts := some experts }

/-- The `rram_to_digital` transfer of a MoE chunk. -/
def moeTransferToDigital (layerIdx chunkIdx : Nat) (queue : Int) : Stage :=
  { type := .transfer, name := s!"moe_transfer_to_digital_L{layerIdx}_C{chunkIdx}",
    direction := some .rramToDigital, bytes := some (ctx.chunkSize chunkIdx),
    latency := some (Ctx.transferLatency (ctx.chunkSize chunkIdx)),
    aux := some (moeAux ctx chunkIdx),
    chiplet := some (ctx.chunkDigitalOwner layerIdx chunkIdx), queue := some queue }

/-- The lambda of the `moe_merge` stages. -/
def moeMergeStage (layerIdx chunkIdx : Nat) (chunkTokens : Int) : Stage :=
  { type := .moeMerge, name := s!"moe_merge_L{layerIdx}_C{chunkIdx}",
    rows := some chunkTokens, cols := some ctx.hiddenSize,
    latency := some (max (ctx.digitalLatencyBase.fdiv 5) 10) }

/-- The lambda of the `postprocess` stages. -/
def postprocessStage (layerIdx chunkIdx : Nat) (chunkTokens : Int) : Stage :=
  { type := .postprocess, name := s!"postprocess_L{layerIdx}_C{chunkIdx}",
    rows := some chunkTokens, cols := some ctx.hiddenSize,
    latency := some (max (ctx.digitalLatencyBase.fdiv 3) 12),
    nonlinearKind := some "residual", hostStoreKind := some "kv_cache",
    chiplet := some (ctx.chunkDigitalOwner layerIdx chunkIdx),
    queue := some (ctx.chunkDigitalOwner layerIdx chunkIdx) }

end Literals

/-! ## `add_projection` and the MoE loop -/

section Loops

variable (ctx : Ctx)

/-- The chunk loop of `add_projection`: a `digital_to_rram` transfer, an
`rram_linear` stage and an `rram_to_digital` transfer per chunk, each
depending on the stage before. -/
def addProjection.loop (projLabel : String) (layerIdx : Nat) (weightBytes rramId : Int) :
    Nat → List Int → List Stage → Nat → List Stage × Nat
  | _, [], sequence, lastIdx => (sequence, lastIdx)
  | chunkIdx, chunkTokens :: rest, sequence, lastIdx =>
    let (sequence, down) := appendStage sequence
      (projTransferToRram ctx projLabel layerIdx chunkIdx rramId) (some [lastIdx])
    let (sequence, linear) := appendStage sequence
      (projRram ctx projLabel layerIdx chunkIdx chunkTokens weightBytes rramId) (some [down])
    let (sequence, up) := appendStage sequence
      (projTransferToDigital ctx projLabel layerIdx chunkIdx rramId) (some [linear])
    loop projLabel layerIdx weightBytes rramId (chunkIdx + 1) rest sequence up

/-- `add_projection(proj_label, layer_idx, depends_idx, weight_bytes,
digital_id, rram_id)`.  The source never reads `digital_id`. -/
def addProjection (sequence : List Stage) (projLabel : String) (layerIdx dependsIdx : Nat)
    (weightBytes _digitalId rramId : Int) : List Stage × Nat :=
  addProjection.loop ctx projLabel layerIdx weightBytes rramId 0 ctx.chunkPlan sequence dependsIdx

/-- `expert_chips[(chunk_idx * experts_per_tok) % len(expert_chips)]`, which
raises `ZeroDivisionError` when `expert_chips` is empty. -/
def moeTarget (chunkIdx : Nat) : Except PyError Int := do
  pyIndex ctx.expertChips (← pyMod (chunkIdx * ctx.expertsPerTok) ctx.expertChips.length)

/-- The MoE dispatch loop of the layer body.  The state is the list,
`moe_prev` and `transfer_up_chunks`. -/
def moeDispatch (layerIdx : Nat) (gatingChunks : List Nat) (template : List Expert) :
    Nat → List Int → List Stage → Option Nat → List Nat →
      Except PyError (List Stage × Option Nat × List Nat)
  | _, [], sequence, moePrev, transferUpChunks => pure (sequence, moePrev, transferUpChunks)
  | chunkIdx, _ :: rest, sequence, moePrev, transferUpChunks => do
    let targetRram ← moeTarget ctx chunkIdx
    let downDeps := (gatingChunks[chunkIdx]?.map ([·])).getD [] ++ (moePrev.map ([·])).getD []
    let (sequence, transferDown) := appendStage sequence
      (moeTransferToRram ctx layerIdx chunkIdx targetRram)
      (if downDeps.isEmpty then none else some downDeps)
    let experts := template.map (chunkExpert ctx chunkIdx)
    let (sequence, moeStage) := appendStage sequence
      (moeLinearStage ctx layerIdx chunkIdx experts) (some [transferDown])
    let queue ← moeTarget ctx chunkIdx
    let (sequence, transferUp) := appendStage sequence
      (moeTransferToDigital ctx layerIdx chunkIdx queue) (some [moeStage])
    moeDispatch layerIdx gatingChunks template (chunkIdx + 1) rest sequence (some transferUp)
      (transferUpChunks ++ [transferUp])

end Loops

/-! ## The layer loop -/

/-- The body of `for layer_idx in range(layers)`: the new list and the new
`prev_stage`. -/
def buildLayer (ctx : Ctx) (embedStageIdx layerIdx : Nat) (sequence : List Stage)
    (prevStage : Nat) : Except PyError (List Stage × Nat) := do
  let digitalId := (layerIdx : Int).fmod ctx.digitalChiplets
  let rramBase := ((layerIdx : Int) * 4).fmod ctx.rramChiplets
  let qRram := (rramBase + 0).fmod ctx.rramChiplets
  let kRram := (rramBase + 1).fmod ctx.rramChiplets
  let vRram := (rramBase + 2).fmod ctx.rramChiplets
  let (sequence, qDone) := addProjection ctx sequence "q" layerIdx
    (if layerIdx = 0 then embedStageIdx else prevStage) ctx.projectionWeightBytes digitalId qRram
  let (sequence, kDone) := addProjection ctx sequence "k" layerIdx qDone
    ctx.projectionWeightBytes digitalId kRram
  let (sequence, vDone) := addProjection ctx sequence "v" layerIdx kDone
    ctx.projectionWeightBytes digitalId vRram
  let (sequence, attnScoreChunks) := appendChunkedStage sequence (attnScoreStage ctx layerIdx)
    ctx.chunkPlan (.many [qDone, kDone]) none false
  let (sequence, postAttnChunks) := appendChunkedStage sequence (softmaxStage ctx layerIdx)
    ctx.chunkPlan .none (some (attnScoreChunks.map .one)) false
  let mixDeps := (List.range ctx.chunkPlan.length).map fun idx =>
    DepArg.many ((postAttnChunks[idx]?.map ([·])).getD [] ++ [vDone])
  let (sequence, attnMixChunks) := appendChunkedStage sequence (attnMixStage ctx layerIdx)
    ctx.chunkPlan .none (some mixDeps) false
  let attnMixTail ← match attnMixChunks.getLast?, postAttnChunks.getLast? with
    | some tail, _ => pure tail
    | none, some tail => pure tail
    | none, none => pyIndex attnScoreChunks (-1)
  let oRram := (rramBase + 3).fmod ctx.rramChiplets
  let (sequence, oDone) := addProjection ctx sequence "o" layerIdx attnMixTail
    ctx.projectionWeightBytes digitalId oRram
  let (sequence, postAttentionChunks) := appendChunkedStage sequence
    (postAttentionStage ctx layerIdx) ctx.chunkPlan (.one oDone) none false
  let (sequence, gatingChunks) := appendChunkedStage sequence (moeGatingStage ctx layerIdx)
    ctx.chunkPlan .none (some (postAttentionChunks.map .one)) true
  let (sequence, moePrev, transferUpChunks) ← moeDispatch ctx layerIdx gatingChunks
    (expertsTemplate ctx layerIdx) 0 ctx.chunkPlan sequence none []
  let (sequence, mergeChunks) := appendChunkedStage sequence (moeMergeStage ctx layerIdx)
    ctx.chunkPlan .none (some (transferUpChunks.map .one)) true
  let (sequence, postprocessChunks) := appendChunkedStage sequence
    (postprocessStage ctx layerIdx) ctx.chunkPlan .none (some (mergeChunks.map .one)) true
  let prevStage := match postprocessChunks.getLast?, mergeChunks.getLast?,
      transferUpChunks.getLast? with
    | some last, _, _ => last
    | none, some last, _ => last
    | none, none, some last => last
    | none, none, none => moePrev.getD oDone
  pure (sequence, prevStage)

/-- `for layer_idx in range(layers)`, threading `prev_stage`. -/
def buildLayers (ctx : Ctx) (embedStageIdx : Nat) :
    List Nat → List Stage → Nat → Except PyError (List Stage)
  | [], sequence, _ => pure sequence
  | layerIdx :: rest, sequence, prevStage => do
    let (sequence, prevStage) ← buildLayer ctx embedStageIdx layerIdx sequence prevStage
    buildLayers ctx embedStageIdx rest sequence prevStage

/-- The chunk plan `build_moe_sequence` uses: `[tokens]` when the planner
returns none. -/
def resolveChunkPlan (tokens : Int) (chunkPlan : List Int) : List Int :=
  if chunkPlan.isEmpty then [tokens] else chunkPlan

/-- `build_moe_sequence`. -/
def buildMoeSequence (a : BuildArgs) : Except PyError (List Stage) := do
  let dtypeBytes := max a.dtypeBytes 1
  let chunkBytes := max a.chunkBytes dtypeBytes
  let tokens := a.seqLength * a.batch
  let chunkPlan ← buildChunkPlan tokens a.hiddenSize dtypeBytes chunkBytes
  let ctx := Ctx.ofArgs a (resolveChunkPlan tokens chunkPlan)
  let (sequence, embedStageIdx) := appendStage [] (embedStage ctx) (some [])
  buildLayers ctx embedStageIdx (List.range a.layers.toNat) sequence embedStageIdx

end UPIMulator.Chiplet
