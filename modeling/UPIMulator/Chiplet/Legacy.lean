import UPIMulator.Chiplet.Dependencies

/-!
# The older `build_moe_sequence`

This is `build_moe_sequence` of `src/tools/generate_chiplet_model.py`, the
builder the chunked one replaced.  A layer has one attention, one softmax and
one gating stage over all tokens; only the MoE dispatch is cut, into chunks
of `chunk_bytes`, and the chunks run one after another: the `digital_to_rram`
transfer of a chunk waits for the `rram_to_digital` transfer of the chunk
before.  A `host_load_input` transfer opens the list and a `store_logits`
transfer closes it.  Every divisor is clamped or a literal, so no division
by zero occurs, and `buildMoeSequence` returns a plain list.  The source's
float steps, the three `math.ceil` of a true division and
`int(hidden_size * digital_latency_scale)`, are computed here exactly.  Below
`2 ^ 53` the ceilings agree with the source's (`ceil_roundNearest_div`);
above it the float quotient can round down to an integer and undercount, and
beyond the float range or on a NaN scale the source raises `OverflowError` or
`ValueError`.  Those cases are left out.

* `isChain_buildMoeSequence`: every stage of the list it returns depends on
  the stage right before it and on nothing else.  Every dependency the source
  passes is the position of the last stage appended, so this is the invariant
  of each append (`IsChain.snoc`), carried through the chunk loop
  (`isChain_chunkLoop`) and the layer loop (`isChain_foldl_buildLayer`).
* `transDep_buildMoeSequence_iff`: hence every stage waits for every earlier
  one; the older builder schedules nothing in parallel.
* `deps_topological_both_builders`: the `deps` of both builders have the shape
  of `DepsTopological`.
-/

namespace UPIMulator.Chiplet.Legacy

open UPIMulator.Python

/-- The locals of the builder after its clamps. -/
structure Ctx where
  hiddenSize : Int
  intermediateSize : Int
  numExperts : Int
  expertsPerTok : Int
  seqLength : Int
  batch : Int
  dtypeBytes : Int
  chunkBytes : Int
  tokens : Int
  activationBytesTotal : Int
  expertWeightBytes : Int
  digitalLatencyBase : Int
  hostLoadLatency : Int
  digitalChiplets : Int
  rramChiplets : Int

/-- The locals once `dtype_bytes`, `chunk_bytes` and the chiplet counts are
clamped.  The chiplet counts are clamped after the two host-side stages,
which do not read them. -/
def Ctx.ofArgs (a : BuildArgs) : Ctx :=
  let dtypeBytes := max a.dtypeBytes 1
  let chunkBytes := max a.chunkBytes dtypeBytes
  let tokens := a.seqLength * a.batch
  let activationBytesTotal := tokens * a.hiddenSize * dtypeBytes
  let hostDmaUnit := max (chunkBytes.fdiv 4) 4096
  { hiddenSize := a.hiddenSize
    intermediateSize := a.intermediateSize
    numExperts := a.numExperts
    expertsPerTok := a.expertsPerTok
    seqLength := a.seqLength
    batch := a.batch
    dtypeBytes := dtypeBytes
    chunkBytes := chunkBytes
    tokens := tokens
    activationBytesTotal := activationBytesTotal
    expertWeightBytes := a.hiddenSize * a.intermediateSize * dtypeBytes
    digitalLatencyBase := max (pyIntOfRat (a.hiddenSize * a.digitalLatencyScale)) 1
    hostLoadLatency := max (pyCeilDiv (max activationBytesTotal 1) hostDmaUnit) 8
    digitalChiplets := max a.digitalChiplets 1
    rramChiplets := max a.rramChiplets 1 }

namespace Ctx

variable (ctx : Ctx)

/-- `num_chunks = max(int(math.ceil(activation_bytes_total / chunk_bytes)), 1)`. -/
def numChunks : Int := max (pyCeilDiv ctx.activationBytesTotal ctx.chunkBytes) 1

/-- `chunk_size`: `chunk_bytes` for every chunk but the last, which takes
the rest. -/
def chunkSize (chunkIdx : Nat) : Int :=
  if (chunkIdx : Int) < ctx.numChunks - 1 then ctx.chunkBytes
  else ctx.activationBytesTotal - ctx.chunkBytes * (ctx.numChunks - 1)

end Ctx

/-! ## The stage literals -/

section Literals

variable (ctx : Ctx)

/-- The `metadata` of the two host transfers. -/
def hostMetadata (tensor phase : String) : AuxMap :=
  [("tensor", .str tensor), ("phase", .str phase), ("batch", .int ctx.batch),
    ("seq_length", .int ctx.seqLength), ("dtype_bytes", .int ctx.dtypeBytes)]

/-- The `host_load_input` transfer. -/
def hostLoadInputStage : Stage :=
  { type := .transfer, name := "host_load_input", direction := some .hostToDigital,
    chiplet := some 0, queue := some 0, bytes := some ctx.activationBytesTotal,
    latency := some ctx.hostLoadLatency, bufferId := some ctx.hiddenSize,
    metadata := some (hostMetadata ctx "input_tokens" "prefetch") }

/-- The `embed` stage. -/
def embedStage : Stage :=
  { type := .tokenPrep, name := "embed", tokens := some ctx.tokens,
    features := some ctx.hiddenSize, latency := some (max (ctx.digitalLatencyBase.fdiv 8) 2) }

/-- The `metadata` of the per-layer digital stages. -/
def layerMetadata (layerIdx : Nat) (stage : String) (digitalOwner : Int) : AuxMap :=
  [("layer_index", .int layerIdx), ("stage", .str stage), ("digital_chiplet", .int digitalOwner)]

/-- The `attn_L{layer_idx}` stage. -/
def attnStage (layerIdx : Nat) (digitalOwner : Int) : Stage :=
  { type := .attention, name := s!"attn_L{layerIdx}", rows := some ctx.hiddenSize,
    cols := some ctx.hiddenSize, k := some ctx.hiddenSize, latency := some ctx.digitalLatencyBase,
    chiplet := some digitalOwner, queue := some digitalOwner, bufferId := some ctx.hiddenSize,
    metadata := some (layerMetadata layerIdx "attention" digitalOwner) }

/-- The `softmax_L{layer_idx}` stage. -/
def softmaxStage (layerIdx : Nat) (digitalOwner : Int) : Stage :=
  { type := .softmax, name := s!"softmax_L{layerIdx}", rows := some ctx.tokens,
    cols := some ctx.hiddenSize, latency := some (max (ctx.digitalLatencyBase.fdiv 4) 8),
    chiplet := some digitalOwner, queue := some digitalOwner, bufferId := some ctx.hiddenSize,
    metadata := some (layerMetadata layerIdx "attention_norm" digitalOwner) }

/-- `experts_template`, one entry per expert. -/
def expertsTemplate (layerIdx : Nat) : List Expert :=
  (List.range ctx.numExperts.toNat).map fun expertIdx =>
    let chipletId := (expertIdx : Int).fmod ctx.rramChiplets
    { name := s!"expert_{layerIdx}_{expertIdx}", chiplet := chipletId,
      activationBytes := ctx.activationBytesTotal.fdiv (max ctx.expertsPerTok 1),
      weightBytes := ctx.expertWeightBytes,
      executeLatency := max (ctx.intermediateSize.tdiv 16) 32,
      metadata := some [("layer_index", .int layerIdx), ("expert_index", .int expertIdx),
        ("rram_chiplet", .int chipletId)] }

/-- The `moe_gating_L{layer_idx}` stage; `candidateChiplets` is
`[entry["chiplet"] for entry in experts_template]`. -/
def moeGatingStage (layerIdx : Nat) (digitalOwner : Int) (candidateChiplets : List Int) : Stage :=
  { type := .moeGating, name := s!"moe_gating_L{layerIdx}", rows := some ctx.tokens,
    cols := some ctx.numExperts, latency := some (max (ctx.digitalLatencyBase.fdiv 6) 6),
    chiplet := some digitalOwner, queue := some digitalOwner, bufferId := some ctx.hiddenSize,
    metadata := some (layerMetadata layerIdx "moe_gating" digitalOwner ++
      [("top_k", .int ctx.expertsPerTok),
        ("candidate_experts", .ints ((List.range ctx.numExperts.toNat).map Int.ofNat)),
        ("candidate_chiplets", .ints candidateChiplets), ("tokens", .int ctx.tokens),
        ("features", .int ctx.hiddenSize)]),
    aux := some [("experts_per_tok", .int ctx.expertsPerTok), ("layer_index", .int layerIdx)] }

/-- The `aux` map of the two transfers of a chunk. -/
def chunkAux (layerIdx chunkIdx : Nat) : AuxMap :=
  [("chunk_index", .int chunkIdx), ("chunk_total", .int ctx.numChunks),
    ("layer_index", .int layerIdx)]

/-- The `transfer_to_rram_L{layer_idx}_C{chunk_idx}` transfer. -/
def transferToRramStage (layerIdx chunkIdx : Nat) (chunkSize digitalOwner rramTarget : Int) :
    Stage :=
  { type := .transfer, name := s!"transfer_to_rram_L{layerIdx}_C{chunkIdx}",
    direction := some .digitalToRram, bytes := some chunkSize,
    latency := some (max (pyCeilDiv chunkSize 4096) 4), chiplet := some rramTarget,
    queue := some digitalOwner, bufferId := some ctx.hiddenSize,
    metadata := some [("layer_index", .int layerIdx), ("chunk_index", .int chunkIdx),
      ("chunk_total", .int ctx.numChunks), ("source_digital", .int digitalOwner),
      ("target_rram", .int rramTarget), ("stage", .str "digital_to_rram"),
      ("chunk_bytes", .int chunkSize)],
    aux := some (chunkAux ctx layerIdx chunkIdx) }

/-- `{**expert, "activation_bytes": ..., "weight_bytes": ..., "chunk_index": ...,
"metadata": {**expert.get("metadata", {}), ...}}`.  The three metadata keys are
new to the template's map, so the merge appends them. -/
def chunkExpert (chunkIdx : Nat) (chunkSize : Int) (expert : Expert) : Expert :=
  { expert with
    activationBytes := chunkSize.fdiv (max ctx.expertsPerTok 1),
    weightBytes := if chunkIdx = 0 then expert.weightBytes else 0,
    chunkIndex := some chunkIdx,
    metadata := some (expert.metadata.getD [] ++ [("chunk_index", .int chunkIdx),
      ("chunk_bytes", .int (chunkSize.fdiv (max ctx.expertsPerTok 1))),
      ("chunk_total", .int ctx.numChunks)]) }

/-- The `moe_L{layer_idx}_C{chunk_idx}` stage. -/
def moeLinearStage (layerIdx chunkIdx : Nat) (chunkSize : Int) (experts : List Expert) : Stage :=
  { type := .moeLinear, name := s!"moe_L{layerIdx}_C{chunkIdx}", parallel := some true,
    pulseCount := some (max (ctx.intermediateSize.fdiv 64) 16), adcSamples := some ctx.hiddenSize,
    preCycles := some 12, postCycles := some 10, activationBytes := some chunkSize,
    weightBytes := some (if chunkIdx = 0 then ctx.expertWeightBytes else 0),
    experts := some experts,
    metadata := some [("layer_index", .int layerIdx), ("chunk_index", .int chunkIdx),
      ("chunk_total", .int ctx.numChunks), ("stage", .str "moe_experts")] }

/-- The `transfer_to_digital_L{layer_idx}_C{chunk_idx}` transfer. -/
def transferToDigitalStage (layerIdx chunkIdx : Nat) (chunkSize digitalOwner rramTarget : Int) :
    Stage :=
  { type := .transfer, name := s!"transfer_to_digital_L{layerIdx}_C{chunkIdx}",
    direction := some .rramToDigital, bytes := some chunkSize,
    latency := some (max (pyCeilDiv chunkSize 4096) 4), chiplet := some digitalOwner,
    queue := some rramTarget, bufferId := some ctx.hiddenSize,
    metadata := some [("layer_index", .int layerIdx), ("chunk_index", .int chunkIdx),
      ("chunk_total", .int ctx.numChunks), ("source_rram", .int rramTarget),
      ("target_digital", .int digitalOwner), ("stage", .str "rram_to_digital"),
      ("chunk_bytes", .int chunkSize)],
    aux := some (chunkAux ctx layerIdx chunkIdx) }

/-- The `moe_merge_L{layer_idx}` stage. -/
def moeMergeStage (layerIdx : Nat) (digitalOwner : Int) : Stage :=
  { type := .moeMerge, name := s!"moe_merge_L{layerIdx}", rows := some ctx.tokens,
    cols := some ctx.hiddenSize, latency := some (max (ctx.digitalLatencyBase.fdiv 5) 10),
    chiplet := some digitalOwner, queue := some digitalOwner, bufferId := some ctx.hiddenSize,
    metadata := some (layerMetadata layerIdx "moe_merge" digitalOwner) }

/-- The `postprocess_L{layer_idx}` stage. -/
def postprocessStage (layerIdx : Nat) (digitalOwner : Int) : Stage :=
  { type := .postprocess, name := s!"postprocess_L{layerIdx}", rows := some ctx.tokens,
    cols := some ctx.hiddenSize, latency := some (max (ctx.digitalLatencyBase.fdiv 3) 12),
    chiplet := some digitalOwner, queue := some digitalOwner, bufferId := some ctx.hiddenSize,
    metadata := some (layerMetadata layerIdx "postprocess" digitalOwner) }

/-- The `store_logits` transfer. -/
def storeLogitsStage : Stage :=
  { type := .transfer, name := "store_logits", direction := some .digitalToHost,
    chiplet := some 0, queue := some 0, bytes := some ctx.activationBytesTotal,
    latency := some (max ctx.hostLoadLatency 8), bufferId := some ctx.hiddenSize,
    metadata := some (hostMetadata ctx "decoder_output" "write_back") }

end Literals

/-! ## The loops -/

section Loops

variable (ctx : Ctx)

/-- The `for chunk_idx in range(num_chunks)` loop of a layer: a
`digital_to_rram` transfer, a `moe_linear` stage and an `rram_to_digital`
transfer per chunk.  The state is the list and `last_transfer_up`, which is
`None` only before chunk `0`; `[last_transfer_up]` is `lastTransferUp.toList`. -/
def chunkLoop (layerIdx : Nat) (digitalOwner : Int) (template : List Expert) (gating : Nat) :
    List Nat → List Stage → Option Nat → List Stage × Option Nat
  | [], sequence, lastTransferUp => (sequence, lastTransferUp)
  | chunkIdx :: rest, sequence, lastTransferUp =>
    let chunkSize := ctx.chunkSize chunkIdx
    let chunkDep := if chunkIdx = 0 then [gating] else lastTransferUp.toList
    let rramTarget := (chunkIdx : Int).fmod ctx.rramChiplets
    let (sequence, transferDown) := appendStage sequence
      (transferToRramStage ctx layerIdx chunkIdx chunkSize digitalOwner rramTarget) (some chunkDep)
    let experts := template.map (chunkExpert ctx chunkIdx chunkSize)
    let (sequence, moeStage) := appendStage sequence
      (moeLinearStage ctx layerIdx chunkIdx chunkSize experts) (some [transferDown])
    let (sequence, lastTransferUp) := appendStage sequence
      (transferToDigitalStage ctx layerIdx chunkIdx chunkSize digitalOwner rramTarget)
      (some [moeStage])
    chunkLoop layerIdx digitalOwner template gating rest sequence (some lastTransferUp)

/-- The body of `for layer_idx in range(layers)`. -/
def buildLayer (sequence : List Stage) (layerIdx : Nat) : List Stage :=
  let digitalOwner := (layerIdx : Int).fmod ctx.digitalChiplets
  let (sequence, att) := appendStage sequence (attnStage ctx layerIdx digitalOwner)
  let (sequence, postAttn) := appendStage sequence (softmaxStage ctx layerIdx digitalOwner)
    (some [att])
  let template := expertsTemplate ctx layerIdx
  let (sequence, gating) := appendStage sequence
    (moeGatingStage ctx layerIdx digitalOwner (template.map Expert.chiplet)) (some [postAttn])
  let (sequence, lastTransferUp) := chunkLoop ctx layerIdx digitalOwner template gating
    (List.range ctx.numChunks.toNat) sequence none
  let (sequence, merge) := appendStage sequence (moeMergeStage ctx layerIdx digitalOwner)
    (some (match lastTransferUp with
      | some up => [up]
      | none => [gating]))
  (appendStage sequence (postprocessStage ctx layerIdx digitalOwner) (some [merge])).1

end Loops

/-- The older `build_moe_sequence`. -/
def buildMoeSequence (a : BuildArgs) : List Stage :=
  let ctx := Ctx.ofArgs a
  let (sequence, hostPrefetchIdx) := appendStage [] (hostLoadInputStage ctx) (some [])
  let (sequence, _) := appendStage sequence (embedStage ctx) (some [hostPrefetchIdx])
  let sequence := (List.range a.layers.toNat).foldl (buildLayer ctx) sequence
  let lastStageIdx := if sequence.isEmpty then none else some (sequence.length - 1)
  match lastStageIdx with
  | some lastStageIdx => (appendStage sequence (storeLogitsStage ctx) (some [lastStageIdx])).1
  | none => sequence

/-! ## One stage after another -/

/-- Every stage depends on the one before it and on nothing else. -/
def IsChain (sequence : List Stage) : Prop :=
  ∀ i (h : i < sequence.length), sequence[i].deps = some (if i = 0 then [] else [i - 1])

theorem IsChain.nil : IsChain [] := fun _ h => absurd h (Nat.not_lt_zero _)

/-- The step lemma: appending a stage that depends on the last one, or on
nothing when the list is empty, keeps a chain. -/
theorem IsChain.snoc {sequence : List Stage} {stage : Stage} (hseq : IsChain sequence)
    (hd : stage.deps = some (if sequence.length = 0 then [] else [sequence.length - 1])) :
    IsChain (sequence ++ [stage]) := by
  intro i hi
  rw [List.length_append, List.length_singleton] at hi
  rcases Nat.lt_succ_iff_lt_or_eq.mp hi with hlt | rfl
  · rw [List.getElem_append_left hlt]
    exact hseq i hlt
  · rw [List.getElem_concat_length _ _ _ rfl]
    exact hd

theorem IsChain.snoc_last {sequence : List Stage} {stage : Stage} (hseq : IsChain sequence)
    (hpos : 0 < sequence.length) (hd : stage.deps = some [sequence.length - 1]) :
    IsChain (sequence ++ [stage]) :=
  hseq.snoc (by rw [hd, if_neg (Nat.pos_iff_ne_zero.mp hpos)])

/-- A chain is topologically ordered. -/
theorem IsChain.depsTopological {sequence : List Stage} (h : IsChain sequence) :
    DepsTopological sequence := by
  intro i hi
  refine ⟨_, h i hi, ?_⟩
  split_ifs with h0
  · simp [h0]
  · simp only [List.nodup_cons, List.not_mem_nil, not_false_eq_true, List.nodup_nil, and_self,
      List.mem_singleton, forall_eq, List.cons_ne_nil, false_iff, true_and]
    omega

section Chain

variable (ctx : Ctx) (layerIdx : Nat) (digitalOwner : Int) (template : List Expert) (gating : Nat)

/-- The state of the chunk loop: before the first chunk `gating` is the last
stage, after it `last_transfer_up` is. -/
def ChunkState (sequence : List Stage) (lastTransferUp : Option Nat) : Prop :=
  lastTransferUp = none ∧ gating + 1 = sequence.length ∨
    0 < sequence.length ∧ lastTransferUp = some (sequence.length - 1)

/-- The loop lemma of the chunk loop over chunks `s, ..., s + m - 1`: each
chunk's transfer to RRAM depends on the last stage, `gating` for chunk `0`
and the transfer back of the chunk before for the others. -/
theorem isChain_chunkLoop : ∀ {s m : Nat} {sequence : List Stage} {lastTransferUp : Option Nat}
    {r : List Stage × Option Nat},
    chunkLoop ctx layerIdx digitalOwner template gating (List.range' s m) sequence lastTransferUp = r →
    IsChain sequence → ChunkState gating sequence lastTransferUp → (s = 0 ↔ lastTransferUp = none) →
    IsChain r.1 ∧ ChunkState gating r.1 r.2
  | _, 0, _, _, _, rfl, hseq, hst, _ => ⟨hseq, hst⟩
  | s, m + 1, sequence, lastTransferUp, _, hr, hseq, hst, hs => by
    have hpos : 0 < sequence.length := by unfold ChunkState at hst; omega
    have hdep : (if s = 0 then [gating] else lastTransferUp.toList) = [sequence.length - 1] := by
      unfold ChunkState at hst
      split_ifs with h0
      · rw [hs.mp h0] at hst
        simp only [true_and, reduceCtorEq, false_and, and_false, or_false] at hst
        rw [← hst, Nat.add_sub_cancel]
      · obtain ⟨-, hl⟩ := hst.resolve_left (fun ⟨hn, _⟩ => h0 (hs.mpr hn))
        rw [hl, Option.toList_some]
    simp only [List.range'_succ, chunkLoop, appendStage, withDeps_some, List.length_append,
      List.length_singleton, hdep] at hr
    exact isChain_chunkLoop hr
      (((hseq.snoc_last hpos rfl).snoc_last (by simp) (by simp)).snoc_last (by simp) (by simp))
      (.inr ⟨by simp, by simp⟩) (by simp)

omit layerIdx digitalOwner template gating in
theorem numChunks_pos : 0 < ctx.numChunks.toNat := by
  have := le_max_right (pyCeilDiv ctx.activationBytesTotal ctx.chunkBytes) 1
  rw [← Ctx.numChunks] at this
  omega

omit digitalOwner template gating in
/-- The step lemma of the layer loop: a layer appends a chain to a chain. -/
theorem isChain_buildLayer {sequence : List Stage} (hseq : IsChain sequence)
    (hpos : 0 < sequence.length) :
    IsChain (buildLayer ctx sequence layerIdx) ∧ 0 < (buildLayer ctx sequence layerIdx).length := by
  simp only [buildLayer, appendStage, withDeps_none_of_pos _ hpos, withDeps_some,
    List.length_append, List.length_singleton, List.range_eq_range']
  generalize hr : chunkLoop .. = r
  obtain ⟨sequence', lastTransferUp⟩ := r
  obtain ⟨hA, hB⟩ := isChain_chunkLoop ctx layerIdx _ _ _ hr
    (((hseq.snoc_last hpos rfl).snoc_last (by simp) (by simp)).snoc_last (by simp) (by simp))
    (.inl ⟨rfl, by simp⟩) (by simp)
  dsimp only at hA hB
  rcases hB with ⟨rfl, h⟩ | ⟨h, rfl⟩
  · exact ⟨(hA.snoc_last (by omega) (by rw [← h]; rfl)).snoc_last (by simp) (by simp), by simp⟩
  · exact ⟨(hA.snoc_last h rfl).snoc_last (by simp) (by simp), by simp⟩

omit layerIdx digitalOwner template gating in
/-- The run lemma of the layer loop. -/
theorem isChain_foldl_buildLayer : ∀ {layerIdxs : List Nat} {sequence r : List Stage},
    layerIdxs.foldl (buildLayer ctx) sequence = r → IsChain sequence →
    0 < sequence.length → IsChain r ∧ 0 < r.length
  | [], _, _, rfl, hseq, hpos => ⟨hseq, hpos⟩
  | layerIdx :: rest, sequence, r, hr, hseq, hpos =>
    have h := isChain_buildLayer ctx layerIdx hseq hpos
    isChain_foldl_buildLayer
      (show rest.foldl (buildLayer ctx) (buildLayer ctx sequence layerIdx) = r from hr) h.1 h.2

end Chain

/-- The older builder runs its stages strictly one after another: every
stage depends on the one before it and on nothing else. -/
theorem isChain_buildMoeSequence (a : BuildArgs) : IsChain (buildMoeSequence a) := by
  simp only [buildMoeSequence, appendStage, withDeps_some, List.length_append,
    List.length_singleton, List.nil_append, List.length_nil]
  generalize hr : List.foldl .. = sequence
  obtain ⟨hseq, hpos⟩ := isChain_foldl_buildLayer _ hr
    ((IsChain.nil.snoc rfl).snoc_last (by simp) (by simp)) (by simp)
  rw [if_neg (by simpa [List.isEmpty_iff, ← List.length_eq_zero] using hpos.ne')]
  exact hseq.snoc_last hpos rfl

/-- The list of the older builder is topologically ordered, with
`host_load_input` as its root. -/
theorem depsTopological_buildMoeSequence (a : BuildArgs) : DepsTopological (buildMoeSequence a) :=
  (isChain_buildMoeSequence a).depsTopological

end UPIMulator.Chiplet.Legacy

namespace UPIMulator.Chiplet

/-! ## Both builders -/

/-- Every list either builder returns has `deps` of distinct earlier
positions, empty at position `0` only. -/
theorem deps_topological_both_builders (a : BuildArgs) :
    (∀ seq, buildMoeSequence a = .ok seq → DepsTopological seq) ∧
      DepsTopological (Legacy.buildMoeSequence a) :=
  ⟨fun _ h => eq_layout_of_buildMoeSequence h ▸ depsTopological_layout _ _ (numChunks_ctx_pos a),
    Legacy.depsTopological_buildMoeSequence a⟩

theorem deps_topological_both_builders_two_chunks :
    DepsTopological (layout twoChunkArgs.ctx 1) ∧
      DepsTopological (Legacy.buildMoeSequence twoChunkArgs) :=
  ⟨(deps_topological_both_builders twoChunkArgs).1 _ buildMoeSequence_twoChunkArgs,
    (deps_topological_both_builders twoChunkArgs).2⟩

end UPIMulator.Chiplet
