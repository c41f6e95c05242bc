import UPIMulator.Chiplet.Dependencies
import Mathlib.Algebra.BigOperators.Ring.List

/-!
# Bytes, rows and weights

What a build charges, summed over the chunks of a layer.

* `chunk_totals`: each chunked transfer sub-pipeline moves
  `tokens * hidden_size * d` bytes in each direction and feeds as many
  activation bytes to its linear stages, and the `rows` of every per-chunk
  stage kind sum to `tokens`, whatever the chunk budget.  This rests on the
  plan summing to `tokens` (`sum_chunkPlan`) and on the `max(..., dtype_bytes)`
  floor of `chunk_byte_plan` never firing (`chunkSize_ctx`).
* `weights_on_first_chunk`: the weights are charged to the first chunk of
  each RRAM sub-pipeline only, so a run charges
  `max(layers, 0) * (4 * hidden_size² * d + (1 + E) * hidden_size * intermediate_size * d)`
  weight bytes to its RRAM stages (`sum_rramWeightBytes_layout`).
-/

namespace UPIMulator.Chiplet

/-! ## The chunk plan of a build -/

section Plan

variable (a : BuildArgs) (ht : 1 ≤ a.seqLength * a.batch)
include ht

/-- For at least one token the chunks sum to the tokens. -/
theorem sum_chunkPlan : a.ctx.chunkPlan.sum = a.seqLength * a.batch := by
  simp only [BuildArgs.ctx, Ctx.ofArgs, BuildArgs.chunkPlan, resolveChunkPlan,
    if_neg (show ¬ a.seqLength * a.batch ≤ 0 by omega)]
  split_ifs
  · simp
  · exact sum_evenChunks (le_max_right _ _) (by omega)

theorem one_le_of_mem_chunkPlan {t : Int} (h : t ∈ a.ctx.chunkPlan) : 1 ≤ t := by
  simp only [BuildArgs.ctx, Ctx.ofArgs, BuildArgs.chunkPlan, resolveChunkPlan,
    if_neg (show ¬ a.seqLength * a.batch ≤ 0 by omega)] at h
  split_ifs at h
  · simp only [List.mem_singleton] at h; omega
  · exact (mem_evenChunks (le_max_right _ _) h).1

end Plan

/-- `chunk_byte_plan[c]`, the byte size of chunk `c`. -/
theorem chunkSize_ctx (a : BuildArgs) {c : Nat} (hc : c < a.ctx.numChunks) :
    a.ctx.chunkSize c =
      max (a.ctx.chunkPlan.getD c 0 * a.hiddenSize * max a.dtypeBytes 1) (max a.dtypeBytes 1) := by
  have hc' : c < a.chunkPlan.length := hc
  simp [Ctx.chunkSize, BuildArgs.ctx, Ctx.ofArgs, List.getElem?_eq_getElem hc']

/-- A sum over the chunk indices is a sum over the plan. -/
theorem sum_map_range_getD (g : Int → Int) : ∀ xs : List Int,
    ((List.range xs.length).map fun c => g (xs.getD c 0)).sum = (xs.map g).sum
  | [] => rfl
  | x :: xs => by
    rw [List.length_cons, List.range_succ_eq_map, List.map_cons, List.map_map, List.sum_cons,
      List.map_cons, List.sum_cons, ← sum_map_range_getD g xs]
    rfl

/-! ## Chunk totals -/

/-- The sum, over the chunks `c < n`, of field `f` of the stage at the
position of node `v c`. -/
def chunkTotal (seq : List Stage) (n : Nat) (v : Nat → Node) (f : Stage → Option Int) : Int :=
  ((List.range n).map fun c => ((seq[(v c).index n]?).bind f).getD 0).sum

/-- The totals of layer `l`: `bytes` moved in each direction and fed to the
linear stages by each sub-pipeline, and `tokens` rows for each per-chunk
stage kind. -/
def ChunkTotals (seq : List Stage) (n l : Nat) (tokens bytes : Int) : Prop :=
  (∀ p : Proj,
    chunkTotal seq n (.stage l (.transferToRram p)) Stage.bytes = bytes ∧
    chunkTotal seq n (.stage l (.transferToDigital p)) Stage.bytes = bytes ∧
    chunkTotal seq n (.stage l (.projRram p)) Stage.activationBytes = bytes ∧
    chunkTotal seq n (.stage l (.projRram p)) Stage.rows = tokens) ∧
  chunkTotal seq n (.stage l .moeTransferToRram) Stage.bytes = bytes ∧
  chunkTotal seq n (.stage l .moeTransferToDigital) Stage.bytes = bytes ∧
  chunkTotal seq n (.stage l .moe) Stage.activationBytes = bytes ∧
  ∀ r ∈ [Role.attnScore, .softmax, .attnMix, .postAttention, .moeGating, .moeMerge, .postprocess],
    chunkTotal seq n (.stage l r) Stage.rows = tokens

section Totals

variable (a : BuildArgs) {L l : Nat} (hl : l < L)
include hl

theorem chunkTotal_layout (r : Role) (f : Stage → Option Int) :
    chunkTotal (layout a.ctx L) a.ctx.numChunks (.stage l r) f =
      ((List.range a.ctx.numChunks).map fun c => (f (stageAt a.ctx (.stage l r c))).getD 0).sum := by
  refine congrArg List.sum (List.map_congr_left fun c hc => ?_)
  rw [getElem?_layout a.ctx (v := .stage l r c) (mem_layoutNodes.mpr ⟨hl, List.mem_range.mp hc⟩),
    Option.some_bind]

variable (ht : 1 ≤ a.seqLength * a.batch)
include ht

/-- Chunk sizes sum to `tokens * hidden_size * d`: every chunk holds a token,
so the floor of `chunk_byte_plan` never fires. -/
theorem chunkTotal_chunkSize (hh : 1 ≤ a.hiddenSize) (r : Role) (f : Stage → Option Int)
    (hf : ∀ c, f (stageAt a.ctx (.stage l r c)) = some (a.ctx.chunkSize c)) :
    chunkTotal (layout a.ctx L) a.ctx.numChunks (.stage l r) f =
      a.seqLength * a.batch * a.hiddenSize * max a.dtypeBytes 1 := by
  have hd : 1 ≤ max a.dtypeBytes 1 := le_max_right _ _
  rw [chunkTotal_layout a hl]
  simp only [hf, Option.getD_some]
  rw [List.map_congr_left fun c hc => chunkSize_ctx a (List.mem_range.mp hc)]
  rw [show a.ctx.numChunks = a.ctx.chunkPlan.length from rfl]
  refine (sum_map_range_getD (fun t => max (t * a.hiddenSize * max a.dtypeBytes 1)
    (max a.dtypeBytes 1)) _).trans ?_
  rw [List.map_congr_left fun t ht' => max_eq_left
    (show max a.dtypeBytes 1 ≤ t * a.hiddenSize * max a.dtypeBytes 1 from ?_)]
  · rw [List.map_congr_left fun t _ => Int.mul_assoc t _ _, List.sum_map_mul_right, List.map_id',
      sum_chunkPlan a ht, ← Int.mul_assoc]
  · have htp := one_le_of_mem_chunkPlan a ht ht'
    have h1 : 1 * 1 ≤ t * a.hiddenSize := Int.mul_le_mul htp hh (by omega) (by omega)
    have h2 := Int.mul_le_mul_of_nonneg_right h1 (show 0 ≤ max a.dtypeBytes 1 by omega)
    omega

/-- The rows of a per-chunk stage kind sum to `tokens`. -/
theorem chunkTotal_rows (r : Role)
    (hf : ∀ c, (stageAt a.ctx (.stage l r c)).rows = some (a.ctx.chunkPlan.getD c 0)) :
    chunkTotal (layout a.ctx L) a.ctx.numChunks (.stage l r) Stage.rows = a.seqLength * a.batch := by
  rw [chunkTotal_layout a hl]
  simp only [hf, Option.getD_some]
  rw [show a.ctx.numChunks = a.ctx.chunkPlan.length from rfl]
  exact (sum_map_range_getD (fun t => t) _).trans (by rw [List.map_id', sum_chunkPlan a ht])

end Totals

/-- The totals of every layer of every build that returns, for at least one
token and `hidden_size ≥ 1`. -/
theorem chunk_totals {a : BuildArgs} {seq : List Stage} (h : buildMoeSequence a = .ok seq)
    (ht : 1 ≤ a.seqLength * a.batch) (hh : 1 ≤ a.hiddenSize) {l : Nat} (hl : l < a.layers.toNat) :
    ChunkTotals seq a.ctx.numChunks l (a.seqLength * a.batch)
      (a.seqLength * a.batch * a.hiddenSize * max a.dtypeBytes 1) := by
  obtain rfl := eq_layout_of_buildMoeSequence h
  refine ⟨fun p => ⟨chunkTotal_chunkSize a hl ht hh _ _ fun _ => rfl,
      chunkTotal_chunkSize a hl ht hh _ _ fun _ => rfl,
      chunkTotal_chunkSize a hl ht hh _ _ fun _ => rfl, chunkTotal_rows a hl ht _ fun _ => rfl⟩,
    chunkTotal_chunkSize a hl ht hh _ _ fun _ => rfl, chunkTotal_chunkSize a hl ht hh _ _ fun _ => rfl,
    chunkTotal_chunkSize a hl ht hh _ _ fun _ => rfl, ?_⟩
  simp only [List.mem_cons, List.mem_singleton, List.not_mem_nil, or_false]
  rintro r (rfl | rfl | rfl | rfl | rfl | rfl | rfl) <;> exact chunkTotal_rows a hl ht _ fun _ => rfl

theorem chunk_totals_two_chunks :
    ChunkTotals (layout twoChunkArgs.ctx 1) twoChunkArgs.ctx.numChunks 0 2 2 :=
  chunk_totals buildMoeSequence_twoChunkArgs (by decide) (by decide) (by decide)

/-! ## Weight residency -/

/-- The weight bytes a stage charges to RRAM: the `weight_bytes` of an
`rram_linear` stage, and those of a `moe_linear` stage together with those of
its expert sub-records. -/
def Stage.rramWeightBytes (s : Stage) : Int :=
  match s.type with
  | .rramLinear => s.weightBytes.getD 0
  | .moeLinear => s.weightBytes.getD 0 + ((s.experts.getD []).map Expert.weightBytes).sum
  | _ => 0

/-- The weights of a build with `L` layers of `n` chunks and `E` experts,
projection weights `P` and expert weights `X`: on every chunk the
`rram_linear` stage of each projection, the `moe_linear` stage and each of
its `E` expert sub-records carry their weights on chunk `0` and nothing on
the others, and the RRAM stages are charged `L * (4 * P + (1 + E) * X)` bytes
in all. -/
def WeightResidency (seq : List Stage) (n L E : Nat) (P X : Int) : Prop :=
  0 < P ∧ 0 < X ∧
  (∀ l < L, ∀ c < n,
    (∀ p : Proj, (seq[(Node.stage l (.projRram p) c).index n]?).map
      (fun s => (s.type, s.weightBytes)) = some (.rramLinear, some (if c = 0 then P else 0))) ∧
    (seq[(Node.stage l .moe c).index n]?).map (fun s => (s.type, s.weightBytes)) =
      some (.moeLinear, some (if c = 0 then X else 0)) ∧
    ((seq[(Node.stage l .moe c).index n]?).bind Stage.experts).map (List.map Expert.weightBytes) =
      some (List.replicate E (if c = 0 then X else 0))) ∧
  (seq.map Stage.rramWeightBytes).sum = L * (4 * P + (1 + E) * X)

/-- The weight bytes the stage of a role charges on chunk `0`. -/
def Role.firstChunkWeight (ctx : Ctx) : Role → Int
  | .projRram _ => ctx.projectionWeightBytes
  | .moe => (1 + ctx.numExperts.toNat) * ctx.expertWeightBytes
  | _ => 0

@[simp] theorem rramWeightBytes_embed (ctx : Ctx) : (stageAt ctx .embed).rramWeightBytes = 0 := rfl

/-- Every expert sub-record of chunk `c` carries the expert weights on chunk
`0` and nothing after. -/
theorem weightBytes_chunkExperts (ctx : Ctx) (l c : Nat) :
    ((expertsTemplate ctx l).map (chunkExpert ctx c)).map Expert.weightBytes =
      List.replicate ctx.numExperts.toNat (if c = 0 then ctx.expertWeightBytes else 0) := by
  simp only [expertsTemplate, chunkExpert, List.map_map, Function.comp_def, List.map_const',
    List.length_range]

/-- Each stage charges its role's weights on chunk `0` and nothing after. -/
@[simp] theorem rramWeightBytes_stageAt (ctx : Ctx) (l : Nat) (r : Role) (c : Nat) :
    (stageAt ctx (.stage l r c)).rramWeightBytes = if c = 0 then r.firstChunkWeight ctx else 0 := by
  cases r
  case moe =>
    simp only [Stage.rramWeightBytes, stageAt, Node.record, moeLinearStage, Option.getD_some,
      weightBytes_chunkExperts, List.sum_replicate, nsmul_eq_mul, Role.firstChunkWeight]
    split_ifs <;> simp only [Int.add_mul, Int.one_mul, Int.mul_zero, Int.add_zero]
  all_goals simp [Stage.rramWeightBytes, stageAt, Node.record, projTransferToRram, projRram,
    projTransferToDigital, attnScoreStage, softmaxStage, attnMixStage, postAttentionStage,
    moeGatingStage, moeTransferToRram, moeTransferToDigital, moeMergeStage, postprocessStage,
    Role.firstChunkWeight]

/-- A charge on chunk `0` only is charged once over `n ≥ 1` chunks. -/
theorem sum_range_ite_zero (g : Int) {n : Nat} (hn : 0 < n) :
    ((List.range n).map fun c => if c = 0 then g else 0).sum = g := by
  obtain ⟨m, rfl⟩ : ∃ m, n = m + 1 := ⟨n - 1, by omega⟩
  simp [List.range_succ_eq_map, Function.comp_def]

section Weights

variable (ctx : Ctx) (hn : 0 < ctx.numChunks)
include hn

theorem sum_rramWeightBytes_chunkNodes (l : Nat) (r : Role) :
    ((chunkNodes ctx.numChunks l r).map fun v => (stageAt ctx v).rramWeightBytes).sum =
      r.firstChunkWeight ctx := by
  rw [chunkNodes, List.map_map]
  exact (congrArg List.sum (List.map_congr_left fun c _ => rramWeightBytes_stageAt ctx l r c)).trans
    (sum_range_ite_zero _ hn)

theorem sum_rramWeightBytes_tripleNodes (l : Nat) (r₁ r₂ r₃ : Role) :
    ((tripleNodes ctx.numChunks l r₁ r₂ r₃).map fun v => (stageAt ctx v).rramWeightBytes).sum =
      r₁.firstChunkWeight ctx + r₂.firstChunkWeight ctx + r₃.firstChunkWeight ctx := by
  rw [tripleNodes, List.flatMap_def, List.map_flatten, List.sum_flatten, List.map_map, List.map_map]
  refine (congrArg List.sum (List.map_congr_left fun c _ => ?_)).trans (sum_range_ite_zero _ hn)
  simp only [Function.comp, List.map_cons, List.map_nil, List.sum_cons, List.sum_nil,
    rramWeightBytes_stageAt]
  split_ifs <;> simp [Int.add_assoc]

/-- Each layer charges four projections' and `1 + E` experts' weights. -/
theorem sum_rramWeightBytes_layerNodes (l : Nat) :
    ((layerNodes ctx.numChunks l).map fun v => (stageAt ctx v).rramWeightBytes).sum =
      4 * ctx.projectionWeightBytes + (1 + ctx.numExperts.toNat) * ctx.expertWeightBytes := by
  simp only [layerNodes, projNodes, List.map_append, List.sum_append,
    sum_rramWeightBytes_chunkNodes ctx hn, sum_rramWeightBytes_tripleNodes ctx hn,
    Role.firstChunkWeight]
  omega

/-- A build of `L` layers charges `L` layers' weights to its RRAM stages. -/
theorem sum_rramWeightBytes_layout (L : Nat) :
    ((layout ctx L).map Stage.rramWeightBytes).sum =
      L * (4 * ctx.projectionWeightBytes + (1 + ctx.numExperts.toNat) * ctx.expertWeightBytes) := by
  simp only [layout, layoutNodes, List.map_cons, List.sum_cons, List.flatMap_def, List.map_flatten,
    List.sum_flatten, List.map_map, Function.comp_def, sum_rramWeightBytes_layerNodes ctx hn,
    List.map_const', List.length_range, List.sum_replicate, nsmul_eq_mul, rramWeightBytes_embed,
    Int.zero_add]

end Weights

/-- The weights of every build that returns, for `hidden_size ≥ 1` and
`intermediate_size ≥ 1`. -/
theorem weights_on_first_chunk {a : BuildArgs} {seq : List Stage} (h : buildMoeSequence a = .ok seq)
    (hh : 1 ≤ a.hiddenSize) (hi : 1 ≤ a.intermediateSize) :
    WeightResidency seq a.ctx.numChunks a.layers.toNat a.numExperts.toNat
      (a.hiddenSize * a.hiddenSize * max a.dtypeBytes 1)
      (a.hiddenSize * a.intermediateSize * max a.dtypeBytes 1) := by
  obtain rfl := eq_layout_of_buildMoeSequence h
  have hd : 0 < max a.dtypeBytes 1 := lt_of_lt_of_le Int.zero_lt_one (le_max_right _ _)
  refine ⟨Int.mul_pos (Int.mul_pos hh hh) hd, Int.mul_pos (Int.mul_pos hh hi) hd,
    fun l hl c hc => ?_, sum_rramWeightBytes_layout a.ctx (numChunks_ctx_pos a) _⟩
  have hv : ∀ r, Node.stage l r c ∈ layoutNodes a.ctx.numChunks a.layers.toNat :=
    fun r => mem_layoutNodes.mpr ⟨hl, hc⟩
  refine ⟨fun p => ?_, ?_, ?_⟩ <;> rw [getElem?_layout _ (hv _)]
  · rfl
  · rfl
  · exact congrArg some (weightBytes_chunkExperts a.ctx l c)

theorem weights_on_first_chunk_two_chunks :
    WeightResidency (layout twoChunkArgs.ctx 1) twoChunkArgs.ctx.numChunks 1 1 1 1 :=
  weights_on_first_chunk buildMoeSequence_twoChunkArgs (by decide) (by decide)

/-- The two-chunk arguments with `layers = -1`, for which `range(layers)` is
empty. -/
def negativeLayersArgs : BuildArgs := { twoChunkArgs with layers := -1 }

/-- With `layers = -1` the build returns only the `embed` stage, which charges
no weights, not `layers * (...)` of them. -/
theorem weights_negative_layers :
    ∃ seq, buildMoeSequence negativeLayersArgs = .ok seq ∧
      (seq.map Stage.rramWeightBytes).sum ≠ negativeLayersArgs.layers *
        (4 * (negativeLayersArgs.hiddenSize * negativeLayersArgs.hiddenSize *
            max negativeLayersArgs.dtypeBytes 1) +
          (1 + negativeLayersArgs.numExperts) * (negativeLayersArgs.hiddenSize *
            negativeLayersArgs.intermediateSize * max negativeLayersArgs.dtypeBytes 1)) := by
  refine ⟨_, (buildMoeSequence_eq _).trans (if_neg (by decide)), ?_⟩
  rw [sum_rramWeightBytes_layout _ (numChunks_ctx_pos _)]
  decide

end UPIMulator.Chiplet
