import UPIMulator.Chiplet.Layout

/-!
# The builder computes the layout

`buildMoeSequence_eq` is the refinement theorem: for every argument tuple,
`build_moe_sequence` raises `ZeroDivisionError` exactly when some layer is
built and `num_experts ≤ 0`, and otherwise returns `layout`.

The proof goes helper by helper.  Each loop gets one lemma that says what it
appends and what it returns (`appendChunkedStage_eq`, `addProjection_eq`,
`moeDispatch_eq`), proved by induction on the chunks still to go.  The layer
body then appends `layerNodes` (`buildLayer_eq`), and the layer loop appends
one layer after the other (`buildLayers_eq`).
-/

namespace UPIMulator.Chiplet

open UPIMulator.Python

/-- The `deps` that `append_stage` stores at position `len > 0`. -/
def resolveDeps (len : Nat) : Option (List Nat) → List Nat
  | none => [len - 1]
  | some ds => ds

theorem withDeps_eq {len : Nat} (h : 0 < len) (stage : Stage) (d : Option (List Nat)) :
    withDeps len stage d = { stage with deps := some (resolveDeps len d) } := by
  cases d with
  | none => exact withDeps_none_of_pos stage h
  | some ds => rfl

/-- The position of the chunk before chunk `c` of a block that starts at `s`. -/
def prevPos (s c : Nat) : Option Nat := if c = 0 then none else some (s + c - 1)

/-! ## `append_chunked_stage` -/

section Chunked

variable (builder : Nat → Int → Stage) (base : List Nat) (pcd : Option (List DepArg))
  (es : Bool) (plan : List Int) (s : Nat)

/-- The stage `append_chunked_stage` stores for chunk `j` of a block that
starts at `s`. -/
def chunkedStage (j : Nat) : Stage :=
  withDeps (s + j) (builder j (plan.getD j 0)) (chunkDepArg base pcd es j (prevPos s j))

private theorem appendChunkedStage_loop_eq : ∀ (m c : Nat) (sequence : List Stage) (ids : List Nat),
    plan.length - c = m → sequence.length = s + c →
    appendChunkedStage.loop builder base pcd es c (plan.drop c) sequence ids (prevPos s c) =
      (sequence ++ (List.range' c m).map (chunkedStage builder base pcd es plan s),
        ids ++ List.range' (s + c) m) := by
  intro m
  induction m with
  | zero =>
    intro c sequence ids hm _
    rw [List.drop_eq_nil_of_le (by omega)]
    simp [appendChunkedStage.loop]
  | succ m ih =>
    intro c sequence ids hm hlen
    rw [List.drop_eq_getElem_cons (by omega)]
    simp only [appendChunkedStage.loop, appendStage]
    have hprev : some sequence.length = prevPos s (c + 1) := by
      simp [prevPos, hlen]
    rw [hprev, ih (c + 1) _ _ (by omega) (by simp [hlen]; omega)]
    simp only [List.range'_succ, List.map_cons, List.append_assoc, List.cons_append,
      List.nil_append, List.singleton_append, chunkedStage, hlen]
    simp [List.getD_eq_getElem?_getD, List.getElem?_eq_getElem (show c < plan.length by omega)]
    omega

/-- `append_chunked_stage` on a non-empty plan: one stage per chunk, at the
positions `s, s + 1, ...`. -/
theorem appendChunkedStage_eq (sequence : List Stage) (baseDep : DepArg) (hplan : plan ≠ []) :
    appendChunkedStage sequence builder plan baseDep pcd es =
      (sequence ++ (List.range plan.length).map
          (chunkedStage builder (normalizeDeps baseDep) pcd es plan sequence.length),
        List.range' sequence.length plan.length) := by
  have h := appendChunkedStage_loop_eq builder (normalizeDeps baseDep) pcd es plan
    sequence.length plan.length 0 sequence [] (by simp) (by simp)
  simp only [List.drop_zero, prevPos, ↓reduceIte, Nat.add_zero, List.nil_append] at h
  simp only [appendChunkedStage, List.isEmpty_iff, hplan, if_false, h, List.range_eq_range']

/-- The positions `append_chunked_stage` returns. -/
theorem appendChunkedStage_snd (sequence : List Stage) (baseDep : DepArg) (hplan : plan ≠ []) :
    (appendChunkedStage sequence builder plan baseDep pcd es).2 =
      List.range' sequence.length plan.length := by
  rw [appendChunkedStage_eq builder pcd es plan sequence baseDep hplan]

end Chunked

/-! ## `add_projection` -/

section Projection

variable (ctx : Ctx) (label : String) (l : Nat) (wb rramId : Int) (s root : Nat)

/-- `last_idx` after chunk `j - 1` of a projection that starts at `s`. -/
def projLast (j : Nat) : Nat := if j = 0 then root else s + 3 * j - 1

/-- The three stages `add_projection` stores for chunk `j`. -/
def projTriple (j : Nat) : List Stage :=
  [{ projTransferToRram ctx label l j rramId with deps := some [projLast s root j] },
    { projRram ctx label l j (ctx.chunkPlan.getD j 0) wb rramId with deps := some [s + 3 * j] },
    { projTransferToDigital ctx label l j rramId with deps := some [s + 3 * j + 1] }]

private theorem addProjection_loop_eq : ∀ (m c : Nat) (sequence : List Stage),
    ctx.chunkPlan.length - c = m → sequence.length = s + 3 * c →
    addProjection.loop ctx label l wb rramId c (ctx.chunkPlan.drop c) sequence
        (projLast s root c) =
      (sequence ++ (List.range' c m).flatMap (projTriple ctx label l wb rramId s root),
        projLast s root (c + m)) := by
  intro m
  induction m with
  | zero =>
    intro c sequence hm _
    rw [List.drop_eq_nil_of_le (by omega)]
    simp [addProjection.loop]
  | succ m ih =>
    intro c sequence hm hlen
    rw [List.drop_eq_getElem_cons (by omega)]
    simp only [addProjection.loop, appendStage, withDeps_some, List.length_append,
      List.length_singleton, hlen]
    have hlast : s + 3 * c + 1 + 1 = projLast s root (c + 1) := by
      simp [projLast]; omega
    rw [hlast, ih (c + 1) _ (by omega) (by simp [hlen]; omega)]
    simp only [List.range'_succ, List.flatMap_cons, projTriple, List.append_assoc,
      List.cons_append, List.nil_append, Nat.add_assoc, Nat.add_comm 1 m]
    simp [List.getD_eq_getElem?_getD, List.getElem?_eq_getElem (show c < ctx.chunkPlan.length by omega)]

/-- `add_projection`: three stages per chunk from position `s` on; it returns
the last of them, or `depends_idx` when there is no chunk. -/
theorem addProjection_eq (sequence : List Stage) (dependsIdx : Nat) (digitalId : Int) :
    addProjection ctx sequence label l dependsIdx wb digitalId rramId =
      (sequence ++ (List.range ctx.chunkPlan.length).flatMap
          (projTriple ctx label l wb rramId sequence.length dependsIdx),
        projLast sequence.length dependsIdx ctx.chunkPlan.length) := by
  have h := addProjection_loop_eq ctx label l wb rramId sequence.length dependsIdx
    ctx.chunkPlan.length 0 sequence (by simp) (by simp)
  simpa [projLast, List.range_eq_range'] using h

end Projection

/-! ## The MoE dispatch loop -/

section Moe

variable (ctx : Ctx) (l : Nat) (template : List Expert) (s g : Nat)

/-- `moe_prev` once chunks `0, ..., c - 1` of a MoE block at `s` are built. -/
def moePrev (c : Nat) : Option Nat := if c = 0 then none else some (s + 3 * c - 1)

theorem getD_map_singleton (o : Option Nat) : (o.map ([·])).getD [] = o.toList := by
  cases o <;> rfl

/-- The three stages the MoE loop stores for chunk `j`, the gating stages
sitting at `g, g + 1, ...`. -/
def moeTriple (j : Nat) : List Stage :=
  [{ moeTransferToRram ctx l j (ctx.moeTargetChip j) with
      deps := some ((g + j) :: (moePrev s j).toList) },
    { moeLinearStage ctx l j (template.map (chunkExpert ctx j)) with deps := some [s + 3 * j] },
    { moeTransferToDigital ctx l j (ctx.moeTargetChip j) with deps := some [s + 3 * j + 1] }]

/-- With at least one expert, the target chiplet is looked up without
raising. -/
theorem moeTarget_eq (hE : ctx.expertChips ≠ []) (c : Nat) :
    moeTarget ctx c = pure (ctx.moeTargetChip c) := by
  have hlen : (0 : Int) < ctx.expertChips.length := by
    have := List.length_pos.mpr hE; omega
  obtain ⟨h0, hlt⟩ := @fmod_nonneg_lt ((c : Int) * ctx.expertsPerTok) _ hlen
  simp only [moeTarget, pyMod_of_ne_zero (Int.ne_of_gt hlen), pure_bind, pyIndex_of_lt h0 hlt,
    Ctx.moeTargetChip]
  rw [List.getD_eq_getElem?_getD, List.getElem?_eq_getElem (by omega)]
  rfl

private theorem moeDispatch_loop_eq (hE : ctx.expertChips ≠ []) : ∀ (m c : Nat)
    (sequence : List Stage) (ups : List Nat), ctx.numChunks - c = m →
    sequence.length = s + 3 * c →
    moeDispatch ctx l (List.range' g ctx.numChunks) template c (ctx.chunkPlan.drop c) sequence
        (moePrev s c) ups =
      pure (sequence ++ (List.range' c m).flatMap (moeTriple ctx l template s g),
        moePrev s (c + m), ups ++ (List.range' c m).map (fun j => s + 3 * j + 2)) := by
  intro m
  induction m with
  | zero =>
    intro c sequence ups hm _
    rw [List.drop_eq_nil_of_le (by simp; omega)]
    simp [moeDispatch]
  | succ m ih =>
    intro c sequence ups hm hlen
    rw [List.drop_eq_getElem_cons (by simp; omega)]
    simp only [moeDispatch, moeTarget_eq ctx hE, pure_bind, appendStage, withDeps_some,
      List.length_append, List.length_singleton, hlen,
      List.getElem?_range' g 1 (show c < ctx.numChunks by omega)]
    have hprev : some (s + 3 * c + 1 + 1) = moePrev s (c + 1) := by
      simp [moePrev]; omega
    rw [hprev, ih (c + 1) _ _ (by omega) (by simp [hlen]; omega)]
    simp only [List.range'_succ, List.flatMap_cons, List.map_cons, moeTriple, List.append_assoc,
      List.cons_append, List.nil_append, List.singleton_append]
    rw [show c + 1 + m = c + (m + 1) by omega, show s + 3 * c + 1 + 1 = s + 3 * c + 2 by omega]
    simp [getD_map_singleton]

/-- The MoE loop, with at least one expert: three stages per chunk from
position `s` on, `moe_prev` the last of them, and the positions of the
`rram_to_digital` transfers. -/
theorem moeDispatch_eq (hE : ctx.expertChips ≠ []) (sequence : List Stage) :
    moeDispatch ctx l (List.range' g ctx.numChunks) template 0 ctx.chunkPlan sequence none [] =
      pure (sequence ++ (List.range ctx.numChunks).flatMap
          (moeTriple ctx l template sequence.length g),
        moePrev sequence.length ctx.numChunks,
        (List.range ctx.numChunks).map (fun j => sequence.length + 3 * j + 2)) := by
  simpa [moePrev, List.range_eq_range'] using
    moeDispatch_loop_eq ctx l template sequence.length g hE ctx.numChunks 0 sequence [] (by simp)
      (by simp)

/-- With no expert, the first chunk's `%` raises `ZeroDivisionError`. -/
theorem moeDispatch_throw (hE : ctx.expertChips = []) (gating : List Nat)
    (sequence : List Stage) (hplan : ctx.chunkPlan ≠ []) :
    moeDispatch ctx l gating template 0 ctx.chunkPlan sequence none [] =
      throw .zeroDivisionError := by
  obtain ⟨x, xs, hx⟩ := List.exists_cons_of_ne_nil hplan
  rw [hx]
  simp only [moeDispatch, moeTarget, hE, List.length_nil, Nat.cast_zero, pyMod_zero]
  rfl

end Moe

theorem layout_succ (ctx : Ctx) (L : Nat) :
    layout ctx (L + 1) = layout ctx L ++ (layerNodes ctx.numChunks L).map (stageAt ctx) := by
  simp only [layout, layoutNodes, List.range_succ, List.flatMap_append, List.flatMap_singleton,
    List.map_cons, List.map_append, List.cons_append]

/-! ## The blocks of a layer -/

/-- A stored stage is the stage of a node once its literal and its `deps` are
the node's. -/
theorem withDeps_stageAt (ctx : Ctx) {v : Node} {stage : Stage} {ds : List Nat}
    (hs : stage = v.record ctx) (hd : ds = (v.deps ctx.numChunks).map (Node.index ctx.numChunks)) :
    { stage with deps := some ds } = stageAt ctx v := by
  subst hs hd
  rfl

section Blocks

variable (ctx : Ctx) (hn : 0 < ctx.numChunks)
include hn

/-- A projection appends the projection's nodes and returns the position of
its last `rram_to_digital` transfer. -/
theorem addProjection_layout (p : Proj) (l : Nat) (sequence : List Stage) (label : String)
    (dependsIdx : Nat) (digitalId rramId : Int)
    (hs : sequence.length = layerBase ctx.numChunks l + p.base ctx.numChunks)
    (hl : label = p.label) (hdep : dependsIdx = (p.root ctx.numChunks l).index ctx.numChunks)
    (hr : rramId = ctx.projRramId l p) :
    addProjection ctx sequence label l dependsIdx ctx.projectionWeightBytes digitalId rramId =
      (sequence ++ (projNodes ctx.numChunks l p).map (stageAt ctx),
        (Node.stage l (.transferToDigital p) (ctx.numChunks - 1)).index ctx.numChunks) := by
  subst hl hdep hr
  rw [addProjection_eq, Ctx.length_chunkPlan, projNodes, tripleNodes, List.map_flatMap]
  refine Prod.ext (congrArg (sequence ++ ·) (List.flatMap_congr fun j _ => ?_) :) ?_
  · simp only [projTriple, List.map_cons, List.map_nil]
    refine congrArg₂ _ (withDeps_stageAt ctx rfl ?_) (congrArg₂ _ (withDeps_stageAt ctx rfl ?_)
      (congrArg₂ _ (withDeps_stageAt ctx rfl ?_) rfl))
    all_goals rcases j with _ | j <;> simp [projLast, Node.deps, Node.index, Role.offset, hs] <;> omega
  · show projLast _ _ ctx.numChunks = _
    rw [projLast, if_neg (Nat.pos_iff_ne_zero.mp hn)]
    simp only [Node.index, Role.offset, hs]
    omega

/-- A chunked stage appends one node per chunk, provided the builder is the
node's literal and the dependency list it computes is the node's. -/
theorem appendChunkedStage_layout (r : Role) (l : Nat) (builder : Nat → Int → Stage)
    (baseDep : DepArg) (pcd : Option (List DepArg)) (es : Bool) (sequence : List Stage)
    (hpos : 0 < sequence.length)
    (hb : ∀ c, builder c (ctx.chunkPlan.getD c 0) = (Node.stage l r c).record ctx)
    (hd : ∀ c < ctx.numChunks, resolveDeps (sequence.length + c)
        (chunkDepArg (normalizeDeps baseDep) pcd es c (prevPos sequence.length c)) =
      ((Node.stage l r c).deps ctx.numChunks).map (Node.index ctx.numChunks)) :
    appendChunkedStage sequence builder ctx.chunkPlan baseDep pcd es =
      (sequence ++ (chunkNodes ctx.numChunks l r).map (stageAt ctx),
        List.range' sequence.length ctx.numChunks) := by
  rw [appendChunkedStage_eq _ _ _ _ _ _ (List.ne_nil_of_length_pos hn), Ctx.length_chunkPlan,
    chunkNodes, List.map_map]
  refine Prod.ext (congrArg (sequence ++ ·) (List.map_congr_left fun c hc => ?_) :) rfl
  rw [Function.comp_apply, chunkedStage, withDeps_eq (by omega), hd c (List.mem_range.mp hc),
    hb c]
  rfl

/-- The MoE loop appends the MoE nodes of the layer. -/
theorem moeDispatch_layout (hE : ctx.expertChips ≠ []) (l : Nat) (sequence : List Stage) (g : Nat)
    (hs : sequence.length = layerBase ctx.numChunks l + 17 * ctx.numChunks)
    (hg : g = layerBase ctx.numChunks l + 16 * ctx.numChunks) :
    moeDispatch ctx l (List.range' g ctx.numChunks) (expertsTemplate ctx l) 0 ctx.chunkPlan
        sequence none [] =
      pure (sequence ++
          (tripleNodes ctx.numChunks l .moeTransferToRram .moe .moeTransferToDigital).map (stageAt ctx),
        some ((Node.stage l .moeTransferToDigital (ctx.numChunks - 1)).index ctx.numChunks),
        (List.range ctx.numChunks).map fun j =>
          (Node.stage l .moeTransferToDigital j).index ctx.numChunks) := by
  rw [moeDispatch_eq ctx l _ _ hE, tripleNodes, List.map_flatMap]
  congr 3
  · refine List.flatMap_congr fun j _ => ?_
    simp only [moeTriple, List.map_cons, List.map_nil]
    refine congrArg₂ _ (withDeps_stageAt ctx rfl ?_) (congrArg₂ _ (withDeps_stageAt ctx rfl ?_)
      (congrArg₂ _ (withDeps_stageAt ctx rfl ?_) rfl))
    all_goals rcases j with _ | j <;>
      simp [moePrev, Node.deps, prevChunk, Node.index, Role.offset, hs, hg] <;> omega
  · simp only [moePrev, if_neg (Nat.pos_iff_ne_zero.mp hn), Option.some.injEq, Node.index,
      Role.offset, hs]
    omega
  · refine List.map_congr_left fun j _ => ?_
    simp only [Node.index, Role.offset, hs]
    omega

/-- The body of the layer loop appends the layer's nodes and returns the
position of its last `postprocess` stage as the next `prev_stage`. -/
theorem buildLayer_eq (hE : ctx.expertChips ≠ []) (l prevStage : Nat) (sequence : List Stage)
    (hs : sequence.length = layerBase ctx.numChunks l)
    (hprev : (if l = 0 then 0 else prevStage) = (Proj.q.root ctx.numChunks l).index ctx.numChunks) :
    buildLayer ctx 0 l sequence prevStage =
      pure (sequence ++ (layerNodes ctx.numChunks l).map (stageAt ctx),
        (Node.stage l .postprocess (ctx.numChunks - 1)).index ctx.numChunks) := by
  unfold buildLayer
  dsimp only
  rw [addProjection_layout ctx hn .q l sequence "q" _ _ _ ?_ rfl hprev ?_]
  dsimp only
  rw [addProjection_layout ctx hn .k l _ "k" _ _ _ ?_ rfl ?_ ?_]
  dsimp only
  rw [addProjection_layout ctx hn .v l _ "v" _ _ _ ?_ rfl ?_ ?_]
  dsimp only
  rw [appendChunkedStage_layout ctx hn .attnScore l (attnScoreStage ctx l) _ _ _ _ ?_
    (fun _ => rfl) ?_]
  dsimp only
  rw [appendChunkedStage_layout ctx hn .softmax l (softmaxStage ctx l) _ _ _ _ ?_
    (fun _ => rfl) ?_]
  dsimp only
  rw [appendChunkedStage_layout ctx hn .attnMix l (attnMixStage ctx l) _ _ _ _ ?_
    (fun _ => rfl) ?_]
  dsimp only
  simp only [List.getLast?_range', if_neg (Nat.pos_iff_ne_zero.mp hn), pure_bind]
  rw [addProjection_layout ctx hn .o l _ "o" _ _ _ ?_ rfl ?_ ?_]
  dsimp only
  rw [appendChunkedStage_layout ctx hn .postAttention l (postAttentionStage ctx l) _ _ _ _ ?_
    (fun _ => rfl) ?_]
  dsimp only
  rw [appendChunkedStage_layout ctx hn .moeGating l (moeGatingStage ctx l) _ _ _ _ ?_
    (fun _ => rfl) ?_]
  dsimp only
  rw [moeDispatch_layout ctx hn hE l _ _ ?_ ?_, pure_bind]
  dsimp only
  rw [appendChunkedStage_layout ctx hn .moeMerge l (moeMergeStage ctx l) _ _ _ _ ?_
    (fun _ => rfl) ?_]
  dsimp only
  rw [appendChunkedStage_layout ctx hn .postprocess l (postprocessStage ctx l) _ _ _ _ ?_
    (fun _ => rfl) ?_]
  dsimp only
  simp only [List.getLast?_range']
  · simp only [if_neg (Nat.pos_iff_ne_zero.mp hn), layerNodes, List.map_append, List.append_assoc,
      List.length_append, List.length_map, length_projNodes, length_chunkNodes, length_tripleNodes,
      hs, Node.index, Role.offset]
    congr 2; omega
  all_goals (try (simp only [List.length_append, List.length_map, length_projNodes,
    length_chunkNodes, length_tripleNodes, hs, Node.index, Role.offset, Proj.root, Proj.base_k,
    Proj.base_v, Proj.base_o, Proj.base_q] <;> omega))
  all_goals (try rfl)
  all_goals
    intro c hc
    simp only [List.length_append, List.length_map, length_projNodes, length_chunkNodes,
      length_tripleNodes, hs]
    rcases c with _ | c <;>
      simp [chunkDepArg, normalizeDeps, prevPos, resolveDeps, Node.deps, prevChunk, Node.index,
        Role.offset, List.getElem?_range', List.getElem?_map, List.getElem?_range, hc, Proj.root] <;>
      omega

/-- With no expert, the body of the layer loop raises `ZeroDivisionError` in
the MoE dispatch. -/
theorem buildLayer_throw (hE : ctx.expertChips = []) (embedStageIdx l prevStage : Nat)
    (sequence : List Stage) :
    buildLayer ctx embedStageIdx l sequence prevStage = throw .zeroDivisionError := by
  have hplan : ctx.chunkPlan ≠ [] := List.ne_nil_of_length_pos hn
  unfold buildLayer
  simp only [appendChunkedStage_snd _ _ _ ctx.chunkPlan _ _ hplan, List.getLast?_range',
    Ctx.length_chunkPlan, if_neg (Nat.pos_iff_ne_zero.mp hn), pure_bind,
    moeDispatch_throw ctx _ _ hE _ _ hplan]
  rfl

/-- The layer loop, started after `L` layers, appends the next `k` layers. -/
theorem buildLayers_eq (hE : ctx.expertChips ≠ []) (k : Nat) : ∀ (L prevStage : Nat),
    (if L = 0 then 0 else prevStage) = (Proj.q.root ctx.numChunks L).index ctx.numChunks →
    buildLayers ctx 0 (List.range' L k) (layout ctx L) prevStage = pure (layout ctx (L + k)) := by
  induction k with
  | zero => intro L _ _; rfl
  | succ k ih =>
    intro L prevStage hprev
    have hs : (layout ctx L).length = layerBase ctx.numChunks L := by
      simp only [layout, List.length_map, length_layoutNodes, layerBase]
    rw [List.range'_succ, buildLayers, buildLayer_eq ctx hn hE L prevStage _ hs hprev, pure_bind]
    dsimp only
    rw [← layout_succ, ih (L + 1) _ (by simp [Proj.root]), Nat.add_right_comm, Nat.add_assoc]

end Blocks

/-! ## The whole build -/

/-- The chunk plan of a build, in the closed form of `buildChunkPlan_eq`, with
the `[tokens]` fallback of `build_moe_sequence`. -/
def BuildArgs.chunkPlan (a : BuildArgs) : List Int :=
  let dtypeBytes := max a.dtypeBytes 1
  let tokens := a.seqLength * a.batch
  resolveChunkPlan tokens (if tokens ≤ 0 then [] else
    evenChunks (max ((max a.chunkBytes dtypeBytes).fdiv (max (a.hiddenSize * dtypeBytes) dtypeBytes)) 1)
      tokens)

/-- The context `build_moe_sequence` builds its stages in. -/
def BuildArgs.ctx (a : BuildArgs) : Ctx := Ctx.ofArgs a a.chunkPlan

theorem resolveChunkPlan_ne_nil (tokens : Int) (chunkPlan : List Int) :
    resolveChunkPlan tokens chunkPlan ≠ [] := by
  unfold resolveChunkPlan
  split_ifs with h
  · exact List.cons_ne_nil _ _
  · simpa using h

theorem numChunks_ctx_pos (a : BuildArgs) : 0 < a.ctx.numChunks :=
  List.length_pos.mpr (resolveChunkPlan_ne_nil _ _)

theorem expertChips_ctx_eq_nil_iff (a : BuildArgs) : a.ctx.expertChips = [] ↔ a.numExperts ≤ 0 := by
  unfold BuildArgs.ctx Ctx.ofArgs
  dsimp only
  rw [List.map_eq_nil_iff, List.range_eq_nil, Int.toNat_eq_zero]

/-- `build_moe_sequence` refines `layout`: it raises `ZeroDivisionError` when a
layer is built with `num_experts ≤ 0`, and returns the layout otherwise. -/
theorem buildMoeSequence_eq (a : BuildArgs) :
    buildMoeSequence a =
      if 0 < a.layers ∧ a.numExperts ≤ 0 then throw .zeroDivisionError
      else pure (layout a.ctx a.layers.toNat) := by
  have hd : (1 : Int) ≤ max a.dtypeBytes 1 := le_max_right _ _
  have hn := numChunks_ctx_pos a
  have hstart : buildMoeSequence a =
      buildLayers a.ctx 0 (List.range a.layers.toNat) (layout a.ctx 0) 0 := by
    simp only [buildMoeSequence, buildChunkPlan_eq _ _ _ _ hd, pure_bind]
    rfl
  rw [hstart]
  rcases Nat.eq_zero_or_pos a.layers.toNat with hL | hL
  · rw [if_neg (by omega), hL]; rfl
  by_cases hE : a.numExperts ≤ 0
  · obtain ⟨L, hL'⟩ : ∃ L, a.layers.toNat = L + 1 := ⟨a.layers.toNat - 1, by omega⟩
    rw [if_pos ⟨by omega, hE⟩, hL', List.range_succ_eq_map, buildLayers,
      buildLayer_throw a.ctx hn ((expertChips_ctx_eq_nil_iff a).mpr hE)]
    rfl
  · rw [if_neg (by omega), List.range_eq_range']
    simpa using buildLayers_eq a.ctx hn (mt (expertChips_ctx_eq_nil_iff a).mp hE)
      a.layers.toNat 0 0 (by simp [Proj.root, Node.index])

/-- A build that returns returns the layout. -/
theorem eq_layout_of_buildMoeSequence {a : BuildArgs} {seq : List Stage}
    (h : buildMoeSequence a = .ok seq) : seq = layout a.ctx a.layers.toNat := by
  rw [buildMoeSequence_eq] at h
  split_ifs at h
  cases h
  rfl

/-- One layer and no expert: `target_rram` takes `% len(expert_chips)` of an
empty list. -/
theorem buildMoeSequence_no_experts :
    buildMoeSequence
        { layers := 1, hiddenSize := 1, intermediateSize := 1, numExperts := 0,
          expertsPerTok := 1, seqLength := 1, batch := 1, dtypeBytes := 1, digitalChiplets := 1,
          rramChiplets := 1, digitalLatencyScale := 1, chunkBytes := 1 } =
      throw .zeroDivisionError := by
  rw [buildMoeSequence_eq]
  exact if_pos (by decide)

end UPIMulator.Chiplet
