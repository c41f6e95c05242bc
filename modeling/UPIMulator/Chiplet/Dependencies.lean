import UPIMulator.Chiplet.Graph

/-!
# Dependencies between the chunks of a layer

What waits for what in a build of the chunked `build_moe_sequence`.

* `chunk_consumers_depend_on_producers`: every chunk of a stage that consumes
  a tensor depends on the stages that produce it.  The `o` projection is
  rooted at `attn_mix_tail`, the last chunk's `attn_mix`, so every chunk of
  it depends on that stage and not on the `attn_mix` of its own chunk
  (`o_projection_skips_attnMix`).
* `layer_work_reaches_next_layer_and_last`: the first stage of the next layer
  and the last stage of the run wait for every stage of the layer but the
  `softmax` and `attn_mix` stages of the chunks before the last
  (`Node.Dangling`), and the sinks of the graph are the last stage and those
  `attn_mix` stages (`attnMix_not_before_last`).
* `attnScore_postAttention_chunks_chained`: for a chunk after the first with
  no dependency of its own, `append_chunked_stage` passes `None`, so
  `append_stage` links it to the stage before.  The `attn_score` and
  `post_attention` chunks form chains although they are built with
  `enforce_sequential=False`; `attnScore_chunks_chained` shows it on a
  two-chunk build.
-/

namespace UPIMulator.Chiplet

/-- Each consumer of chunk `c` of layer `l` and the producers of its input:
`dep v w` says that the stage of `w` is a transitive dependency of the stage
of `v`. -/
def ConsumersDependOnProducers (seq : List Stage) (n l c : Nat) : Prop :=
  let dep := fun v w : Node => TransDep seq (v.index n) (w.index n)
  dep (.stage l .attnScore c) (.stage l (.transferToDigital .q) (n - 1)) ∧
  dep (.stage l .attnScore c) (.stage l (.transferToDigital .k) (n - 1)) ∧
  dep (.stage l .softmax c) (.stage l .attnScore c) ∧
  dep (.stage l .attnMix c) (.stage l .softmax c) ∧
  dep (.stage l .attnMix c) (.stage l (.transferToDigital .v) (n - 1)) ∧
  dep (.stage l (.transferToRram .o) c) (.stage l .attnMix (n - 1)) ∧
  dep (.stage l (.projRram .o) c) (.stage l .attnMix (n - 1)) ∧
  dep (.stage l (.transferToDigital .o) c) (.stage l .attnMix (n - 1)) ∧
  dep (.stage l .postAttention c) (.stage l (.transferToDigital .o) (n - 1)) ∧
  dep (.stage l .moeGating c) (.stage l .postAttention c) ∧
  dep (.stage l .moeTransferToRram c) (.stage l .moeGating c) ∧
  dep (.stage l .moeMerge c) (.stage l .moeTransferToDigital c) ∧
  dep (.stage l .postprocess c) (.stage l .moeMerge c)

/-- The joins of a build of `L` layers of `n` chunks: the first stage of the
next layer and the last stage wait for every stage but the dangling ones, and
the sinks are the last stage and the dangling `attn_mix` stages. -/
def WaitsForLayerWork (seq : List Stage) (n L : Nat) : Prop :=
  (∀ l, l + 1 < L → ∀ r c, c < n → ¬ (Node.stage l r c).Dangling n →
    TransDep seq ((Node.stage (l + 1) (.transferToRram .q) 0).index n)
      ((Node.stage l r c).index n)) ∧
  (∀ v ∈ layoutNodes n L, ¬ v.Dangling n → v.index n + 1 < seq.length →
    TransDep seq (seq.length - 1) (v.index n)) ∧
  (∀ i < seq.length, (∀ j, i ∉ depsAt seq j) ↔
    i + 1 = seq.length ∨ ∃ l < L, ∃ c, c + 1 < n ∧ i = (Node.stage l .attnMix c).index n)

/-- One layer of two one-token chunks: two tokens and a budget of one token's
bytes. -/
def twoChunkArgs : BuildArgs :=
  { layers := 1, hiddenSize := 1, intermediateSize := 1, numExperts := 1, expertsPerTok := 1,
    seqLength := 2, batch := 1, dtypeBytes := 1, digitalChiplets := 1, rramChiplets := 1,
    digitalLatencyScale := 1, chunkBytes := 1 }

theorem buildMoeSequence_twoChunkArgs :
    buildMoeSequence twoChunkArgs = .ok (layout twoChunkArgs.ctx 1) := by
  rw [buildMoeSequence_eq]
  exact if_neg (by decide)

/-- Two layers of two chunks on two digital and two RRAM chiplets, with three
experts. -/
def twoLayerArgs : BuildArgs :=
  { twoChunkArgs with layers := 2, numExperts := 3, digitalChiplets := 2, rramChiplets := 2 }

theorem buildMoeSequence_twoLayerArgs :
    buildMoeSequence twoLayerArgs = .ok (layout twoLayerArgs.ctx 2) := by
  rw [buildMoeSequence_eq]
  exact if_neg (by decide)

/-! ## The last stage -/

section Last

variable {n L : Nat} (hn : 0 < n)
include hn

theorem index_lastNode (hL : 0 < L) : (lastNode n L).index n + 1 = 1 + 22 * n * L := by
  obtain ⟨L, rfl⟩ : ∃ L', L = L' + 1 := ⟨L - 1, by omega⟩
  simp only [lastNode, Node.index, Role.offset, Nat.add_sub_cancel, layerBase, Nat.mul_succ]
  omega

/-- The last stage depends on every other stage but the dangling ones. -/
theorem lastNode_dependsOn {v : Node} (hv : v.Valid n L) (hd : ¬ v.Dangling n)
    (hne : v ≠ lastNode n L) (hL : 0 < L) : (lastNode n L).DependsOn n v := by
  have hr : (lastNode n L).Reaches n v := by
    rcases v with _ | ⟨l, r, c⟩
    · exact ((reaches_postprocess_of_le hn (Nat.zero_le (L - 1))).trans
        (reaches_of_postprocess hn hn (r := .transferToRram .q) (by simp [Node.Dangling]))).to _
        (by simp [Node.deps, Proj.root])
    · exact (reaches_postprocess_of_le hn (show l ≤ L - 1 by have := hv.1; omega)).trans
        (reaches_of_postprocess hn hv.2 hd)
  exact (Relation.reflTransGen_iff_eq_or_transGen.mp hr).resolve_left hne

variable (ctx : Ctx) (hctx : ctx.numChunks = n)
include hctx

/-- The last position of the layout is a transitive dependency of every other
but the dangling ones. -/
theorem transDep_layout_last {v : Node} (hv : v ∈ layoutNodes n L) (hd : ¬ v.Dangling n)
    (hi : v.index n + 1 < (layout ctx L).length) :
    TransDep (layout ctx L) ((layout ctx L).length - 1) (v.index n) := by
  subst hctx
  have hlen : (layout ctx L).length = 1 + 22 * ctx.numChunks * L := by
    simp [layout, length_layoutNodes]
  have hL : 0 < L := by
    rcases Nat.eq_zero_or_pos L with rfl | hL
    · simp at hlen; omega
    · exact hL
  have hlast := index_lastNode hn hL
  have hmem : lastNode ctx.numChunks L ∈ layoutNodes ctx.numChunks L :=
    mem_layoutNodes.mpr (show L - 1 < L ∧ ctx.numChunks - 1 < ctx.numChunks by omega)
  rw [show (layout ctx L).length - 1 = (lastNode ctx.numChunks L).index ctx.numChunks by omega]
  refine (transDep_layout_iff ctx hn hmem hv).mpr (lastNode_dependsOn hn (mem_layoutNodes.mp hv) hd ?_ hL)
  rintro rfl
  omega

/-- The sinks of the layout: the last position, and the `attn_mix` stages of
the chunks before the last. -/
theorem sink_layout_iff {i : Nat} (hi : i < (layout ctx L).length) :
    (∀ j, i ∉ depsAt (layout ctx L) j) ↔
      i + 1 = (layout ctx L).length ∨ ∃ l < L, ∃ c, c + 1 < n ∧ i = (Node.stage l .attnMix c).index n := by
  subst hctx
  obtain ⟨v, hv, rfl, -⟩ := getElem_layout ctx hi
  constructor
  · intro hsink
    by_contra hne
    push_neg at hne
    by_cases hd : v.Dangling ctx.numChunks
    · rcases v with _ | ⟨l, r, c⟩
      · exact hd.elim
      have hl := (mem_layoutNodes.mp hv).1
      cases r <;> simp only [Node.Dangling] at hd
      · have hmix : Node.stage l .attnMix c ∈ layoutNodes ctx.numChunks L :=
          mem_layoutNodes.mpr ⟨hl, by omega⟩
        exact hsink _ (by rw [depsAt_layout ctx hmix]; exact List.mem_map_of_mem _ (by simp [Node.deps]))
      · exact hne.2 l hl c hd rfl
    · obtain ⟨k, -, hk⟩ := Relation.TransGen.tail'_iff.mp
        (transDep_layout_last hn ctx rfl hv hd (by omega))
      exact hsink k hk
  · rintro (hlast | ⟨l, hl, c, hc, hidx⟩) j hj
    · obtain ⟨u, hu, rfl, w, hw, hidx⟩ := exists_of_mem_depsAt_layout ctx hj
      have := Node.index_lt_of_mem_deps hn (mem_layoutNodes.mp hu) hw
      have hu' := Node.index_lt_of_mem_layoutNodes hu
      simp only [layout, List.length_map] at hlast
      omega
    · have hmix : Node.stage l .attnMix c ∈ layoutNodes ctx.numChunks L :=
        mem_layoutNodes.mpr ⟨hl, by omega⟩
      rw [hidx] at hj
      exact not_transDep_layout ctx hn hmix
        (fun u _ => attnMix_not_mem_deps hc u) j (.single hj)

end Last

/-! ## Builds -/

/-- In a build that returns, a path between nodes is a path between their
positions. -/
theorem transDep_of_dependsOn {a : BuildArgs} {seq : List Stage}
    (h : buildMoeSequence a = .ok seq) {v w : Node} (hv : v.Valid a.ctx.numChunks a.layers.toNat)
    (hvw : v.DependsOn a.ctx.numChunks w) :
    TransDep seq (v.index a.ctx.numChunks) (w.index a.ctx.numChunks) := by
  have hn := numChunks_ctx_pos a
  rw [eq_layout_of_buildMoeSequence h]
  exact (transDep_layout_iff a.ctx hn (mem_layoutNodes.mpr hv)
    (mem_layoutNodes.mpr (hvw.valid hn hv))).mpr hvw

/-- Every chunk of a consumer depends on the chunks that produce its input;
every chunk of the `o` projection depends on the last chunk's `attn_mix`. -/
theorem chunk_consumers_depend_on_producers {a : BuildArgs} {seq : List Stage}
    (h : buildMoeSequence a = .ok seq) {l c : Nat} (hl : l < a.layers.toNat)
    (hc : c < a.ctx.numChunks) : ConsumersDependOnProducers seq a.ctx.numChunks l c := by
  have path : ∀ {r : Role} {u w : Node}, (Node.stage l r c).Reaches a.ctx.numChunks u →
      w ∈ u.deps a.ctx.numChunks →
      TransDep seq ((Node.stage l r c).index a.ctx.numChunks) (w.index a.ctx.numChunks) :=
    fun hu hw => transDep_of_dependsOn h ⟨hl, hc⟩ (Relation.TransGen.tail' hu hw)
  have hscore := Node.reaches_chunk (n := a.ctx.numChunks) (l := l) (r := .attnScore)
    (fun c => by simp [Node.deps]) (Nat.zero_le c)
  have hpost := Node.reaches_chunk (n := a.ctx.numChunks) (l := l) (r := .postAttention)
    (fun c => by simp [Node.deps]) (Nat.zero_le c)
  have ho := Node.reaches_transferToRram_zero (n := a.ctx.numChunks) (l := l) .o c
  have hrram : (Node.stage l (.projRram .o) c).Reaches a.ctx.numChunks
      (.stage l (.transferToRram .o) 0) := (Node.Reaches.edge (by simp [Node.deps])).trans ho
  have hdigital : (Node.stage l (.transferToDigital .o) c).Reaches a.ctx.numChunks
      (.stage l (.transferToRram .o) 0) := (Node.Reaches.edge (by simp [Node.deps])).trans hrram
  exact ⟨path hscore (by simp [Node.deps]), path hscore (by simp [Node.deps]),
    path .refl (by simp [Node.deps]), path .refl (by simp [Node.deps]),
    path .refl (by simp [Node.deps]), path ho (by simp [Node.deps, Proj.root]),
    path hrram (by simp [Node.deps, Proj.root]), path hdigital (by simp [Node.deps, Proj.root]),
    path hpost (by simp [Node.deps]), path .refl (by simp [Node.deps]),
    path .refl (by simp [Node.deps]), path .refl (by simp [Node.deps]),
    path .refl (by simp [Node.deps])⟩

theorem chunk_consumers_depend_on_producers_two_chunks :
    0 < twoChunkArgs.layers.toNat ∧ 1 < twoChunkArgs.ctx.numChunks ∧
      ConsumersDependOnProducers (layout twoChunkArgs.ctx 1) twoChunkArgs.ctx.numChunks 0 1 :=
  ⟨by decide, by decide,
    chunk_consumers_depend_on_producers buildMoeSequence_twoChunkArgs (by decide) (by decide)⟩

/-- With two chunks, `o_transfer_to_rram_L0_C0` (position 25) does not depend
on `attn_mix_L0_C0` (position 23). -/
theorem o_projection_skips_attnMix :
    ∃ seq, buildMoeSequence twoChunkArgs = .ok seq ∧
      seq[25]?.map Stage.name = some "o_transfer_to_rram_L0_C0" ∧
      seq[23]?.map Stage.name = some "attn_mix_L0_C0" ∧ ¬ TransDep seq 25 23 :=
  ⟨_, buildMoeSequence_twoChunkArgs, by decide, by decide,
    not_transDep_layout twoChunkArgs.ctx (by decide) (w := .stage 0 .attnMix 0)
      (mem_layoutNodes.mpr ⟨by decide, by decide⟩) (fun v _ => attnMix_not_mem_deps (by decide) v)
      25⟩

/-- The joins of every build that returns. -/
theorem layer_work_reaches_next_layer_and_last {a : BuildArgs} {seq : List Stage}
    (h : buildMoeSequence a = .ok seq) :
    WaitsForLayerWork seq a.ctx.numChunks a.layers.toNat := by
  have hn := numChunks_ctx_pos a
  obtain rfl := eq_layout_of_buildMoeSequence h
  refine ⟨fun l hl r c hc hd => ?_, fun v hv hd hi => transDep_layout_last hn a.ctx rfl hv hd hi,
    fun i hi => sink_layout_iff hn a.ctx rfl hi⟩
  refine transDep_of_dependsOn h ⟨hl, hn⟩ (Relation.TransGen.head' ?_
    (reaches_of_postprocess hn hc hd))
  simp [Node.deps, Proj.root]

theorem layer_work_reaches_next_layer_and_last_two_layers :
    buildMoeSequence twoLayerArgs = .ok (layout twoLayerArgs.ctx 2) ∧
      WaitsForLayerWork (layout twoLayerArgs.ctx 2) twoLayerArgs.ctx.numChunks 2 :=
  ⟨buildMoeSequence_twoLayerArgs,
    layer_work_reaches_next_layer_and_last buildMoeSequence_twoLayerArgs⟩

/-- With two chunks, `attn_mix_L0_C0` (position 23) is not a transitive
dependency of the last of the 45 stages. -/
theorem attnMix_not_before_last :
    ∃ seq, buildMoeSequence twoChunkArgs = .ok seq ∧ seq.length = 45 ∧
      seq[23]?.map Stage.name = some "attn_mix_L0_C0" ∧ ¬ TransDep seq 44 23 :=
  ⟨_, buildMoeSequence_twoChunkArgs, by decide, by decide,
    not_transDep_layout twoChunkArgs.ctx (by decide) (w := .stage 0 .attnMix 0)
      (mem_layoutNodes.mpr ⟨by decide, by decide⟩) (fun v _ => attnMix_not_mem_deps (by decide) v)
      44⟩

/-- In every build with two chunks or more, each `attn_score` and each
`post_attention` chunk after the first depends on the chunk before: neither
gets a dependency of its own for that chunk, so `append_chunked_stage`
passes `None`. -/
theorem attnScore_postAttention_chunks_chained {a : BuildArgs} {seq : List Stage}
    (h : buildMoeSequence a = .ok seq) {l c : Nat} (hl : l < a.layers.toNat)
    (hc : c + 1 < a.ctx.numChunks) :
    TransDep seq ((Node.stage l .attnScore (c + 1)).index a.ctx.numChunks)
        ((Node.stage l .attnScore c).index a.ctx.numChunks) ∧
      TransDep seq ((Node.stage l .postAttention (c + 1)).index a.ctx.numChunks)
        ((Node.stage l .postAttention c).index a.ctx.numChunks) :=
  ⟨transDep_of_dependsOn h ⟨hl, hc⟩ (.single (by simp [Node.deps, prevChunk])),
    transDep_of_dependsOn h ⟨hl, hc⟩ (.single (by simp [Node.deps, prevChunk]))⟩

/-- With two chunks, the second `attn_score` and `post_attention` stages depend
on the first: `append_stage` stores the stage before as their `deps`. -/
theorem attnScore_chunks_chained :
    ∃ seq, buildMoeSequence twoChunkArgs = .ok seq ∧
      seq[19]?.map Stage.name = some "attn_score_L0_C0" ∧
      seq[20]?.map Stage.name = some "attn_score_L0_C1" ∧
      depsAt seq 20 = [19] ∧ TransDep seq 20 19 ∧
      seq[31]?.map Stage.name = some "post_attention_L0_C0" ∧
      seq[32]?.map Stage.name = some "post_attention_L0_C1" ∧
      depsAt seq 32 = [31] ∧ TransDep seq 32 31 := by
  obtain ⟨hscore, hpost⟩ := attnScore_postAttention_chunks_chained buildMoeSequence_twoChunkArgs
    (l := 0) (c := 0) (by decide) (by decide)
  exact ⟨_, buildMoeSequence_twoChunkArgs, by decide, by decide, by decide, hscore, by decide,
    by decide, by decide, hpost⟩

end UPIMulator.Chiplet
