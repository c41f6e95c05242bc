import UPIMulator.Chiplet.Builder

/-!
# The layout of a chunked specification

`build_moe_sequence` emits the same pattern for every layer and every chunk.
This file states that pattern declaratively, as the design the builder
implements, so that the properties of the graph can be proved about roles and
chunks rather than about list positions.

* A `Node` is the `embed` stage or a `Role` at a layer and a chunk.  The roles
  are named after the stage names of the source (`attn_score`, `moe`, ...).
* `Node.index` is the position of a node: a layer holds `22 * n` stages for a
  plan of `n` chunks, in the order of `layerNodes`.
* `Node.deps` is the dependency list of each node, read off the source once
  and for all: explicit lists where the source passes them, the stage before
  where `append_stage` falls back to its implicit default.
* `stageAt` is the stage the builder stores for a node, and `layout` the whole
  list.  `Refinement` proves that `build_moe_sequence` returns `layout`.

`map_index_layoutNodes` shows that the positions are exactly `0, 1, ...`, so
`getElem_layout` reads the stage of a node at its index, and
`depsTopological_layout` derives the acyclicity contract from `Node.deps`.
-/

namespace UPIMulator.Chiplet

/-! ## Nodes -/

/-- The four projections of the attention block, in build order. -/
inductive Proj
  | q | k | v | o
  deriving DecidableEq, Repr

/-- The role of a stage within its layer and chunk. -/
inductive Role
  | transferToRram (p : Proj)
  | projRram (p : Proj)
  | transferToDigital (p : Proj)
  | attnScore | softmax | attnMix | postAttention | moeGating
  | moeTransferToRram | moe | moeTransferToDigital | moeMerge | postprocess
  deriving DecidableEq, Repr

/-- A stage of the specification. -/
inductive Node
  | embed
  | stage (layer : Nat) (role : Role) (chunk : Nat)
  deriving DecidableEq, Repr

namespace Proj

/-- The `proj_label` of a projection. -/
def label : Proj → String
  | q => "q" | k => "k" | v => "v" | o => "o"

/-- The offset added to `rram_base` for the projection's RRAM chiplet. -/
def rramOffset : Proj → Int
  | q => 0 | k => 1 | v => 2 | o => 3

/-- Where the projection's stages start in a layer of `n`-chunk tensors. -/
def base (n : Nat) : Proj → Nat
  | q => 0 | k => 3 * n | v => 6 * n | o => 12 * n

@[simp] theorem base_q (n : Nat) : base n q = 0 := rfl
@[simp] theorem base_k (n : Nat) : base n k = 3 * n := rfl
@[simp] theorem base_v (n : Nat) : base n v = 6 * n := rfl
@[simp] theorem base_o (n : Nat) : base n o = 12 * n := rfl

/-- The stage the first chunk of the projection depends on: `prev_stage` for
`q` (the embedding in layer `0`), the previous projection's last chunk for
`k` and `v`, and `attn_mix_tail` for `o`. -/
def root (n l : Nat) : Proj → Node
  | q => if l = 0 then .embed else .stage (l - 1) .postprocess (n - 1)
  | k => .stage l (.transferToDigital .q) (n - 1)
  | v => .stage l (.transferToDigital .k) (n - 1)
  | o => .stage l .attnMix (n - 1)

end Proj

/-- The position of a role's stage of chunk `c` within its layer. -/
def Role.offset (n c : Nat) : Role → Nat
  | .transferToRram p => p.base n + 3 * c
  | .projRram p => p.base n + 3 * c + 1
  | .transferToDigital p => p.base n + 3 * c + 2
  | .attnScore => 9 * n + c
  | .softmax => 10 * n + c
  | .attnMix => 11 * n + c
  | .postAttention => 15 * n + c
  | .moeGating => 16 * n + c
  | .moeTransferToRram => 17 * n + 3 * c
  | .moe => 17 * n + 3 * c + 1
  | .moeTransferToDigital => 17 * n + 3 * c + 2
  | .moeMerge => 20 * n + c
  | .postprocess => 21 * n + c

/-- The position of the first stage of layer `l`. -/
def layerBase (n l : Nat) : Nat := 1 + 22 * n * l

theorem layerBase_succ (n l : Nat) : layerBase n (l + 1) = layerBase n l + 22 * n := by
  simp only [layerBase, Nat.mul_succ]; omega

/-- The position of a node. -/
def Node.index (n : Nat) : Node → Nat
  | .embed => 0
  | .stage l r c => layerBase n l + r.offset n c

/-- `[stage l r (c - 1)]` for a later chunk, `[]` for chunk `0`. -/
def prevChunk (l : Nat) (r : Role) (c : Nat) : List Node :=
  if c = 0 then [] else [.stage l r (c - 1)]

/-- The `deps` of each node. -/
def Node.deps (n : Nat) : Node → List Node
  | .embed => []
  | .stage l (.transferToRram p) c =>
    [if c = 0 then p.root n l else .stage l (.transferToDigital p) (c - 1)]
  | .stage l (.projRram p) c => [.stage l (.transferToRram p) c]
  | .stage l (.transferToDigital p) c => [.stage l (.projRram p) c]
  | .stage l .attnScore c =>
    if c = 0 then [.stage l (.transferToDigital .q) (n - 1), .stage l (.transferToDigital .k) (n - 1)]
    else [.stage l .attnScore (c - 1)]
  | .stage l .softmax c => [.stage l .attnScore c]
  | .stage l .attnMix c => [.stage l .softmax c, .stage l (.transferToDigital .v) (n - 1)]
  | .stage l .postAttention c =>
    [if c = 0 then .stage l (.transferToDigital .o) (n - 1) else .stage l .postAttention (c - 1)]
  | .stage l .moeGating c => .stage l .postAttention c :: prevChunk l .moeGating c
  | .stage l .moeTransferToRram c => .stage l .moeGating c :: prevChunk l .moeTransferToDigital c
  | .stage l .moe c => [.stage l .moeTransferToRram c]
  | .stage l .moeTransferToDigital c => [.stage l .moe c]
  | .stage l .moeMerge c => .stage l .moeTransferToDigital c :: prevChunk l .moeMerge c
  | .stage l .postprocess c => .stage l .moeMerge c :: prevChunk l .postprocess c

/-- A node of a build with `L` layers of `n` chunks. -/
def Node.Valid (n L : Nat) : Node → Prop
  | .embed => True
  | .stage l _ c => l < L ∧ c < n

/-! ## The stages -/

/-- The RRAM chiplet of a projection in layer `l`:
`(rram_base + offset) % rram_chiplets`. -/
def Ctx.projRramId (ctx : Ctx) (l : Nat) (p : Proj) : Int :=
  (((l : Int) * 4).fmod ctx.rramChiplets + p.rramOffset).fmod ctx.rramChiplets

/-- `expert_chips[(chunk_idx * experts_per_tok) % len(expert_chips)]` once
`expert_chips` is known to be non-empty. -/
def Ctx.moeTargetChip (ctx : Ctx) (c : Nat) : Int :=
  ctx.expertChips.getD ((c * ctx.expertsPerTok).fmod ctx.expertChips.length).toNat 0

/-- The stage literal of a node, before `append_stage` sets its `deps`. -/
def Node.record (ctx : Ctx) : Node → Stage
  | .embed => embedStage ctx
  | .stage l (.transferToRram p) c => projTransferToRram ctx p.label l c (ctx.projRramId l p)
  | .stage l (.projRram p) c =>
    projRram ctx p.label l c (ctx.chunkPlan.getD c 0) ctx.projectionWeightBytes (ctx.projRramId l p)
  | .stage l (.transferToDigital p) c =>
    projTransferToDigital ctx p.label l c (ctx.projRramId l p)
  | .stage l .attnScore c => attnScoreStage ctx l c (ctx.chunkPlan.getD c 0)
  | .stage l .softmax c => softmaxStage ctx l c (ctx.chunkPlan.getD c 0)
  | .stage l .attnMix c => attnMixStage ctx l c (ctx.chunkPlan.getD c 0)
  | .stage l .postAttention c => postAttentionStage ctx l c (ctx.chunkPlan.getD c 0)
  | .stage l .moeGating c => moeGatingStage ctx l c (ctx.chunkPlan.getD c 0)
  | .stage l .moeTransferToRram c => moeTransferToRram ctx l c (ctx.moeTargetChip c)
  | .stage l .moe c => moeLinearStage ctx l c ((expertsTemplate ctx l).map (chunkExpert ctx c))
  | .stage l .moeTransferToDigital c => moeTransferToDigital ctx l c (ctx.moeTargetChip c)
  | .stage l .moeMerge c => moeMergeStage ctx l c (ctx.chunkPlan.getD c 0)
  | .stage l .postprocess c => postprocessStage ctx l c (ctx.chunkPlan.getD c 0)

/-- The stage stored for a node: its literal with its `deps`. -/
def stageAt (ctx : Ctx) (v : Node) : Stage :=
  { v.record ctx with deps := some ((v.deps ctx.numChunks).map (Node.index ctx.numChunks)) }

/-- The `"name"` the builder gives the stage of a node. -/
def Node.name : Node → String
  | .embed => "embed"
  | .stage l (.transferToRram p) c => let label := p.label; s!"{label}_transfer_to_rram_L{l}_C{c}"
  | .stage l (.projRram p) c => let label := p.label; s!"{label}_proj_rram_L{l}_C{c}"
  | .stage l (.transferToDigital p) c =>
    let label := p.label; s!"{label}_transfer_to_digital_L{l}_C{c}"
  | .stage l .attnScore c => s!"attn_score_L{l}_C{c}"
  | .stage l .softmax c => s!"softmax_L{l}_C{c}"
  | .stage l .attnMix c => s!"attn_mix_L{l}_C{c}"
  | .stage l .postAttention c => s!"post_attention_L{l}_C{c}"
  | .stage l .moeGating c => s!"moe_gating_L{l}_C{c}"
  | .stage l .moeTransferToRram c => s!"moe_transfer_to_rram_L{l}_C{c}"
  | .stage l .moe c => s!"moe_L{l}_C{c}"
  | .stage l .moeTransferToDigital c => s!"moe_transfer_to_digital_L{l}_C{c}"
  | .stage l .moeMerge c => s!"moe_merge_L{l}_C{c}"
  | .stage l .postprocess c => s!"postprocess_L{l}_C{c}"

@[simp] theorem name_stageAt (ctx : Ctx) (v : Node) : (stageAt ctx v).name = v.name := by
  cases v with
  | embed => rfl
  | stage l r c => cases r <;> rfl

/-! ## The layout -/

/-- The stages of one role, one per chunk. -/
def chunkNodes (n l : Nat) (r : Role) : List Node := (List.range n).map (.stage l r)

/-- Three roles per chunk, chunk by chunk. -/
def tripleNodes (n l : Nat) (r₁ r₂ r₃ : Role) : List Node :=
  (List.range n).flatMap fun c => [.stage l r₁ c, .stage l r₂ c, .stage l r₃ c]

@[simp] theorem length_chunkNodes (n l : Nat) (r : Role) : (chunkNodes n l r).length = n := by
  simp [chunkNodes]

@[simp] theorem length_tripleNodes (n l : Nat) (r₁ r₂ r₃ : Role) :
    (tripleNodes n l r₁ r₂ r₃).length = 3 * n := by
  unfold tripleNodes
  induction n with
  | zero => rfl
  | succ n ih => rw [List.range_succ, List.flatMap_append, List.length_append, ih]; simp; omega

/-- The stages of a projection. -/
def projNodes (n l : Nat) (p : Proj) : List Node :=
  tripleNodes n l (.transferToRram p) (.projRram p) (.transferToDigital p)

@[simp] theorem length_projNodes (n l : Nat) (p : Proj) : (projNodes n l p).length = 3 * n := by
  simp [projNodes]

/-- The stages of layer `l`, in the order the builder appends them. -/
def layerNodes (n l : Nat) : List Node :=
  projNodes n l .q ++ projNodes n l .k ++ projNodes n l .v ++ chunkNodes n l .attnScore ++
    chunkNodes n l .softmax ++ chunkNodes n l .attnMix ++ projNodes n l .o ++
    chunkNodes n l .postAttention ++ chunkNodes n l .moeGating ++
    tripleNodes n l .moeTransferToRram .moe .moeTransferToDigital ++
    chunkNodes n l .moeMerge ++ chunkNodes n l .postprocess

/-- All nodes of a build with `L` layers, in order. -/
def layoutNodes (n L : Nat) : List Node :=
  .embed :: (List.range L).flatMap (layerNodes n)

/-- The specification `build_moe_sequence` returns for `L` layers. -/
def layout (ctx : Ctx) (L : Nat) : List Stage :=
  (layoutNodes ctx.numChunks L).map (stageAt ctx)

/-! ## Dependencies point backwards -/

section Deps

variable {n : Nat}

theorem index_root_lt (hn : 0 < n) (l : Nat) (p : Proj) :
    (p.root n l).index n < layerBase n l + p.base n := by
  cases p with
  | q =>
    rcases l with _ | l
    · simp [Proj.root, Node.index, layerBase]
    · simp only [Proj.root, Nat.add_one_ne_zero, if_false, Node.index, Role.offset,
        layerBase_succ, Nat.add_sub_cancel, Proj.base_q]
      omega
  | k | v | o => simp only [Proj.root, Node.index, Role.offset, Proj.base_q, Proj.base_k,
      Proj.base_v, Proj.base_o]; omega

/-- Every dependency of a node of the build comes before it.  Once the chunk
is known to be `0` or a successor, every dependency is an explicit node,
except that the first chunk of a projection depends on the projection's
root. -/
theorem Node.index_lt_of_mem_deps (hn : 0 < n) {L : Nat} {v w : Node} (hv : v.Valid n L)
    (h : w ∈ v.deps n) : w.index n < v.index n := by
  rcases v with _ | ⟨l, r, c⟩
  · simp [Node.deps] at h
  have hc : c < n := hv.2
  rcases c with _ | c
  · cases r
    case transferToRram p =>
      simp only [Node.deps, if_pos rfl, List.mem_singleton] at h
      subst h
      exact Nat.lt_of_lt_of_le (index_root_lt hn l p) (by simp [Node.index, Role.offset])
    all_goals
      simp [Node.deps, prevChunk] at h
      rcases h with rfl | rfl <;> simp [Node.index, Role.offset] <;> omega
  · cases r <;> simp [Node.deps, prevChunk] at h <;>
      rcases h with rfl | rfl <;> simp [Node.index, Role.offset] <;> omega

/-- The positions a node depends on are distinct. -/
theorem Node.nodup_map_index_deps (hn : 0 < n) {L : Nat} {v : Node} (hv : v.Valid n L) :
    ((v.deps n).map (Node.index n)).Nodup := by
  rcases v with _ | ⟨l, r, c⟩
  · simp [Node.deps]
  have hc : c < n := hv.2
  rcases c with _ | c <;> cases r <;> simp [Node.deps, prevChunk, Node.index, Role.offset] <;> omega

/-- Only the `embed` stage has no dependency, and it sits at position `0`. -/
theorem Node.deps_eq_nil_iff (v : Node) : v.deps n = [] ↔ v.index n = 0 := by
  rcases v with _ | ⟨l, r, c⟩
  · simp [Node.deps, Node.index]
  · have hpos : Node.index n (.stage l r c) ≠ 0 := by simp [Node.index, layerBase]
    simp only [hpos, iff_false]
    cases r <;> simp only [Node.deps, prevChunk] <;> (try split_ifs) <;> simp

end Deps

/-! ## Positions -/

section Positions

variable {n : Nat}

private theorem map_append_range' {f : Node → Nat} {xs ys : List Node} {s s' m k : Nat}
    (hx : xs.map f = List.range' s m) (h : s' = s + m) (hy : ys.map f = List.range' s' k) :
    (xs ++ ys).map f = List.range' s (m + k) := by
  have happ := List.range'_append s m k 1
  rw [Nat.one_mul, Nat.add_comm k m] at happ
  rw [List.map_append, hx, hy, h, happ]

theorem map_index_chunkNodes (l : Nat) {r : Role} (hr : ∀ c, r.offset n c = r.offset n 0 + c) :
    (chunkNodes n l r).map (Node.index n) = List.range' (layerBase n l + r.offset n 0) n := by
  rw [chunkNodes, List.map_map, List.range'_eq_map_range]
  exact List.map_congr_left fun c _ => by simp [Node.index, hr c, Nat.add_assoc]

theorem map_index_tripleNodes (l : Nat) {r₁ r₂ r₃ : Role}
    (h₁ : ∀ c, r₁.offset n c = r₁.offset n 0 + 3 * c)
    (h₂ : ∀ c, r₂.offset n c = r₁.offset n c + 1) (h₃ : ∀ c, r₃.offset n c = r₁.offset n c + 2) :
    (tripleNodes n l r₁ r₂ r₃).map (Node.index n) =
      List.range' (layerBase n l + r₁.offset n 0) (3 * n) := by
  suffices h : ∀ m, ((List.range m).flatMap fun c =>
      [Node.stage l r₁ c, .stage l r₂ c, .stage l r₃ c]).map (Node.index n) =
      List.range' (layerBase n l + r₁.offset n 0) (3 * m) from h n
  intro m
  induction m with
  | zero => rfl
  | succ m ih =>
    rw [List.range_succ, List.flatMap_append, List.flatMap_singleton,
      show 3 * (m + 1) = 3 * m + 3 by omega]
    refine map_append_range' ih rfl ?_
    simp only [List.map_cons, List.map_nil, Node.index, List.range'_succ, List.range'_zero]
    rw [h₂, h₃, h₁ m]
    simp only [List.cons.injEq, and_true]
    omega

theorem map_index_projNodes (l : Nat) (p : Proj) :
    (projNodes n l p).map (Node.index n) = List.range' (layerBase n l + p.base n) (3 * n) :=
  @map_index_tripleNodes n l (.transferToRram p) (.projRram p) (.transferToDigital p)
    (fun c => by simp only [Role.offset]; omega) (fun c => rfl) (fun c => rfl)

/-- A layer occupies the `22 * n` positions from `layerBase n l` on. -/
theorem map_index_layerNodes (l : Nat) :
    (layerNodes n l).map (Node.index n) = List.range' (layerBase n l) (22 * n) := by
  have hc : ∀ r : Role, (∀ c, r.offset n c = r.offset n 0 + c) →
      (chunkNodes n l r).map (Node.index n) = List.range' (layerBase n l + r.offset n 0) n :=
    fun r hr => map_index_chunkNodes l hr
  have h := map_append_range' (map_index_projNodes l .q) ?_ <|
    map_append_range' (map_index_projNodes l .k) ?_ <|
    map_append_range' (map_index_projNodes l .v) ?_ <|
    map_append_range' (hc .attnScore ?_) ?_ <|
    map_append_range' (hc .softmax ?_) ?_ <|
    map_append_range' (hc .attnMix ?_) ?_ <|
    map_append_range' (map_index_projNodes l .o) ?_ <|
    map_append_range' (hc .postAttention ?_) ?_ <|
    map_append_range' (hc .moeGating ?_) ?_ <|
    map_append_range' (@map_index_tripleNodes n l .moeTransferToRram .moe .moeTransferToDigital
      ?_ (fun c => rfl) (fun c => rfl)) ?_ <|
    map_append_range' (hc .moeMerge ?_) ?_ (hc .postprocess ?_)
  · rw [layerNodes]
    simp only [List.append_assoc]
    refine h.trans ?_
    simp only [Proj.base]
    congr 1; omega
  all_goals first
    | (intro c; simp only [Role.offset]; omega)
    | (simp only [Role.offset, Proj.base]; omega)

theorem map_index_flatMap_layerNodes (L : Nat) :
    ((List.range L).flatMap (layerNodes n)).map (Node.index n) = List.range' 1 (22 * n * L) := by
  induction L with
  | zero => rfl
  | succ L ih =>
    rw [List.range_succ, List.flatMap_append, List.flatMap_singleton, Nat.mul_succ]
    exact map_append_range' ih rfl (map_index_layerNodes L)

/-- The positions of the nodes are `0, 1, ..., 22 * n * L`. -/
theorem map_index_layoutNodes (L : Nat) :
    (layoutNodes n L).map (Node.index n) = List.range (1 + 22 * n * L) := by
  rw [layoutNodes, List.map_cons, map_index_flatMap_layerNodes, List.range_eq_range',
    Nat.add_comm, List.range'_succ]
  rfl

theorem length_layoutNodes (L : Nat) : (layoutNodes n L).length = 1 + 22 * n * L := by
  simpa using congrArg List.length (@map_index_layoutNodes n L)

theorem index_getElem_layoutNodes {L i : Nat} (h : i < (layoutNodes n L).length) :
    (layoutNodes n L)[i].index n = i := by
  have hi : i < ((layoutNodes n L).map (Node.index n)).length := by simpa using h
  simpa using List.getElem_of_eq (@map_index_layoutNodes n L) hi

@[simp] theorem stage_mem_chunkNodes {l l' c : Nat} {r r' : Role} :
    Node.stage l' r c ∈ chunkNodes n l r' ↔ l' = l ∧ r = r' ∧ c < n := by
  simp only [chunkNodes, List.mem_map, List.mem_range, Node.stage.injEq]
  constructor
  · rintro ⟨a, ha, rfl, rfl, rfl⟩; exact ⟨rfl, rfl, ha⟩
  · rintro ⟨rfl, rfl, hc⟩; exact ⟨c, hc, rfl, rfl, rfl⟩

@[simp] theorem stage_mem_tripleNodes {l l' c : Nat} {r r₁ r₂ r₃ : Role} :
    Node.stage l' r c ∈ tripleNodes n l r₁ r₂ r₃ ↔
      l' = l ∧ (r = r₁ ∨ r = r₂ ∨ r = r₃) ∧ c < n := by
  simp only [tripleNodes, List.mem_flatMap, List.mem_range, List.mem_cons, List.not_mem_nil,
    or_false, Node.stage.injEq]
  constructor
  · rintro ⟨a, ha, (⟨rfl, rfl, rfl⟩ | ⟨rfl, rfl, rfl⟩ | ⟨rfl, rfl, rfl⟩)⟩ <;> simp [ha]
  · rintro ⟨rfl, hr, hc⟩
    exact ⟨c, hc, by rcases hr with rfl | rfl | rfl <;> simp⟩

/-- The nodes of a build are its valid nodes: every role has its block in
every layer. -/
theorem mem_layoutNodes {L : Nat} {v : Node} : v ∈ layoutNodes n L ↔ v.Valid n L := by
  cases v with
  | embed => simp [layoutNodes, Node.Valid]
  | stage l r c =>
    simp only [layoutNodes, List.mem_cons, reduceCtorEq, false_or, List.mem_flatMap,
      List.mem_range, layerNodes, projNodes, List.mem_append, stage_mem_chunkNodes,
      stage_mem_tripleNodes, Node.Valid]
    have key : (∃ a < L, l = a ∧ c < n) ↔ l < L ∧ c < n :=
      ⟨fun ⟨_, ha, h, hc⟩ => h ▸ ⟨ha, hc⟩, fun ⟨hl, hc⟩ => ⟨l, hl, rfl, hc⟩⟩
    cases r <;> (try (rename_i p; cases p)) <;> simpa using key

end Positions

@[simp] theorem deps_stageAt (ctx : Ctx) (v : Node) :
    (stageAt ctx v).deps = some ((v.deps ctx.numChunks).map (Node.index ctx.numChunks)) := rfl

/-- The stage of a node sits at the node's index. -/
theorem getElem?_layout (ctx : Ctx) {L : Nat} {v : Node} (hv : v ∈ layoutNodes ctx.numChunks L) :
    (layout ctx L)[v.index ctx.numChunks]? = some (stageAt ctx v) := by
  obtain ⟨i, hi, rfl⟩ := List.getElem_of_mem hv
  rw [index_getElem_layoutNodes hi, layout, List.getElem?_map, List.getElem?_eq_getElem hi]
  rfl

/-- The stage at position `i` is the stage of the node at position `i`. -/
theorem getElem_layout (ctx : Ctx) {L i : Nat} (h : i < (layout ctx L).length) :
    ∃ v ∈ layoutNodes ctx.numChunks L, v.index ctx.numChunks = i ∧ (layout ctx L)[i] = stageAt ctx v := by
  have hi : i < (layoutNodes ctx.numChunks L).length := by simpa [layout] using h
  exact ⟨_, List.getElem_mem hi, index_getElem_layoutNodes hi, List.getElem_map _⟩

/-- The layout is topologically ordered with the `embed` stage as its root. -/
theorem depsTopological_layout (ctx : Ctx) (L : Nat) (hn : 0 < ctx.numChunks) :
    DepsTopological (layout ctx L) := by
  intro i hi
  obtain ⟨v, hmem, hidx, hget⟩ := getElem_layout ctx hi
  have hv := mem_layoutNodes.mp hmem
  refine ⟨_, by rw [hget, deps_stageAt], Node.nodup_map_index_deps hn hv, ?_, ?_⟩
  · intro d hd
    obtain ⟨w, hw, rfl⟩ := List.mem_map.mp hd
    exact hidx ▸ Node.index_lt_of_mem_deps hn hv hw
  · rw [List.map_eq_nil_iff, Node.deps_eq_nil_iff, hidx]

end UPIMulator.Chiplet
