import UPIMulator.Chiplet.Refinement

/-!
# Dependency paths

The dependencies of the chunked builder are read as transitive dependencies
between named stages.  `Node.DependsOn` is that relation between nodes, and
`Node.Reaches` its reflexive closure.

* Positions: `transDep_layout_iff` says that a path between the positions of
  two nodes in `layout` is a path between the nodes, so that the later files
  work with `Node.deps` alone.  `exists_of_mem_depsAt_layout` reads an entry
  of a `deps` list back as a node.
* Sinks: `not_transDep_layout` says that a node no node depends on is no
  position's transitive dependency.  The `attn_mix` stages of the chunks
  before the last are such nodes (`attnMix_not_mem_deps`).
* Chains: the chunks of one role that `append_stage`'s implicit default or
  `enforce_sequential` links, the projections and the MoE dispatch, which
  link chunk after chunk.  `reaches_of_postprocess` collects them: the last
  `postprocess` stage of a layer reaches every stage of the layer except the
  `softmax` and `attn_mix` stages of the chunks before the last, and
  `reaches_postprocess_of_le` links the layers.
-/

namespace UPIMulator.Chiplet

/-- `v` depends on `w` through one or more `deps` edges. -/
def Node.DependsOn (n : Nat) : Node → Node → Prop :=
  Relation.TransGen fun v w => w ∈ v.deps n

/-- `v` is `w` or depends on it. -/
def Node.Reaches (n : Nat) : Node → Node → Prop :=
  Relation.ReflTransGen fun v w => w ∈ v.deps n

/-- The `softmax` and `attn_mix` stages of the chunks before the last. -/
def Node.Dangling (n : Nat) : Node → Prop
  | .stage _ .softmax c | .stage _ .attnMix c => c + 1 < n
  | _ => False

/-- The last stage of a build with `L ≥ 1` layers. -/
def lastNode (n L : Nat) : Node := .stage (L - 1) .postprocess (n - 1)

/-! ## Positions -/

section Positions

variable {n L : Nat}

theorem Node.valid_of_mem_deps (hn : 0 < n) {v w : Node} (hv : v.Valid n L) (h : w ∈ v.deps n) :
    w.Valid n L := by
  rcases v with _ | ⟨l, r, c⟩
  · simp [Node.deps] at h
  obtain ⟨hl, hc⟩ := hv
  cases r
  case transferToRram p =>
    simp only [Node.deps, List.mem_singleton] at h
    subst h
    split_ifs
    · cases p <;> simp only [Proj.root] <;> (try split_ifs) <;> simp [Node.Valid] <;> omega
    · exact ⟨hl, by omega⟩
  all_goals
    simp only [Node.deps, prevChunk, List.mem_cons, List.mem_singleton] at h
    (try split_ifs at h) <;> simp at h <;> (try rcases h with rfl | rfl) <;>
      simp [Node.Valid] <;> omega

theorem Node.DependsOn.valid (hn : 0 < n) {v w : Node} (h : v.DependsOn n w) (hv : v.Valid n L) :
    w.Valid n L := by
  induction h with
  | single hw => exact Node.valid_of_mem_deps hn hv hw
  | tail _ hw ih => exact Node.valid_of_mem_deps hn ih hw

/-- A transitive dependency of a node of the build comes before it. -/
theorem Node.DependsOn.index_lt (hn : 0 < n) {v w : Node} (h : v.DependsOn n w)
    (hv : v.Valid n L) : w.index n < v.index n := by
  induction h with
  | single hw => exact Node.index_lt_of_mem_deps hn hv hw
  | tail hvu hw ih => exact (Node.index_lt_of_mem_deps hn (Node.DependsOn.valid hn hvu hv) hw).trans ih

/-- Distinct nodes of a build sit at distinct positions. -/
theorem Node.index_injOn {v w : Node} (hv : v ∈ layoutNodes n L) (hw : w ∈ layoutNodes n L)
    (h : v.index n = w.index n) : v = w :=
  List.inj_on_of_nodup_map (by rw [map_index_layoutNodes]; exact List.nodup_range _) hv hw h

theorem Node.index_lt_of_mem_layoutNodes {v : Node} (hv : v ∈ layoutNodes n L) :
    v.index n < (layoutNodes n L).length := by
  have h := List.mem_map_of_mem (Node.index n) hv
  rwa [map_index_layoutNodes, List.mem_range, ← length_layoutNodes] at h

theorem depsAt_layout (ctx : Ctx) {v : Node} (hv : v ∈ layoutNodes ctx.numChunks L) :
    depsAt (layout ctx L) (v.index ctx.numChunks) =
      (v.deps ctx.numChunks).map (Node.index ctx.numChunks) := by
  simp only [depsAt, getElem?_layout ctx hv, Option.some_bind, deps_stageAt, Option.getD_some]

/-- An entry of a `deps` list of the layout is the position of a dependency of
the node the list belongs to. -/
theorem exists_of_mem_depsAt_layout (ctx : Ctx) {i j : Nat} (h : j ∈ depsAt (layout ctx L) i) :
    ∃ v ∈ layoutNodes ctx.numChunks L, v.index ctx.numChunks = i ∧
      ∃ w ∈ v.deps ctx.numChunks, w.index ctx.numChunks = j := by
  by_cases hi : i < (layout ctx L).length
  · obtain ⟨v, hv, rfl, -⟩ := getElem_layout ctx hi
    rw [depsAt_layout ctx hv, List.mem_map] at h
    exact ⟨v, hv, rfl, h⟩
  · simp [depsAt, List.getElem?_eq_none (Nat.le_of_not_lt hi)] at h

variable (ctx : Ctx) (hn : 0 < ctx.numChunks)
include hn

/-- A dependency of a node of the build is a node of the build. -/
theorem mem_layoutNodes_of_mem_deps {v w : Node} (hv : v ∈ layoutNodes ctx.numChunks L)
    (h : w ∈ v.deps ctx.numChunks) : w ∈ layoutNodes ctx.numChunks L :=
  mem_layoutNodes.mpr (Node.valid_of_mem_deps hn (mem_layoutNodes.mp hv) h)

/-- Paths between the positions of two nodes are paths between the nodes. -/
theorem transDep_layout_iff {v w : Node} (hv : v ∈ layoutNodes ctx.numChunks L)
    (hw : w ∈ layoutNodes ctx.numChunks L) :
    TransDep (layout ctx L) (v.index ctx.numChunks) (w.index ctx.numChunks) ↔
      v.DependsOn ctx.numChunks w := by
  constructor
  · intro h
    generalize hj : w.index ctx.numChunks = j at h
    induction h generalizing w with
    | single hk =>
      rw [depsAt_layout ctx hv, List.mem_map] at hk
      obtain ⟨u, hu, hidx⟩ := hk
      rw [Node.index_injOn (mem_layoutNodes_of_mem_deps ctx hn hv hu) hw (hidx.trans hj.symm)] at hu
      exact .single hu
    | tail _ hk ih =>
      obtain ⟨u, hu, rfl, w', hw', hidx⟩ := exists_of_mem_depsAt_layout ctx hk
      rw [Node.index_injOn (mem_layoutNodes_of_mem_deps ctx hn hu hw') hw (hidx.trans hj.symm)] at hw'
      exact .tail (ih hu rfl) hw'
  · intro h
    clear hw
    induction h using Relation.TransGen.head_induction_on with
    | base h => exact .single (by rw [depsAt_layout ctx hv]; exact List.mem_map_of_mem _ h)
    | ih h _ ih =>
      exact .head (by rw [depsAt_layout ctx hv]; exact List.mem_map_of_mem _ h)
        (ih (mem_layoutNodes_of_mem_deps ctx hn hv h))

/-- A node that no node of the build depends on is no position's transitive
dependency. -/
theorem not_transDep_layout {w : Node} (hw : w ∈ layoutNodes ctx.numChunks L)
    (hsink : ∀ v ∈ layoutNodes ctx.numChunks L, w ∉ v.deps ctx.numChunks) (i : Nat) :
    ¬ TransDep (layout ctx L) i (w.index ctx.numChunks) := by
  intro h
  obtain ⟨k, -, hk⟩ := Relation.TransGen.tail'_iff.mp h
  obtain ⟨v, hv, -, w', hw', hidx⟩ := exists_of_mem_depsAt_layout ctx hk
  rw [Node.index_injOn (mem_layoutNodes_of_mem_deps ctx hn hv hw') hw hidx] at hw'
  exact hsink v hv hw'

end Positions

/-! ## Sinks -/

section Sinks

variable {n : Nat}

/-- Only the first `o` transfer depends on an `attn_mix` stage, the last
chunk's. -/
theorem attnMix_not_mem_deps {l c : Nat} (hc : c + 1 < n) (v : Node) :
    Node.stage l .attnMix c ∉ v.deps n := by
  rcases v with _ | ⟨l', r, c'⟩
  · simp [Node.deps]
  cases r
  case transferToRram p =>
    cases p <;> simp only [Node.deps, Proj.root, List.mem_singleton] <;> split_ifs <;> simp
    omega
  all_goals simp [Node.deps, prevChunk] <;> (try split_ifs) <;> simp

end Sinks

/-! ## Chains -/

section Chains

variable {n l : Nat}

theorem Node.Reaches.edge {v w : Node} (h : w ∈ v.deps n) : v.Reaches n w := .single h

/-- Extends a path by one `deps` edge, to `w`. -/
theorem Node.Reaches.to {u v : Node} (h : u.Reaches n v) (w : Node) (hw : w ∈ v.deps n) :
    u.Reaches n w :=
  h.tail hw

theorem Node.Reaches.trans {u v w : Node} (h₁ : u.Reaches n v) (h₂ : v.Reaches n w) :
    u.Reaches n w :=
  Relation.ReflTransGen.trans h₁ h₂

/-- Chunks of one role in which each chunk depends on the one before. -/
theorem Node.reaches_chunk {r : Role} (hstep : ∀ c, Node.stage l r c ∈ (Node.stage l r (c + 1)).deps n)
    {c c' : Nat} (h : c' ≤ c) : (Node.stage l r c).Reaches n (.stage l r c') := by
  induction h with
  | refl => exact .refl
  | step _ ih => exact .head (hstep _) ih

/-- The three stages of a projection chunk depend on those of the chunk before. -/
theorem Node.reaches_proj (p : Proj) {c c' : Nat} (h : c' ≤ c) :
    (Node.stage l (.transferToDigital p) c).Reaches n (.stage l (.transferToDigital p) c') := by
  induction h with
  | refl => exact .refl
  | @step m _ ih =>
    have h₁ : Node.stage l (.projRram p) (m + 1) ∈ (Node.stage l (.transferToDigital p) (m + 1)).deps n := by
      simp [Node.deps]
    have h₂ : Node.stage l (.transferToRram p) (m + 1) ∈ (Node.stage l (.projRram p) (m + 1)).deps n := by
      simp [Node.deps]
    have h₃ : Node.stage l (.transferToDigital p) m ∈ (Node.stage l (.transferToRram p) (m + 1)).deps n := by
      simp [Node.deps]
    exact .head h₁ (.head h₂ (.head h₃ ih))

/-- Every stage of a projection reaches the projection's first transfer. -/
theorem Node.reaches_transferToRram_zero (p : Proj) (c : Nat) :
    (Node.stage l (.transferToRram p) c).Reaches n (.stage l (.transferToRram p) 0) := by
  rcases c with _ | c
  · exact .refl
  · have h : Node.stage l (.transferToDigital p) c ∈ (Node.stage l (.transferToRram p) (c + 1)).deps n := by
      simp [Node.deps]
    exact ((Node.Reaches.edge h).trans (Node.reaches_proj p (Nat.zero_le c))).to
      (.stage l (.projRram p) 0) (by simp [Node.deps]) |>.to _ (by simp [Node.deps])

/-- The last chunk of a projection reaches the three stages of every chunk. -/
theorem Node.reaches_proj_stage (p : Proj) {c : Nat} (hc : c < n) {r : Role}
    (hr : r = .transferToRram p ∨ r = .projRram p ∨ r = .transferToDigital p) :
    (Node.stage l (.transferToDigital p) (n - 1)).Reaches n (.stage l r c) := by
  have h := Node.reaches_proj (l := l) (n := n) p (show c ≤ n - 1 by omega)
  have h' := h.to (.stage l (.projRram p) c) (by simp [Node.deps])
  rcases hr with rfl | rfl | rfl
  exacts [h'.to _ (by simp [Node.deps]), h', h]

section Postprocess

variable (hn : 0 < n)
include hn

theorem reaches_postprocess {c : Nat} (hc : c < n) :
    (Node.stage l .postprocess (n - 1)).Reaches n (.stage l .postprocess c) :=
  Node.reaches_chunk (fun c => by simp [Node.deps, prevChunk]) (show c ≤ n - 1 by omega)

/-- The last `postprocess` stage of a layer reaches the MoE transfers of
every chunk. -/
theorem reaches_moeTransferToDigital {c : Nat} (hc : c < n) :
    (Node.stage l .postprocess (n - 1)).Reaches n (.stage l .moeTransferToDigital c) :=
  ((reaches_postprocess hn hc).to (.stage l .moeMerge c) (by simp [Node.deps])).to _
    (by simp [Node.deps])

theorem reaches_moeTransferToRram {c : Nat} (hc : c < n) :
    (Node.stage l .postprocess (n - 1)).Reaches n (.stage l .moeTransferToRram c) :=
  ((reaches_moeTransferToDigital hn hc).to (.stage l .moe c) (by simp [Node.deps])).to _
    (by simp [Node.deps])

theorem reaches_postAttention {c : Nat} (hc : c < n) :
    (Node.stage l .postprocess (n - 1)).Reaches n (.stage l .postAttention c) :=
  ((reaches_moeTransferToRram hn hc).to (.stage l .moeGating c) (by simp [Node.deps])).to _
    (by simp [Node.deps])

/-- Through `post_attention` of chunk `0`, the last chunk of the `o`
projection. -/
theorem reaches_o_last :
    (Node.stage l .postprocess (n - 1)).Reaches n (.stage l (.transferToDigital .o) (n - 1)) :=
  (reaches_postAttention hn hn).to _ (by simp [Node.deps])

/-- Through the first `o` transfer, the last chunk's `attn_mix`. -/
theorem reaches_attnMix_last :
    (Node.stage l .postprocess (n - 1)).Reaches n (.stage l .attnMix (n - 1)) :=
  ((reaches_o_last hn).trans (Node.reaches_proj_stage .o hn (Or.inl rfl))).to _
    (by simp [Node.deps, Proj.root])

/-- Through `attn_mix` and the first transfers of `v` and `k`, the last chunk
of every projection. -/
theorem reaches_transferToDigital_last (p : Proj) :
    (Node.stage l .postprocess (n - 1)).Reaches n (.stage l (.transferToDigital p) (n - 1)) := by
  have hv := (reaches_attnMix_last (l := l) hn).to (.stage l (.transferToDigital .v) (n - 1))
    (by simp [Node.deps])
  have hk := (hv.trans (Node.reaches_proj_stage .v hn (Or.inl rfl))).to
    (.stage l (.transferToDigital .k) (n - 1)) (by simp [Node.deps, Proj.root])
  have hq := (hk.trans (Node.reaches_proj_stage .k hn (Or.inl rfl))).to
    (.stage l (.transferToDigital .q) (n - 1)) (by simp [Node.deps, Proj.root])
  cases p
  exacts [hq, hk, hv, reaches_o_last hn]

/-- The last `postprocess` stage of a layer reaches every stage of the layer
but the `softmax` and `attn_mix` stages of the chunks before the last. -/
theorem reaches_of_postprocess {r : Role} {c : Nat} (hc : c < n)
    (hd : ¬ (Node.stage l r c).Dangling n) :
    (Node.stage l .postprocess (n - 1)).Reaches n (.stage l r c) := by
  have hsoft := (reaches_attnMix_last (l := l) hn).to (.stage l .softmax (n - 1))
    (by simp [Node.deps])
  cases r
  case transferToRram p | projRram p | transferToDigital p =>
    exact (reaches_transferToDigital_last hn p).trans (Node.reaches_proj_stage p hc (by simp))
  case attnScore =>
    exact (hsoft.to (.stage l .attnScore (n - 1)) (by simp [Node.deps])).trans
      (Node.reaches_chunk (fun c => by simp [Node.deps]) (show c ≤ n - 1 by omega))
  case softmax | attnMix =>
    obtain rfl : c = n - 1 := by simp only [Node.Dangling] at hd; omega
    first | exact hsoft | exact reaches_attnMix_last hn
  case postAttention => exact reaches_postAttention hn hc
  case moeGating => exact (reaches_moeTransferToRram hn hc).to _ (by simp [Node.deps])
  case moeTransferToRram => exact reaches_moeTransferToRram hn hc
  case moe => exact (reaches_moeTransferToDigital hn hc).to _ (by simp [Node.deps])
  case moeTransferToDigital => exact reaches_moeTransferToDigital hn hc
  case moeMerge => exact (reaches_postprocess hn hc).to _ (by simp [Node.deps])
  case postprocess => exact reaches_postprocess hn hc

/-- The last `postprocess` stage of a layer reaches that of every earlier
layer, through the first `q` transfer of each layer after it. -/
theorem reaches_postprocess_of_le {l l' : Nat} (h : l' ≤ l) :
    (Node.stage l .postprocess (n - 1)).Reaches n (.stage l' .postprocess (n - 1)) := by
  induction h with
  | refl => exact .refl
  | @step m _ ih =>
    refine .trans ?_ ih
    exact (reaches_of_postprocess hn hn (r := .transferToRram .q) (by simp [Node.Dangling])).to _
      (by simp [Node.deps, Proj.root])

end Postprocess

end Chains

end UPIMulator.Chiplet
