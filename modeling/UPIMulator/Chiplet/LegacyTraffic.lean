import UPIMulator.Chiplet.Legacy
import UPIMulator.Python.Float
import Mathlib.Algebra.BigOperators.Group.List
import Mathlib.Tactic.Ring
import Mathlib.Tactic.Linarith

/-!
# What the older builder moves

The transfers of the list that the older `build_moe_sequence` returns, added
up per direction.  A `host_load_input` transfer brings the activations in, a
`store_logits` transfer writes them back, and each layer sends them to RRAM
and back in `num_chunks` chunks.

* `sum_chunkSize`: the chunk sizes of a layer add up to
  `activation_bytes_total` whatever the chunk budget: every chunk but the
  last takes `chunk_bytes` and the last one takes the rest.
* `movedBytes_buildMoeSequence`: so the list moves `activation_bytes_total`
  bytes from the host and back once, and to RRAM and back once per layer.
* `chunkSize_pos_le`: with activations to move, every chunk moves between
  `1` and `chunk_bytes` bytes.  The count of chunks is `math.ceil` of a float
  quotient; below `2 ^ 53` it is the exact ceiling that `Ctx.numChunks`
  takes (`ceil_roundNearest_div`).
-/

namespace UPIMulator.Chiplet.Legacy

open UPIMulator.Python

/-! ## Bytes per direction -/

/-- The bytes that the transfers in direction `dir` of a stage list move. -/
def movedBytes (dir : Direction) (sequence : List Stage) : Int :=
  (sequence.map fun stage => if stage.direction = some dir then stage.bytes.getD 0 else 0).sum

@[simp] theorem withDeps_direction (len : Nat) (stage : Stage) (depends : Option (List Nat)) :
    (withDeps len stage depends).direction = stage.direction := by
  cases depends with
  | none => unfold withDeps; split_ifs <;> rfl
  | some _ => rfl

@[simp] theorem withDeps_bytes (len : Nat) (stage : Stage) (depends : Option (List Nat)) :
    (withDeps len stage depends).bytes = stage.bytes := by
  cases depends with
  | none => unfold withDeps; split_ifs <;> rfl
  | some _ => rfl

theorem movedBytes_appendStage (dir : Direction) (sequence : List Stage) (stage : Stage)
    (depends : Option (List Nat)) :
    movedBytes dir (appendStage sequence stage depends).1 =
      movedBytes dir sequence + if stage.direction = some dir then stage.bytes.getD 0 else 0 := by
  simp [movedBytes, List.sum_append]

/-- The bytes of a chunk in direction `dir`: its size for the transfer to
RRAM and the one back. -/
def chunkShare (dir : Direction) (size : Int) : Int :=
  if dir = .digitalToRram ∨ dir = .rramToDigital then size else 0

theorem sum_map_chunkShare (dir : Direction) (sizes : List Int) :
    (sizes.map (chunkShare dir)).sum = chunkShare dir sizes.sum := by
  unfold chunkShare
  split_ifs <;> simp

/-! ## The chunks of a layer -/

/-- The chunk sizes add up to `activation_bytes_total`. -/
theorem sum_chunkSize (ctx : Ctx) :
    ((List.range ctx.numChunks.toNat).map ctx.chunkSize).sum = ctx.activationBytesTotal := by
  obtain ⟨m, hm⟩ : ∃ m, ctx.numChunks.toNat = m + 1 := ⟨_, (Nat.succ_pred_eq_of_pos (numChunks_pos ctx)).symm⟩
  have hn : ctx.numChunks = m + 1 := by have := numChunks_pos ctx; omega
  have hfull : (List.range m).map ctx.chunkSize = List.replicate m ctx.chunkBytes := by
    rw [List.eq_replicate_iff, List.length_map, List.length_range]
    refine ⟨rfl, fun b hb => ?_⟩
    obtain ⟨i, hi, rfl⟩ := List.mem_map.1 hb
    rw [Ctx.chunkSize, if_pos (by rw [hn]; simp at hi; omega)]
  rw [hm, List.range_succ, List.map_append, List.sum_append, hfull, List.sum_replicate,
    List.map_singleton, List.sum_singleton, Ctx.chunkSize, if_neg (by omega), hn, nsmul_eq_mul]
  ring

/-- With activations to move, every chunk moves between `1` and
`chunk_bytes` bytes. -/
theorem chunkSize_pos_le (ctx : Ctx) (hact : 0 < ctx.activationBytesTotal)
    (hcb : 0 < ctx.chunkBytes) (i : Nat) :
    1 ≤ ctx.chunkSize i ∧ ctx.chunkSize i ≤ ctx.chunkBytes := by
  have hq := Int.emod_add_ediv (-ctx.activationBytesTotal) ctx.chunkBytes
  have hr := Int.emod_nonneg (-ctx.activationBytesTotal) hcb.ne'
  have hr' := Int.emod_lt_of_pos (-ctx.activationBytesTotal) hcb
  have hceil : pyCeilDiv ctx.activationBytesTotal ctx.chunkBytes =
      -((-ctx.activationBytesTotal) / ctx.chunkBytes) := by
    rw [pyCeilDiv, Int.fdiv_eq_ediv _ hcb.le]
  have hq1 : (-ctx.activationBytesTotal) / ctx.chunkBytes < 0 :=
    neg_of_mul_neg_right (by omega) hcb.le
  have hn : ctx.numChunks = -((-ctx.activationBytesTotal) / ctx.chunkBytes) := by
    rw [Ctx.numChunks, hceil]; omega
  unfold Ctx.chunkSize
  split_ifs with h
  · omega
  · rw [hn] at h ⊢
    constructor <;> linarith

/-! ## The layer loop -/

section Loops

variable (ctx : Ctx) (dir : Direction)

/-- The loop lemma of the chunk loop: each chunk adds its size to the
transfers to RRAM and back. -/
theorem movedBytes_chunkLoop (layerIdx : Nat) (digitalOwner : Int) (template : List Expert)
    (gating : Nat) : ∀ (chunkIdxs : List Nat) (sequence : List Stage) (lastTransferUp : Option Nat),
    movedBytes dir (chunkLoop ctx layerIdx digitalOwner template gating chunkIdxs sequence
        lastTransferUp).1 =
      movedBytes dir sequence + (chunkIdxs.map fun i => chunkShare dir (ctx.chunkSize i)).sum
  | [], sequence, lastTransferUp => by simp [chunkLoop]
  | chunkIdx :: rest, sequence, lastTransferUp => by
    simp only [chunkLoop]
    rw [movedBytes_chunkLoop layerIdx digitalOwner template gating rest, movedBytes_appendStage,
      movedBytes_appendStage, movedBytes_appendStage]
    cases dir <;> simp [transferToRramStage, moeLinearStage, transferToDigitalStage, chunkShare] <;>
      ring

/-- The step lemma of the layer loop: a layer sends the activations to RRAM
and back. -/
theorem movedBytes_buildLayer (sequence : List Stage) (layerIdx : Nat) :
    movedBytes dir (buildLayer ctx sequence layerIdx) =
      movedBytes dir sequence + chunkShare dir ctx.activationBytesTotal := by
  simp only [buildLayer]
  generalize hr : chunkLoop .. = r
  obtain ⟨sequence', lastTransferUp⟩ := r
  have hloop := congrArg (fun r => movedBytes dir r.1) hr
  simp only [movedBytes_chunkLoop] at hloop
  dsimp only
  have hshare : ((List.range ctx.numChunks.toNat).map fun i => chunkShare dir (ctx.chunkSize i)).sum =
      chunkShare dir ctx.activationBytesTotal := by
    rw [← sum_chunkSize ctx, ← sum_map_chunkShare, List.map_map]; rfl
  rw [movedBytes_appendStage, movedBytes_appendStage, ← hloop, movedBytes_appendStage,
    movedBytes_appendStage, movedBytes_appendStage, hshare]
  simp [attnStage, softmaxStage, moeGatingStage, moeMergeStage, postprocessStage]

/-- The run lemma of the layer loop. -/
theorem movedBytes_foldl_buildLayer : ∀ (layerIdxs : List Nat) (sequence : List Stage),
    movedBytes dir (layerIdxs.foldl (buildLayer ctx) sequence) =
      movedBytes dir sequence + layerIdxs.length * chunkShare dir ctx.activationBytesTotal
  | [], sequence => by simp
  | layerIdx :: rest, sequence => by
    rw [List.foldl_cons, movedBytes_foldl_buildLayer rest, movedBytes_buildLayer,
      List.length_cons]
    push_cast
    ring

end Loops

/-! ## Each chunk transfer -/

/-- A transfer to RRAM or back moves the size of some chunk. -/
def MovesAChunk (ctx : Ctx) (stage : Stage) : Prop :=
  stage.direction = some .digitalToRram ∨ stage.direction = some .rramToDigital →
    ∃ i, stage.bytes = some (ctx.chunkSize i)

theorem movesAChunk_appendStage {ctx : Ctx} {sequence : List Stage} {stage : Stage}
    (hseq : ∀ s ∈ sequence, MovesAChunk ctx s) (hs : MovesAChunk ctx stage)
    (depends : Option (List Nat)) :
    ∀ s ∈ (appendStage sequence stage depends).1, MovesAChunk ctx s := by
  intro s hmem
  simp only [appendStage_fst, List.mem_append, List.mem_singleton] at hmem
  rcases hmem with h | rfl
  · exact hseq s h
  · simpa [MovesAChunk] using hs

theorem movesAChunk_of_direction {ctx : Ctx} {stage : Stage}
    (h : stage.direction ≠ some .digitalToRram ∧ stage.direction ≠ some .rramToDigital) :
    MovesAChunk ctx stage :=
  fun h' => (h'.elim h.1 h.2).elim

theorem movesAChunk_chunkLoop (ctx : Ctx) (layerIdx : Nat) (digitalOwner : Int)
    (template : List Expert) (gating : Nat) : ∀ (chunkIdxs : List Nat) (sequence : List Stage)
    (lastTransferUp : Option Nat), (∀ s ∈ sequence, MovesAChunk ctx s) →
    ∀ s ∈ (chunkLoop ctx layerIdx digitalOwner template gating chunkIdxs sequence
      lastTransferUp).1, MovesAChunk ctx s
  | [], _, _, hseq => hseq
  | chunkIdx :: rest, sequence, lastTransferUp, hseq => by
    simp only [chunkLoop]
    refine movesAChunk_chunkLoop ctx layerIdx digitalOwner template gating rest _ _
      (movesAChunk_appendStage (movesAChunk_appendStage (movesAChunk_appendStage hseq ?_ _) ?_ _)
        ?_ _)
    · exact fun _ => ⟨chunkIdx, rfl⟩
    · exact movesAChunk_of_direction (by simp [moeLinearStage])
    · exact fun _ => ⟨chunkIdx, rfl⟩

theorem movesAChunk_buildLayer (ctx : Ctx) {sequence : List Stage}
    (hseq : ∀ s ∈ sequence, MovesAChunk ctx s) (layerIdx : Nat) :
    ∀ s ∈ buildLayer ctx sequence layerIdx, MovesAChunk ctx s := by
  simp only [buildLayer]
  generalize hr : chunkLoop .. = r
  obtain ⟨sequence', lastTransferUp⟩ := r
  have hloop : ∀ s ∈ sequence', MovesAChunk ctx s := by
    rw [show sequence' = _ from (congrArg Prod.fst hr).symm]
    refine movesAChunk_chunkLoop ctx _ _ _ _ _ _ _ (movesAChunk_appendStage
      (movesAChunk_appendStage (movesAChunk_appendStage hseq ?_ _) ?_ _) ?_ _) <;>
    exact movesAChunk_of_direction (by simp [attnStage, softmaxStage, moeGatingStage])
  refine movesAChunk_appendStage (movesAChunk_appendStage hloop ?_ _) ?_ _ <;>
  exact movesAChunk_of_direction (by simp [moeMergeStage, postprocessStage])

/-! ## The whole list -/

/-- The bytes of the host transfers in direction `dir`. -/
def hostShare (dir : Direction) (size : Int) : Int :=
  if dir = .hostToDigital ∨ dir = .digitalToHost then size else 0

theorem movedBytes_buildMoeSequence_eq (a : BuildArgs) (dir : Direction) :
    movedBytes dir (buildMoeSequence a) =
      hostShare dir (Ctx.ofArgs a).activationBytesTotal +
        a.layers.toNat * chunkShare dir (Ctx.ofArgs a).activationBytesTotal := by
  simp only [buildMoeSequence]
  generalize hr : List.foldl .. = sequence
  obtain ⟨-, hpos⟩ := isChain_foldl_buildLayer _ hr
    ((IsChain.nil.snoc rfl).snoc_last (by simp) (by simp)) (by simp)
  have hmid := congrArg (movedBytes dir) hr
  rw [movedBytes_foldl_buildLayer, movedBytes_appendStage, movedBytes_appendStage,
    List.length_range] at hmid
  rw [if_neg (by simpa [List.isEmpty_iff, ← List.length_eq_zero] using hpos.ne'),
    movedBytes_appendStage, ← hmid]
  cases dir <;> simp [movedBytes, hostLoadInputStage, embedStage, storeLogitsStage, chunkShare,
    hostShare]

theorem movesAChunk_buildMoeSequence (a : BuildArgs) :
    ∀ s ∈ buildMoeSequence a, MovesAChunk (Ctx.ofArgs a) s := by
  simp only [buildMoeSequence]
  have hfold : ∀ (layerIdxs : List Nat) (sequence : List Stage),
      (∀ s ∈ sequence, MovesAChunk (Ctx.ofArgs a) s) →
      ∀ s ∈ layerIdxs.foldl (buildLayer (Ctx.ofArgs a)) sequence, MovesAChunk (Ctx.ofArgs a) s := by
    intro layerIdxs
    induction layerIdxs with
    | nil => exact fun _ h => h
    | cons l rest ih => exact fun sequence h => ih _ (movesAChunk_buildLayer _ h l)
  generalize hr : List.foldl .. = sequence
  have hbody : ∀ s ∈ sequence, MovesAChunk (Ctx.ofArgs a) s := by
    rw [← hr]
    refine hfold _ _ (movesAChunk_appendStage
      (movesAChunk_appendStage (fun _ h => (List.not_mem_nil _ h).elim) ?_ _) ?_ _) <;>
    exact movesAChunk_of_direction (by simp [hostLoadInputStage, embedStage])
  split
  · refine movesAChunk_appendStage hbody ?_ _
    exact movesAChunk_of_direction (by simp [storeLogitsStage])
  · exact hbody

/-- The older builder moves `activation_bytes_total` bytes from the host and
back once, and to RRAM and back once per layer, whatever the number of
chunks.  With activations to move and both sizes below `2 ^ 53`, the float
`math.ceil` counts the chunks exactly, and each transfer to RRAM or back
moves between `1` and `chunk_bytes` bytes; above, the rounded quotient can
undercount them and leave the last chunk larger. -/
theorem movedBytes_buildMoeSequence (a : BuildArgs) :
    let ctx := Ctx.ofArgs a
    movedBytes .hostToDigital (buildMoeSequence a) = ctx.activationBytesTotal ∧
      movedBytes .digitalToHost (buildMoeSequence a) = ctx.activationBytesTotal ∧
      movedBytes .digitalToRram (buildMoeSequence a) = a.layers.toNat * ctx.activationBytesTotal ∧
      movedBytes .rramToDigital (buildMoeSequence a) = a.layers.toNat * ctx.activationBytesTotal ∧
      (0 < ctx.activationBytesTotal → ctx.activationBytesTotal < 2 ^ 53 →
        ctx.chunkBytes < 2 ^ 53 →
        max ⌈roundNearest ((ctx.activationBytesTotal : ℚ) / ctx.chunkBytes)⌉ 1 = ctx.numChunks ∧
        ∀ s ∈ buildMoeSequence a,
          s.direction = some .digitalToRram ∨ s.direction = some .rramToDigital →
          ∃ b, s.bytes = some b ∧ 1 ≤ b ∧ b ≤ ctx.chunkBytes) := by
  intro ctx
  refine ⟨?_, ?_, ?_, ?_, fun hact hact' hcb' => ?_⟩
  iterate 4 simp [movedBytes_buildMoeSequence_eq, hostShare, chunkShare, ctx]
  have hcb : 0 < ctx.chunkBytes := by
    simp only [ctx, Ctx.ofArgs]; omega
  refine ⟨by rw [ceil_roundNearest_div hact.le hact' hcb hcb']; rfl, fun s hs hdir => ?_⟩
  obtain ⟨i, hi⟩ := movesAChunk_buildMoeSequence a s hs hdir
  exact ⟨_, hi, chunkSize_pos_le ctx hact hcb i⟩

end UPIMulator.Chiplet.Legacy
