import UPIMulator.Chiplet.Dependencies

/-!
# RRAM chiplets

Why two stages never occupy one RRAM chiplet at once, and where the chunked
builder places its stages.

* `Stage.UsesRram` says when a stage occupies an RRAM chiplet: a transfer
  to or from it, or a computation placed on it.  Only the stages of the projections and of the MoE dispatch do
  (`Node.onSpine_of_usesRram`).
* These stages form one chain, the spine.  Each depends on the RRAM stage
  just before it (`Node.spinePrev_spec`), and no RRAM stage lies between the
  two (`Node.index_le_spinePrev`), so by strong induction on the position
  every RRAM stage depends on every earlier one (`Node.dependsOn_of_onSpine`),
  whatever chiplets they use (`rram_occupations_ordered`).
* `placements_in_range`: the digital placements of the stages of layer `l`
  and chunk `c` are `(l + c) % D`, the RRAM placements lie in `[0, R)`, and
  expert `e` sits on chiplet `e % R`.
-/

namespace UPIMulator.Chiplet

open UPIMulator.Python

/-- The stage occupies RRAM chiplet `r`: a `digital_to_rram` transfer or an
`rram_linear` stage on chiplet `r`, a `moe_linear` stage with an expert on
`r`, or an `rram_to_digital` transfer queued on `r`. -/
def Stage.UsesRram (r : Int) (s : Stage) : Prop :=
  (s.type = .transfer ∧ s.direction = some .digitalToRram ∧ s.chiplet = some r) ∨
  (s.type = .rramLinear ∧ s.chiplet = some r) ∨
  (s.type = .moeLinear ∧ ∃ e ∈ s.experts.getD [], e.chiplet = r) ∨
  (s.type = .transfer ∧ s.direction = some .rramToDigital ∧ s.queue = some r)

instance (r : Int) (s : Stage) : Decidable (s.UsesRram r) :=
  inferInstanceAs (Decidable
    ((s.type = .transfer ∧ s.direction = some .digitalToRram ∧ s.chiplet = some r) ∨
      (s.type = .rramLinear ∧ s.chiplet = some r) ∨
      (s.type = .moeLinear ∧ ∃ e ∈ s.experts.getD [], e.chiplet = r) ∨
      (s.type = .transfer ∧ s.direction = some .rramToDigital ∧ s.queue = some r)))

/-- The roles of the projections and of the MoE dispatch. -/
def Role.OnSpine : Role → Prop
  | .transferToRram _ | .projRram _ | .transferToDigital _
  | .moeTransferToRram | .moe | .moeTransferToDigital => True
  | _ => False

/-- The stages of the projections and of the MoE dispatch. -/
def Node.OnSpine : Node → Prop
  | .embed => False
  | .stage _ r _ => r.OnSpine

/-- The RRAM stage just before an RRAM stage: the stage before it in its
chunk or chain, or the last RRAM stage of the block before. -/
def Node.spinePrev (n : Nat) : Node → Option Node
  | .stage l (.transferToRram p) c =>
    if c = 0 then
      match p with
      | .q => if l = 0 then none else some (.stage (l - 1) .moeTransferToDigital (n - 1))
      | .k => some (.stage l (.transferToDigital .q) (n - 1))
      | .v => some (.stage l (.transferToDigital .k) (n - 1))
      | .o => some (.stage l (.transferToDigital .v) (n - 1))
    else some (.stage l (.transferToDigital p) (c - 1))
  | .stage l (.projRram p) c => some (.stage l (.transferToRram p) c)
  | .stage l (.transferToDigital p) c => some (.stage l (.projRram p) c)
  | .stage l .moeTransferToRram c =>
    some (if c = 0 then .stage l (.transferToDigital .o) (n - 1)
      else .stage l .moeTransferToDigital (c - 1))
  | .stage l .moe c => some (.stage l .moeTransferToRram c)
  | .stage l .moeTransferToDigital c => some (.stage l .moe c)
  | _ => none

/-! ## Positions within and across layers -/

section Offsets

variable {n : Nat}

theorem Role.offset_lt {c : Nat} (hc : c < n) (r : Role) : r.offset n c < 22 * n := by
  cases r <;> (try rename_i p; cases p) <;> simp [Role.offset] <;> omega

/-- The offsets of the RRAM stages within a layer: the `q`, `k` and `v`
projections, the `o` projection and the MoE dispatch. -/
theorem Role.offset_of_onSpine {r : Role} (hr : r.OnSpine) {c : Nat} (hc : c < n) :
    r.offset n c < 9 * n ∨ 12 * n ≤ r.offset n c ∧ r.offset n c < 15 * n ∨
      17 * n ≤ r.offset n c ∧ r.offset n c < 20 * n := by
  cases r <;> (try rename_i p; cases p) <;> simp [Role.OnSpine] at hr <;> simp [Role.offset] <;>
    omega

theorem layerBase_add_le {l l' : Nat} (h : l < l') : layerBase n l + 22 * n ≤ layerBase n l' := by
  have := Nat.mul_le_mul_left (22 * n) (Nat.succ_le_of_lt h)
  simp only [layerBase, Nat.mul_succ] at *
  omega

/-- Positions compare by layer first, then by offset. -/
theorem layerBase_add_lt_iff {l l' o o' : Nat} (ho : o < 22 * n) (ho' : o' < 22 * n) :
    layerBase n l + o < layerBase n l' + o' ↔ l < l' ∨ l = l' ∧ o < o' := by
  constructor
  · intro h
    rcases Nat.lt_trichotomy l l' with hl | rfl | hl
    · exact .inl hl
    · exact .inr ⟨rfl, by omega⟩
    · have := layerBase_add_le (n := n) hl; omega
  · rintro (hl | ⟨rfl, h⟩)
    · have := layerBase_add_le (n := n) hl; omega
    · omega

theorem layerBase_add_le_iff {l l' o o' : Nat} (ho : o < 22 * n) (ho' : o' < 22 * n) :
    layerBase n l + o ≤ layerBase n l' + o' ↔ l < l' ∨ l = l' ∧ o ≤ o' := by
  rw [← not_lt, layerBase_add_lt_iff ho' ho]
  omega

end Offsets

/-! ## The spine -/

section Spine

variable {n L : Nat} (hn : 0 < n)
include hn

/-- The RRAM stage before an RRAM stage is an RRAM stage of the build, and a
dependency. -/
theorem Node.spinePrev_spec {v p : Node} (hv : v.Valid n L) (hp : v.spinePrev n = some p) :
    v.DependsOn n p ∧ p.OnSpine ∧ p.Valid n L := by
  rcases v with _ | ⟨l, r, c⟩
  · simp [Node.spinePrev] at hp
  obtain ⟨hl, hc⟩ := hv
  cases r
  case transferToRram p' =>
    rcases c with _ | c
    · cases p'
      case q =>
        rcases l with _ | l
        · simp [Node.spinePrev] at hp
        simp only [Node.spinePrev, if_true, Nat.add_one_ne_zero, if_false, Nat.add_sub_cancel,
          Option.some.injEq] at hp
        subst hp
        exact ⟨.head' (b := .stage l .postprocess (n - 1)) (by simp [Node.deps, Proj.root])
          (reaches_moeTransferToDigital (l := l) (c := n - 1) hn (by omega)), trivial, by omega,
          by omega⟩
      case o =>
        simp only [Node.spinePrev, if_true, Option.some.injEq] at hp
        subst hp
        exact ⟨.head (b := .stage l .attnMix (n - 1)) (by simp [Node.deps, Proj.root])
          (.single (by simp [Node.deps])), trivial, hl, by omega⟩
      all_goals
        simp only [Node.spinePrev, if_true, Option.some.injEq] at hp
        subst hp
        exact ⟨.single (by simp [Node.deps, Proj.root]), trivial, hl, by omega⟩
    · simp only [Node.spinePrev, Nat.add_one_ne_zero, if_false, Nat.add_sub_cancel,
        Option.some.injEq] at hp
      subst hp
      exact ⟨.single (by simp [Node.deps]), trivial, hl, by omega⟩
  case moeTransferToRram =>
    rcases c with _ | c
    · simp only [Node.spinePrev, if_true, Option.some.injEq] at hp
      subst hp
      exact ⟨.head (b := .stage l .moeGating 0) (by simp [Node.deps])
        (.head (b := .stage l .postAttention 0) (by simp [Node.deps])
          (.single (by simp [Node.deps]))), trivial, hl, by omega⟩
    · simp only [Node.spinePrev, Nat.add_one_ne_zero, if_false, Nat.add_sub_cancel,
        Option.some.injEq] at hp
      subst hp
      exact ⟨.single (by simp [Node.deps, prevChunk]), trivial, hl, by omega⟩
  case projRram | transferToDigital | moe | moeTransferToDigital =>
    simp only [Node.spinePrev, Option.some.injEq] at hp
    subst hp
    exact ⟨.single (by simp [Node.deps]), trivial, hl, hc⟩
  all_goals simp [Node.spinePrev] at hp

/-- Where the RRAM stage before an RRAM stage sits: right before it, or at
the end of the block before (the `v` projection for `o`, the `o` projection
for the MoE dispatch, the MoE dispatch of the layer before for `q`). -/
theorem Node.spinePrev_position {l c lp cp : Nat} {r rp : Role} (hc : c < n)
    (hp : (Node.stage l r c).spinePrev n = some (.stage lp rp cp)) :
    lp = l ∧ rp.offset n cp + 1 = r.offset n c ∨
      lp = l ∧ rp.offset n cp + 1 = 9 * n ∧ r.offset n c = 12 * n ∨
      lp = l ∧ rp.offset n cp + 1 = 15 * n ∧ r.offset n c = 17 * n ∨
      lp + 1 = l ∧ rp.offset n cp + 1 = 20 * n ∧ r.offset n c = 0 := by
  cases r
  case transferToRram p =>
    rcases c with _ | c
    · cases p
      case q =>
        rcases l with _ | l <;> simp [Node.spinePrev] at hp
        obtain ⟨rfl, rfl, rfl⟩ := hp
        simp [Role.offset]; omega
      all_goals
        simp [Node.spinePrev] at hp
        obtain ⟨rfl, rfl, rfl⟩ := hp
        simp [Role.offset]; omega
    · simp [Node.spinePrev] at hp
      obtain ⟨rfl, rfl, rfl⟩ := hp
      simp [Role.offset]; omega
  case moeTransferToRram =>
    rcases c with _ | c <;> simp [Node.spinePrev] at hp <;> obtain ⟨rfl, rfl, rfl⟩ := hp <;>
      simp [Role.offset] <;> omega
  case projRram | transferToDigital | moe | moeTransferToDigital =>
    simp [Node.spinePrev] at hp
    obtain ⟨rfl, rfl, rfl⟩ := hp
    simp [Role.offset]
  all_goals simp [Node.spinePrev] at hp

/-- No RRAM stage lies strictly between an RRAM stage and the one before it. -/
theorem Node.index_le_spinePrev {v p w : Node} (hv : v.Valid n L) (hp : v.spinePrev n = some p)
    (hws : w.OnSpine) (hwv : w.Valid n L) (hlt : w.index n < v.index n) :
    w.index n ≤ p.index n := by
  obtain ⟨-, hps, hpv⟩ := Node.spinePrev_spec hn hv hp
  rcases w with _ | ⟨l', r', c'⟩
  · exact hws.elim
  rcases v with _ | ⟨l, r, c⟩
  · simp [Node.spinePrev] at hp
  rcases p with _ | ⟨lp, rp, cp⟩
  · exact hps.elim
  have hpos := Node.spinePrev_position hn hv.2 hp
  have hw := Role.offset_of_onSpine hws hwv.2
  simp only [Node.index] at hlt ⊢
  rw [layerBase_add_lt_iff (Role.offset_lt hwv.2 r') (Role.offset_lt hv.2 r)] at hlt
  rw [layerBase_add_le_iff (Role.offset_lt hwv.2 r') (Role.offset_lt hpv.2 rp)]
  omega

omit hn in
/-- The first RRAM stage of a build, `q_transfer_to_rram_L0_C0`, has no RRAM
stage before it. -/
theorem Node.index_of_spinePrev_eq_none {v : Node} (hvs : v.OnSpine)
    (hp : v.spinePrev n = none) : v.index n = 1 := by
  rcases v with _ | ⟨l, r, c⟩
  · exact hvs.elim
  cases r <;> simp [Node.OnSpine, Role.OnSpine] at hvs <;> simp [Node.spinePrev] at hp
  rename_i p
  rcases c with _ | c <;> cases p <;> rcases l with _ | l <;> simp [Node.spinePrev] at hp
  simp [Node.index, Role.offset, layerBase]

/-- Every RRAM stage of a build depends on every earlier one. -/
theorem Node.dependsOn_of_onSpine {v w : Node} (hvs : v.OnSpine) (hv : v.Valid n L)
    (hws : w.OnSpine) (hw : w.Valid n L) (hlt : w.index n < v.index n) : v.DependsOn n w := by
  obtain ⟨k, hk⟩ : ∃ k, v.index n = k := ⟨_, rfl⟩
  induction k using Nat.strong_induction_on generalizing v with
  | _ k ih =>
    subst hk
    cases hp : v.spinePrev n with
    | none =>
      rw [Node.index_of_spinePrev_eq_none hvs hp] at hlt
      rcases w with _ | ⟨l', r', c'⟩
      · exact hws.elim
      simp only [Node.index, layerBase] at hlt
      omega
    | some p =>
      obtain ⟨hdep, hps, hpv⟩ := Node.spinePrev_spec hn hv hp
      rcases (Node.index_le_spinePrev hn hv hp hws hw hlt).lt_or_eq with hlt' | heq
      · exact Relation.TransGen.trans hdep (ih _ (hdep.index_lt hn hv) hps hpv hlt' rfl)
      · rw [Node.index_injOn (mem_layoutNodes.mpr hw) (mem_layoutNodes.mpr hpv) heq]
        exact hdep

end Spine

/-- Only the stages of the projections and of the MoE dispatch occupy an RRAM
chiplet. -/
theorem Node.onSpine_of_usesRram (ctx : Ctx) {v : Node} {r : Int}
    (h : (stageAt ctx v).UsesRram r) : v.OnSpine := by
  rcases v with _ | ⟨l, r', c⟩
  · simp [Stage.UsesRram, stageAt, Node.record, embedStage] at h
  cases r' <;> simp only [Node.OnSpine, Role.OnSpine] <;>
    simp [Stage.UsesRram, stageAt, Node.record, attnScoreStage, softmaxStage, attnMixStage,
      postAttentionStage, moeGatingStage, moeMergeStage, postprocessStage] at h

/-- Any two stages of a build that occupy the same RRAM chiplet are ordered
by `deps`: the later one transitively depends on the earlier one. -/
theorem rram_occupations_ordered {a : BuildArgs} {seq : List Stage}
    (h : buildMoeSequence a = .ok seq) {r : Int} {i j : Nat} {s t : Stage}
    (hs : seq[i]? = some s) (ht : seq[j]? = some t) (hsr : s.UsesRram r) (htr : t.UsesRram r)
    (hij : i < j) : TransDep seq j i := by
  have hn := numChunks_ctx_pos a
  obtain rfl := eq_layout_of_buildMoeSequence h
  obtain ⟨hi, rfl⟩ := List.getElem?_eq_some_iff.mp hs
  obtain ⟨hj, rfl⟩ := List.getElem?_eq_some_iff.mp ht
  obtain ⟨v, hv, rfl, hvs⟩ := getElem_layout a.ctx hi
  obtain ⟨w, hw, rfl, hwt⟩ := getElem_layout a.ctx hj
  rw [hvs] at hsr
  rw [hwt] at htr
  exact (transDep_layout_iff a.ctx hn hw hv).mpr
    (Node.dependsOn_of_onSpine hn (Node.onSpine_of_usesRram a.ctx htr) (mem_layoutNodes.mp hw)
      (Node.onSpine_of_usesRram a.ctx hsr) (mem_layoutNodes.mp hv) hij)

/-- `q_transfer_to_rram_L0_C0` (position 1) and `moe_L0_C1` (position 39) both
occupy chiplet `0` of a two-chunk build. -/
theorem rram_occupations_ordered_two_chunks : TransDep (layout twoChunkArgs.ctx 1) 39 1 :=
  rram_occupations_ordered buildMoeSequence_twoChunkArgs (r := 0)
    (getElem?_layout twoChunkArgs.ctx (v := .stage 0 (.transferToRram .q) 0)
      (mem_layoutNodes.mpr ⟨by decide, by decide⟩))
    (getElem?_layout twoChunkArgs.ctx (v := .stage 0 .moe 1)
      (mem_layoutNodes.mpr ⟨by decide, by decide⟩))
    (by decide) (by decide) (by decide)

/-! ## Placements -/

/-- The digital placements of a stage: the `chiplet` and `queue` of the
digital compute stages, the `queue` of a `digital_to_rram` transfer and the
`chiplet` of an `rram_to_digital` transfer. -/
def Stage.digitalPlacements (s : Stage) : List (Option Int) :=
  match s.type, s.direction with
  | .attention, _ | .softmax, _ | .postprocess, _ | .moeGating, _ => [s.chiplet, s.queue]
  | .transfer, some .digitalToRram => [s.queue]
  | .transfer, some .rramToDigital => [s.chiplet]
  | _, _ => []

/-- The RRAM placements of a stage: the `chiplet` of a `digital_to_rram`
transfer or of an `rram_linear` stage, the `queue` of an `rram_to_digital`
transfer, and the `chiplet` of each expert. -/
def Stage.rramPlacements (s : Stage) : List (Option Int) :=
  (match s.type, s.direction with
    | .transfer, some .digitalToRram | .rramLinear, _ => [s.chiplet]
    | .transfer, some .rramToDigital => [s.queue]
    | _, _ => []) ++ (s.experts.getD []).map fun e => some e.chiplet

/-- The placements of a build of `L` layers of `n` chunks over `D` digital and
`R` RRAM chiplets: `(l + c) % D` for the digital placements of the stages of
layer `l` and chunk `c`, `[0, R)` for the RRAM ones, `e % R` for expert `e`. -/
def PlacementsInRange (seq : List Stage) (n L : Nat) (D R : Int) : Prop :=
  (∀ l r c, (Node.stage l r c).Valid n L → ∀ s, seq[(Node.stage l r c).index n]? = some s →
    ∀ x ∈ s.digitalPlacements, x = some (((l + c : Nat) : Int).fmod D)) ∧
  (∀ s ∈ seq, ∀ x ∈ s.rramPlacements, ∃ y, x = some y ∧ 0 ≤ y ∧ y < R) ∧
  (∀ s ∈ seq, ∀ e < (s.experts.getD []).length,
    (s.experts.getD [])[e]?.map Expert.chiplet = some ((e : Int).fmod R))

section Placements

variable (a : BuildArgs)

theorem chunkDigitalOwner_ctx (l c : Nat) :
    a.ctx.chunkDigitalOwner l c = ((l + c : Nat) : Int).fmod (max a.digitalChiplets 1) :=
  if_neg (not_le.mpr (lt_of_lt_of_le Int.zero_lt_one (le_max_right _ _)))

theorem rramChiplets_ctx_pos : 0 < a.ctx.rramChiplets := lt_of_lt_of_le Int.zero_lt_one (le_max_right _ _)

/-- `expert_chips[e]` is `e % R`. -/
theorem getElem?_expertChips {e : Nat} (he : e < a.numExperts.toNat) :
    a.ctx.expertChips[e]? = some ((e : Int).fmod a.ctx.rramChiplets) := by
  simp [BuildArgs.ctx, Ctx.ofArgs, he]

/-- Every entry of `expert_chips`, and its default `0`, is an RRAM chiplet. -/
theorem getD_expertChips_lt (k : Nat) :
    0 ≤ a.ctx.expertChips[k]?.getD 0 ∧ a.ctx.expertChips[k]?.getD 0 < a.ctx.rramChiplets := by
  by_cases hk : k < a.numExperts.toNat
  · rw [getElem?_expertChips a hk]
    exact fmod_nonneg_lt (rramChiplets_ctx_pos a)
  · rw [List.getElem?_eq_none (by simp [BuildArgs.ctx, Ctx.ofArgs]; omega)]
    exact ⟨le_rfl, rramChiplets_ctx_pos a⟩

theorem digitalPlacements_stageAt (l : Nat) (r : Role) (c : Nat) :
    ∀ x ∈ (stageAt a.ctx (.stage l r c)).digitalPlacements,
      x = some (((l + c : Nat) : Int).fmod (max a.digitalChiplets 1)) := by
  cases r <;> simp [Stage.digitalPlacements, stageAt, Node.record, projTransferToRram, projRram,
    projTransferToDigital, attnScoreStage, softmaxStage, attnMixStage, postAttentionStage,
    moeGatingStage, moeTransferToRram, moeLinearStage, moeTransferToDigital, moeMergeStage,
    postprocessStage, chunkDigitalOwner_ctx]

theorem rramPlacements_stageAt (v : Node) :
    ∀ x ∈ (stageAt a.ctx v).rramPlacements, ∃ y, x = some y ∧ 0 ≤ y ∧ y < a.ctx.rramChiplets := by
  have hproj : ∀ l p, 0 ≤ a.ctx.projRramId l p ∧ a.ctx.projRramId l p < a.ctx.rramChiplets :=
    fun _ _ => fmod_nonneg_lt (rramChiplets_ctx_pos a)
  rcases v with _ | ⟨l, r, c⟩
  · simp [Stage.rramPlacements, stageAt, Node.record, embedStage]
  cases r <;> simp [Stage.rramPlacements, stageAt, Node.record, projTransferToRram, projRram,
    projTransferToDigital, attnScoreStage, softmaxStage, attnMixStage, postAttentionStage,
    moeGatingStage, moeTransferToRram, moeLinearStage, moeTransferToDigital, moeMergeStage,
    postprocessStage, hproj, Ctx.moeTargetChip, getD_expertChips_lt, expertsTemplate, chunkExpert]

/-- Expert `e` of a `moe_linear` stage sits on chiplet `e % R`. -/
theorem experts_stageAt (v : Node) : ∀ e < ((stageAt a.ctx v).experts.getD []).length,
    ((stageAt a.ctx v).experts.getD [])[e]?.map Expert.chiplet =
      some ((e : Int).fmod a.ctx.rramChiplets) := by
  rcases v with _ | ⟨l, r, c⟩
  · simp [stageAt, Node.record, embedStage]
  cases r <;> simp [stageAt, Node.record, projTransferToRram, projRram, projTransferToDigital,
    attnScoreStage, softmaxStage, attnMixStage, postAttentionStage, moeGatingStage,
    moeTransferToRram, moeLinearStage, moeTransferToDigital, moeMergeStage, postprocessStage,
    expertsTemplate, chunkExpert]
  intro e he
  have he' : e < a.numExperts.toNat := Int.lt_toNat.mpr he
  exact ⟨e, List.getElem?_range he', by rw [getElem?_expertChips a he']; rfl⟩

end Placements

/-- The placements of every build that returns. -/
theorem placements_in_range {a : BuildArgs} {seq : List Stage} (h : buildMoeSequence a = .ok seq) :
    PlacementsInRange seq a.ctx.numChunks a.layers.toNat (max a.digitalChiplets 1)
      (max a.rramChiplets 1) := by
  obtain rfl := eq_layout_of_buildMoeSequence h
  refine ⟨fun l r c hv s hs => ?_, fun s hs => ?_, fun s hs => ?_⟩
  · rw [getElem?_layout a.ctx (mem_layoutNodes.mpr hv), Option.some.injEq] at hs
    exact hs ▸ digitalPlacements_stageAt a l r c
  · obtain ⟨v, -, rfl⟩ := List.mem_map.mp hs
    exact rramPlacements_stageAt a v
  · obtain ⟨v, -, rfl⟩ := List.mem_map.mp hs
    exact experts_stageAt a v

theorem placements_in_range_two_layers :
    PlacementsInRange (layout twoLayerArgs.ctx 2) twoLayerArgs.ctx.numChunks 2 2 2 :=
  placements_in_range buildMoeSequence_twoLayerArgs

end UPIMulator.Chiplet
