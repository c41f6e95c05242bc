import UPIMulator.Chiplet.Dependencies
import Mathlib.Data.Nat.Digits

/-!
# The shape of a chunked specification

What a build of the chunked `build_moe_sequence` looks like as a whole, for
every number of layers and every chunk plan.

* `toDigits_ten_injective`: the decimal numerals that `f"..._L{layer_idx}_C{chunk_idx}"`
  writes are injective, consist of digits and are never empty.  Core has the
  function but none of these facts, so the first section proves them from the
  recursion of `Nat.toDigits` (`toDigits_ten`).
* `Node.name_injective`: the stage names of different nodes differ.  A name
  ends in `_L`, the layer, `_C` and the chunk; read backwards it splits at its
  first non-digit in one way only (`split_digits`), which recovers the chunk,
  the layer and the role's prefix (`Role.namePrefix_injective`).
* `Stage.ChunkFields`: the values of every `chunk_index` and `chunk_total` key
  of a stage, in its `aux` and `metadata` maps and in its expert sub-records.
* `sequence_shape`: with at least one expert the build returns a sequence of
  `1 + 22 * L * n` stages, each node's stage at the node's position and
  nowhere else, all names distinct, `num_experts` sub-records on each
  `moe_linear` stage, and every chunk field in range, where `n` is the length
  of the plan of `build_chunk_plan` (`1` for `[]`).
-/

namespace UPIMulator.Chiplet

/-! ## Decimal numerals -/

/-- `toDigitsCore` prepends the digits it produces to its accumulator. -/
private theorem toDigitsCore_append (fuel n : Nat) (ds : List Char) :
    Nat.toDigitsCore 10 fuel n ds = Nat.toDigitsCore 10 fuel n [] ++ ds := by
  induction fuel generalizing n ds with
  | zero => rfl
  | succ fuel ih =>
    simp only [Nat.toDigitsCore]
    split
    · rfl
    · rw [ih _ (_ :: ds), ih _ [_], List.append_assoc, List.singleton_append]

/-- Any fuel above the number gives the same digits. -/
private theorem toDigitsCore_fuel (f g n : Nat) (hf : n < f) (hg : n < g) :
    Nat.toDigitsCore 10 f n [] = Nat.toDigitsCore 10 g n [] := by
  induction f generalizing g n with
  | zero => omega
  | succ f ih =>
    obtain ⟨g, rfl⟩ : ∃ g', g = g' + 1 := ⟨g - 1, by omega⟩
    simp only [Nat.toDigitsCore]
    split
    · rfl
    · rw [toDigitsCore_append f, toDigitsCore_append g, ih g (n / 10) (by omega) (by omega)]

/-- The decimal numeral of `n`: one digit below ten, else the numeral of
`n / 10` followed by the digit of `n % 10`. -/
theorem toDigits_ten (n : Nat) :
    Nat.toDigits 10 n =
      if n < 10 then [Nat.digitChar n] else Nat.toDigits 10 (n / 10) ++ [Nat.digitChar (n % 10)] := by
  rw [Nat.toDigits, Nat.toDigitsCore]
  split_ifs with h₁ h₂ h₂
  · rw [Nat.mod_eq_of_lt h₂]
  · omega
  · omega
  · rw [toDigitsCore_append, toDigitsCore_fuel n (n / 10 + 1) (n / 10) (by omega) (by omega)]
    rfl

theorem isDigit_digitChar {d : Nat} (h : d < 10) : (Nat.digitChar d).isDigit := by
  revert d; decide

theorem digitChar_inj : ∀ d < 10, ∀ e < 10, Nat.digitChar d = Nat.digitChar e → d = e := by
  decide

theorem toDigits_ne_nil (n : Nat) : Nat.toDigits 10 n ≠ [] := by
  rw [toDigits_ten]; split <;> simp

theorem isDigit_of_mem_toDigits (n : Nat) : ∀ x ∈ Nat.toDigits 10 n, x.isDigit := by
  induction n using Nat.strong_induction_on with
  | _ n ih =>
    rw [toDigits_ten]
    split_ifs with h
    · simpa using isDigit_digitChar h
    · simp only [List.mem_append, List.mem_singleton]
      rintro x (hx | rfl)
      · exact ih (n / 10) (by omega) x hx
      · exact isDigit_digitChar (Nat.mod_lt _ (by omega))

/-- Different numbers have different decimal numerals. -/
theorem toDigits_ten_injective : Function.Injective (Nat.toDigits 10) := by
  intro a
  induction a using Nat.strong_induction_on with
  | _ a ih =>
    intro b h
    rw [toDigits_ten a, toDigits_ten b] at h
    split_ifs at h with ha hb hb
    · exact digitChar_inj a ha b hb (List.singleton_inj.mp h)
    · exact absurd (List.append_inj' (h.symm.trans (List.nil_append _).symm) rfl).1
        (toDigits_ne_nil _)
    · exact absurd (List.append_inj' (h.trans (List.nil_append _).symm) rfl).1 (toDigits_ne_nil _)
    · obtain ⟨hq, hr⟩ := List.append_inj' h rfl
      have hq' := ih (a / 10) (by omega) hq
      have hr' := digitChar_inj _ (Nat.mod_lt a (by omega)) _ (Nat.mod_lt b (by omega))
        (List.singleton_inj.mp hr)
      omega

/-- A run of digits followed by a non-digit splits there in one way only. -/
theorem split_digits {d₁ d₂ r₁ r₂ : List Char} {x₁ x₂ : Char}
    (hd₁ : ∀ x ∈ d₁, x.isDigit) (hd₂ : ∀ x ∈ d₂, x.isDigit)
    (hx₁ : ¬ x₁.isDigit) (hx₂ : ¬ x₂.isDigit) (h : d₁ ++ x₁ :: r₁ = d₂ ++ x₂ :: r₂) :
    d₁ = d₂ ∧ x₁ = x₂ ∧ r₁ = r₂ := by
  have ht := congrArg (List.takeWhile Char.isDigit) h
  have hdrop := congrArg (List.dropWhile Char.isDigit) h
  simp only [List.takeWhile_append_of_pos hd₁, List.takeWhile_append_of_pos hd₂,
    List.takeWhile_cons_of_neg hx₁, List.takeWhile_cons_of_neg hx₂, List.append_nil] at ht
  simp only [List.dropWhile_append_of_pos hd₁, List.dropWhile_append_of_pos hd₂,
    List.dropWhile_cons_of_neg hx₁, List.dropWhile_cons_of_neg hx₂, List.cons.injEq] at hdrop
  exact ⟨ht, hdrop⟩

/-! ## Stage names -/

/-- The part of a stage name before `_L`. -/
def Role.namePrefix : Role → String
  | .transferToRram p => p.label ++ "_transfer_to_rram"
  | .projRram p => p.label ++ "_proj_rram"
  | .transferToDigital p => p.label ++ "_transfer_to_digital"
  | .attnScore => "attn_score"
  | .softmax => "softmax"
  | .attnMix => "attn_mix"
  | .postAttention => "post_attention"
  | .moeGating => "moe_gating"
  | .moeTransferToRram => "moe_transfer_to_rram"
  | .moe => "moe"
  | .moeTransferToDigital => "moe_transfer_to_digital"
  | .moeMerge => "moe_merge"
  | .postprocess => "postprocess"

/-- The roles of a layer. -/
def Role.all : List Role :=
  [.transferToRram .q, .projRram .q, .transferToDigital .q,
    .transferToRram .k, .projRram .k, .transferToDigital .k,
    .transferToRram .v, .projRram .v, .transferToDigital .v,
    .transferToRram .o, .projRram .o, .transferToDigital .o,
    .attnScore, .softmax, .attnMix, .postAttention, .moeGating,
    .moeTransferToRram, .moe, .moeTransferToDigital, .moeMerge, .postprocess]

theorem Role.namePrefix_injective : Function.Injective Role.namePrefix := by
  have key : ∀ r : Role, Role.all.find? (·.namePrefix == r.namePrefix) = some r := by
    intro r
    cases r <;> (try rename_i p; cases p) <;> rfl
  intro r₁ r₂ h
  have h₁ := key r₁
  rw [h, key r₂] at h₁
  exact (Option.some.inj h₁).symm

private theorem toString_string (s : String) : toString s = s := rfl

private theorem data_empty : "".data = [] := rfl

/-- A stage name is its prefix, `_L`, the layer, `_C` and the chunk. -/
theorem Node.name_data (l : Nat) (r : Role) (c : Nat) :
    (Node.stage l r c).name.data =
      r.namePrefix.data ++ '_' :: 'L' :: (Nat.toDigits 10 l ++ '_' :: 'C' :: Nat.toDigits 10 c) := by
  cases r <;> simp only [Node.name, Role.namePrefix, toString_string, String.data_append,
    List.append_assoc, data_empty, List.nil_append, List.append_nil] <;> rfl

/-- Read backwards, a stage name starts with the digits of the chunk. -/
theorem Node.name_data_reverse (l : Nat) (r : Role) (c : Nat) :
    (Node.stage l r c).name.data.reverse =
      (Nat.toDigits 10 c).reverse ++ 'C' :: '_' ::
        ((Nat.toDigits 10 l).reverse ++ 'L' :: '_' :: r.namePrefix.data.reverse) := by
  simp [Node.name_data]

private theorem isDigit_of_mem_reverse (n : Nat) : ∀ x ∈ (Nat.toDigits 10 n).reverse, x.isDigit :=
  fun x hx => isDigit_of_mem_toDigits n x (List.mem_reverse.mp hx)

/-- Different nodes have different stage names. -/
theorem Node.name_injective : Function.Injective Node.name := by
  have hC : ¬ ('C').isDigit := by decide
  have hL : ¬ ('L').isDigit := by decide
  rintro (_ | ⟨l₁, r₁, c₁⟩) (_ | ⟨l₂, r₂, c₂⟩) h
  · rfl
  · have h' := congrArg (fun s : String => s.data.reverse.takeWhile Char.isDigit) h
    simp only [Node.name_data_reverse, List.takeWhile_append_of_pos (isDigit_of_mem_reverse _),
      List.takeWhile_cons_of_neg hC, List.append_nil] at h'
    exact absurd (List.reverse_eq_nil_iff.mp (h'.symm.trans rfl)) (toDigits_ne_nil _)
  · have h' := congrArg (fun s : String => s.data.reverse.takeWhile Char.isDigit) h
    simp only [Node.name_data_reverse, List.takeWhile_append_of_pos (isDigit_of_mem_reverse _),
      List.takeWhile_cons_of_neg hC, List.append_nil] at h'
    exact absurd (List.reverse_eq_nil_iff.mp (h'.trans rfl)) (toDigits_ne_nil _)
  · have h' := congrArg (fun s : String => s.data.reverse) h
    simp only [Node.name_data_reverse] at h'
    obtain ⟨hc, -, h'⟩ := split_digits (isDigit_of_mem_reverse _) (isDigit_of_mem_reverse _) hC hC h'
    simp only [List.cons.injEq, true_and] at h'
    obtain ⟨hl, -, h'⟩ := split_digits (isDigit_of_mem_reverse _) (isDigit_of_mem_reverse _) hL hL h'
    simp only [List.cons.injEq, true_and, List.reverse_inj] at h'
    rw [toDigits_ten_injective (List.reverse_inj.mp hc), toDigits_ten_injective (List.reverse_inj.mp hl),
      Role.namePrefix_injective (String.ext h')]

/-! ## Chunk fields and expert sub-records -/

/-- The values of the key `key` in an `aux` or `metadata` map. -/
def AuxMap.valuesOf (key : String) (m : AuxMap) : List AuxValue :=
  (m.filter (·.1 == key)).map (·.2)

/-- The values an expert sub-record gives the key `key`; its `chunk_index`
key is the field `chunkIndex`. -/
def Expert.valuesOf (key : String) (e : Expert) : List AuxValue :=
  (if key = "chunk_index" then e.chunkIndex.toList.map fun c => .int c else []) ++
    (e.metadata.getD []).valuesOf key

/-- The values a stage gives the key `key`: in its `aux` and `metadata` maps
and in its expert sub-records. -/
def Stage.valuesOf (key : String) (s : Stage) : List AuxValue :=
  (s.aux.getD []).valuesOf key ++ (s.metadata.getD []).valuesOf key ++
    (s.experts.getD []).flatMap (Expert.valuesOf key)

/-- Every `chunk_index` of a stage lies in `[0, n)` and every `chunk_total`
is `n`. -/
def Stage.ChunkFields (n : Nat) (s : Stage) : Prop :=
  (∀ x ∈ s.valuesOf "chunk_index", ∃ c : Int, x = .int c ∧ 0 ≤ c ∧ c < n) ∧
    ∀ x ∈ s.valuesOf "chunk_total", x = .int n

/-- The stage of a node of chunk `c < n` gives `chunk_index` the value `c`
and `chunk_total` the value `n`, wherever it has these keys. -/
theorem chunkFields_stageAt (ctx : Ctx) {L : Nat} {v : Node} (hv : v.Valid ctx.numChunks L) :
    (stageAt ctx v).ChunkFields ctx.numChunks := by
  rcases v with _ | ⟨l, r, c⟩
  · simp [Stage.ChunkFields, Stage.valuesOf, AuxMap.valuesOf, stageAt, Node.record, embedStage]
  have hc : (c : Int) < ctx.numChunks := Int.ofNat_lt.mpr hv.2
  cases r <;> simp [Stage.ChunkFields, Stage.valuesOf, AuxMap.valuesOf, Expert.valuesOf, stageAt,
    Node.record, projTransferToRram, projRram, projTransferToDigital, attnScoreStage, softmaxStage,
    attnMixStage, postAttentionStage, moeGatingStage, moeTransferToRram, moeLinearStage,
    moeTransferToDigital, moeMergeStage, postprocessStage, projAux, chunkMetadata, moeAux,
    expertsTemplate, chunkExpert, hc, Int.natCast_nonneg]

/-- A `moe_linear` stage carries one sub-record per expert. -/
theorem length_experts_stageAt (ctx : Ctx) (v : Node) (h : (stageAt ctx v).type = .moeLinear) :
    (stageAt ctx v).experts.map List.length = some ctx.numExperts.toNat := by
  rcases v with _ | ⟨l, r, c⟩
  · simp [stageAt, Node.record, embedStage] at h
  cases r <;> simp [stageAt, Node.record, projTransferToRram, projRram, projTransferToDigital,
    attnScoreStage, softmaxStage, attnMixStage, postAttentionStage, moeGatingStage,
    moeTransferToRram, moeLinearStage, moeTransferToDigital, moeMergeStage, postprocessStage,
    expertsTemplate] at h ⊢

/-! ## The shape -/

/-- The shape of a sequence of `L` layers of `n` chunks with `E` experts. -/
structure SequenceShape (seq : List Stage) (n L E : Nat) : Prop where
  /-- `1 + 22 * L * n` stages. -/
  length_eq : seq.length = 1 + 22 * L * n
  /-- The stage of each node sits at the node's position: `embed` first, then
  each layer in the order of `Role.offset`. -/
  name_at : ∀ v : Node, v.Valid n L → seq[v.index n]?.map Stage.name = some v.name
  /-- The stage of each node appears once. -/
  count_name : ∀ v : Node, v.Valid n L → (seq.map Stage.name).count v.name = 1
  /-- No two stages share a name. -/
  nodup_names : (seq.map Stage.name).Nodup
  /-- Every `moe_linear` stage has `E` expert sub-records. -/
  experts_length : ∀ s ∈ seq, s.type = .moeLinear → s.experts.map List.length = some E
  /-- Every chunk field is in range. -/
  chunk_fields : ∀ s ∈ seq, s.ChunkFields n

theorem layout_shape (ctx : Ctx) (L : Nat) :
    SequenceShape (layout ctx L) ctx.numChunks L ctx.numExperts.toNat := by
  have hnames : (layout ctx L).map Stage.name = (layoutNodes ctx.numChunks L).map Node.name := by
    simp only [layout, List.map_map]
    exact List.map_congr_left fun v _ => name_stageAt ctx v
  have hnodup : (layoutNodes ctx.numChunks L).Nodup :=
    List.Nodup.of_map (Node.index ctx.numChunks)
      (by rw [map_index_layoutNodes]; exact List.nodup_range _)
  have hnd : ((layout ctx L).map Stage.name).Nodup := hnames ▸ hnodup.map Node.name_injective
  refine ⟨?_, fun v hv => ?_, fun v hv => ?_, hnd, fun s hs h => ?_, fun s hs => ?_⟩
  · rw [layout, List.length_map, length_layoutNodes, Nat.mul_right_comm]
  · rw [getElem?_layout ctx (mem_layoutNodes.mpr hv), Option.map_some', name_stageAt]
  · exact List.count_eq_one_of_mem hnd (hnames ▸ List.mem_map_of_mem _ (mem_layoutNodes.mpr hv))
  · obtain ⟨v, -, rfl⟩ := List.mem_map.mp hs
    exact length_experts_stageAt ctx v h
  · obtain ⟨v, hv, rfl⟩ := List.mem_map.mp hs
    exact chunkFields_stageAt ctx (mem_layoutNodes.mp hv)

theorem length_resolveChunkPlan (tokens : Int) (plan : List Int) :
    (resolveChunkPlan tokens plan).length = max plan.length 1 := by
  cases plan <;> simp [resolveChunkPlan]

/-- With at least one expert, `build_moe_sequence` returns a sequence of the
shape above, `n` being the length of the plan of `build_chunk_plan`, or `1`
when the plan is empty. -/
theorem sequence_shape (a : BuildArgs) (hE : 1 ≤ a.numExperts) :
    ∃ plan, buildChunkPlan (a.seqLength * a.batch) a.hiddenSize (max a.dtypeBytes 1)
        (max a.chunkBytes (max a.dtypeBytes 1)) = .ok plan ∧
      ∃ seq, buildMoeSequence a = .ok seq ∧
        SequenceShape seq (max plan.length 1) a.layers.toNat a.numExperts.toNat := by
  refine ⟨_, buildChunkPlan_eq _ _ _ _ (le_max_right _ _), layout a.ctx a.layers.toNat, ?_, ?_⟩
  · rw [buildMoeSequence_eq, if_neg (by omega)]
    rfl
  · rw [← length_resolveChunkPlan (a.seqLength * a.batch)]
    exact layout_shape a.ctx a.layers.toNat

theorem sequence_shape_two_chunks :
    1 ≤ twoChunkArgs.numExperts ∧
      ∃ plan, buildChunkPlan 2 1 1 1 = .ok plan ∧ ∃ seq, buildMoeSequence twoChunkArgs = .ok seq ∧
        SequenceShape seq (max plan.length 1) 1 1 :=
  ⟨by decide, sequence_shape twoChunkArgs (by decide)⟩

end UPIMulator.Chiplet
