import UPIMulator.Python
import Mathlib.Algebra.Order.Group.Int
import Mathlib.Algebra.BigOperators.Group.List
import Mathlib.Data.Nat.Cast.Basic
import Mathlib.Algebra.Ring.Int.Defs

/-!
# The chunk planner

`build_chunk_plan(tokens, hidden_size, dtype_bytes, chunk_bytes)` cuts the
token stream into chunks that fit a byte budget: one token costs
`p = max(hidden_size * dtype_bytes, dtype_bytes)` bytes, a chunk holds
`t = max(chunk_bytes // p, 1)` tokens, and a `while` loop takes
`min(t, remaining)` tokens until none remain.

`takeChunks` is that loop.  It is given `tokens` rounds of fuel, which is
enough because every round takes at least one token: `takeChunks_eq` shows
that any fuel of at least `remaining` rounds ends with the same list, so the
loop stops on its own test.  The list it ends with is `evenChunks t tokens`:
`tokens / t` chunks of `t` tokens, then the remainder when it is not zero.

`buildChunkPlan_spec` is the contract of the planner for every integer input
with `dtype_bytes ≥ 1`, the only inputs `build_moe_sequence` passes after its
clamp: the exact shape, that every chunk is non-empty, that the chunks cover
the tokens, their number, and the byte bound of one chunk.
-/

namespace UPIMulator.Chiplet

open UPIMulator.Python

/-- The `while remaining > 0` loop of `build_chunk_plan`, run for at most
`fuel` rounds. -/
def takeChunks (tokensPerChunk : Int) : Nat → Int → List Int → List Int
  | 0, _, plan => plan
  | fuel + 1, remaining, plan =>
    if remaining > 0 then
      let take := min tokensPerChunk remaining
      takeChunks tokensPerChunk fuel (remaining - take) (plan ++ [take])
    else plan

/-- `build_chunk_plan`.  The `//` raises when the per-token size is `0`,
which happens for `dtype_bytes = 0` only. -/
def buildChunkPlan (tokens hiddenSize dtypeBytes chunkBytes : Int) :
    Except PyError (List Int) :=
  if tokens ≤ 0 then pure [] else do
    let perTokenBytes := max (hiddenSize * dtypeBytes) dtypeBytes
    let perTokenBytes := if perTokenBytes ≤ 0 then dtypeBytes else perTokenBytes
    let tokensPerChunk := max (← pyFloorDiv chunkBytes perTokenBytes) 1
    let plan := takeChunks tokensPerChunk tokens.toNat tokens []
    pure (if plan.isEmpty then [tokens] else plan)

/-- `tokens / t` chunks of `t` tokens, then the remainder `tokens % t` when it
is not zero. -/
def evenChunks (t tokens : Int) : List Int :=
  List.replicate (tokens / t).toNat t ++ (if 0 < tokens % t then [tokens % t] else [])

/-! ## The loop -/

theorem evenChunks_zero (t : Int) : evenChunks t 0 = [] := by
  simp [evenChunks]

/-- A remainder below one full chunk is the last chunk. -/
theorem evenChunks_of_lt {t r : Int} (h0 : 0 < r) (h : r < t) : evenChunks t r = [r] := by
  have hq : r / t = 0 := Int.ediv_eq_zero_of_lt (by omega) h
  have hr : r % t = r := Int.emod_eq_of_lt (by omega) h
  simp [evenChunks, hq, hr, h0]

/-- A remainder of at least one chunk starts with a full chunk. -/
theorem evenChunks_of_le {t r : Int} (ht : 1 ≤ t) (h : t ≤ r) :
    evenChunks t r = t :: evenChunks t (r - t) := by
  have hdiv : r / t = (r - t) / t + 1 := by
    have := Int.add_mul_ediv_right (r - t) 1 (show t ≠ 0 by omega)
    rwa [Int.one_mul, Int.sub_add_cancel] at this
  have hmod : r % t = (r - t) % t := by
    have := @Int.add_mul_emod_self (r - t) 1 t
    rwa [Int.one_mul, Int.sub_add_cancel] at this
  have hnn : 0 ≤ (r - t) / t := Int.ediv_nonneg (by omega) (by omega)
  have htoNat : (r / t).toNat = ((r - t) / t).toNat + 1 := by omega
  simp only [evenChunks, htoNat, hmod, List.replicate_succ, List.cons_append]

/-- The loop, given enough fuel, appends `evenChunks t remaining`. -/
theorem takeChunks_eq {t : Int} (ht : 1 ≤ t) :
    ∀ (fuel : Nat) (remaining : Int) (plan : List Int), 0 ≤ remaining →
      remaining.toNat ≤ fuel →
      takeChunks t fuel remaining plan = plan ++ evenChunks t remaining := by
  intro fuel
  induction fuel with
  | zero =>
    intro remaining plan h0 hfuel
    have : remaining = 0 := by omega
    subst this
    simp [takeChunks, evenChunks_zero]
  | succ fuel ih =>
    intro remaining plan h0 hfuel
    by_cases hpos : 0 < remaining
    · simp only [takeChunks, gt_iff_lt, hpos, if_true]
      rcases lt_or_le remaining t with hlt | hle
      · rw [min_eq_right hlt.le, Int.sub_self, ih 0 _ le_rfl (by omega),
          evenChunks_zero, evenChunks_of_lt hpos hlt, List.append_nil]
      · rw [min_eq_left hle, ih _ _ (by omega) (by omega), evenChunks_of_le ht hle]
        simp
    · have : remaining = 0 := by omega
      subst this
      simp [takeChunks, evenChunks_zero]

/-! ## The shape of a plan -/

section Shape

variable {t tokens : Int}

theorem mem_evenChunks (ht : 1 ≤ t) {e : Int} (he : e ∈ evenChunks t tokens) :
    1 ≤ e ∧ e ≤ t := by
  simp only [evenChunks, List.mem_append, List.mem_replicate] at he
  rcases he with ⟨-, rfl⟩ | he
  · exact ⟨ht, le_rfl⟩
  · split_ifs at he with hr
    · have := Int.emod_lt_of_pos tokens (show 0 < t by omega)
      simp only [List.mem_singleton] at he
      omega
    · simp at he

theorem sum_evenChunks (ht : 1 ≤ t) (h0 : 0 ≤ tokens) : (evenChunks t tokens).sum = tokens := by
  have hq : 0 ≤ tokens / t := Int.ediv_nonneg h0 (by omega)
  have hsum := Int.ediv_add_emod tokens t
  have hr := Int.emod_nonneg tokens (show t ≠ 0 by omega)
  simp only [evenChunks, List.sum_append, List.sum_replicate, nsmul_eq_mul,
    Int.toNat_of_nonneg hq, Int.mul_comm _ t]
  split_ifs <;> simp <;> omega

/-- There are `⌈tokens / t⌉` chunks. -/
theorem length_evenChunks (ht : 1 ≤ t) (h0 : 0 ≤ tokens) :
    ((evenChunks t tokens).length : Int) = (tokens + t - 1) / t := by
  have hq : 0 ≤ tokens / t := Int.ediv_nonneg h0 (by omega)
  have hr := Int.emod_nonneg tokens (show t ≠ 0 by omega)
  have hrt := Int.emod_lt_of_pos tokens (show 0 < t by omega)
  have hsplit : tokens + t - 1 = (tokens % t + t - 1) + tokens / t * t := by
    have := Int.emod_add_ediv tokens t
    rw [Int.mul_comm] at this
    omega
  rw [hsplit, Int.add_mul_ediv_right _ _ (show t ≠ 0 by omega)]
  simp only [evenChunks, List.length_append, List.length_replicate]
  split_ifs with hpos
  · have hlast : (tokens % t + t - 1) / t = 1 :=
      (@Int.ediv_emod_unique _ _ (tokens % t - 1) 1 (by omega)).mpr
        ⟨by omega, by omega, by omega⟩ |>.1
    simp only [List.length_singleton, Nat.cast_add, Int.toNat_of_nonneg hq, hlast]
    omega
  · rw [@Int.ediv_eq_zero_of_lt (tokens % t + t - 1) t (by omega) (by omega)]
    simp [Int.toNat_of_nonneg hq]

/-- A chunk of at most `t` tokens fits in `max(chunk_bytes, p)` bytes. -/
theorem tokensPerChunk_mul_le {p chunkBytes : Int} (hp : 1 ≤ p) :
    max (chunkBytes.fdiv p) 1 * p ≤ max chunkBytes p := by
  rw [Int.fdiv_eq_ediv _ (by omega)]
  rcases le_total (chunkBytes / p) 1 with h | h
  · rw [max_eq_right h]; omega
  · rw [max_eq_left h]
    exact le_trans (Int.ediv_mul_le _ (by omega)) (le_max_left _ _)

end Shape

/-! ## The planner -/

/-- The planner, for `dtype_bytes ≥ 1`, is `evenChunks t tokens` on a positive
token count and `[]` otherwise. -/
theorem buildChunkPlan_eq (tokens hiddenSize dtypeBytes chunkBytes : Int)
    (hd : 1 ≤ dtypeBytes) :
    buildChunkPlan tokens hiddenSize dtypeBytes chunkBytes =
      pure (if tokens ≤ 0 then [] else
        evenChunks (max (chunkBytes.fdiv (max (hiddenSize * dtypeBytes) dtypeBytes)) 1) tokens) := by
  by_cases h : tokens ≤ 0
  · simp only [buildChunkPlan, if_pos h]
  set p := max (hiddenSize * dtypeBytes) dtypeBytes
  set t := max (chunkBytes.fdiv p) 1
  have hp : 1 ≤ p := le_trans hd (le_max_right _ _)
  have ht : 1 ≤ t := le_max_right _ _
  have hne : evenChunks t tokens ≠ [] := by
    rcases lt_or_le tokens t with hlt | hle
    · rw [evenChunks_of_lt (by omega) hlt]; simp
    · rw [evenChunks_of_le ht hle]; simp
  simp only [buildChunkPlan, if_neg h]
  rw [if_neg (show ¬ p ≤ 0 by omega), pyFloorDiv_of_ne_zero (by omega), pure_bind,
    takeChunks_eq ht _ _ _ (by omega) le_rfl, List.nil_append]
  simp [hne, t, p]

/-- The contract of `build_chunk_plan`: with
`p = max(hidden_size * dtype_bytes, dtype_bytes)` and
`t = max(chunk_bytes // p, 1)`, a positive token count gives
`evenChunks t tokens`, every chunk is non-empty, the chunks add up to
`tokens`, there are `⌈tokens / t⌉` of them, and each fits in
`max(chunk_bytes, p)` bytes.  A count of at most zero gives `[]`. -/
def ChunkPlanContract (tokens hiddenSize dtypeBytes chunkBytes : Int) : Prop :=
  let p := max (hiddenSize * dtypeBytes) dtypeBytes
  let t := max (chunkBytes.fdiv p) 1
  (tokens ≤ 0 → buildChunkPlan tokens hiddenSize dtypeBytes chunkBytes = pure []) ∧
  (1 ≤ tokens → ∃ plan, buildChunkPlan tokens hiddenSize dtypeBytes chunkBytes = pure plan ∧
    plan = evenChunks t tokens ∧ (∀ e ∈ plan, 1 ≤ e) ∧ plan.sum = tokens ∧
    (plan.length : Int) = (tokens + t - 1) / t ∧ ∀ e ∈ plan, e * p ≤ max chunkBytes p)

/-- `build_chunk_plan` meets its contract for every input with
`dtype_bytes ≥ 1`, the only inputs `build_moe_sequence` passes. -/
theorem buildChunkPlan_spec (tokens hiddenSize dtypeBytes chunkBytes : Int)
    (hd : 1 ≤ dtypeBytes) : ChunkPlanContract tokens hiddenSize dtypeBytes chunkBytes := by
  have heq := buildChunkPlan_eq tokens hiddenSize dtypeBytes chunkBytes hd
  unfold ChunkPlanContract
  intro p t
  have hp : 1 ≤ p := le_trans hd (le_max_right _ _)
  have ht : 1 ≤ t := le_max_right _ _
  refine ⟨fun h => by rw [heq, if_pos h], fun h => ⟨evenChunks t tokens, ?_, rfl,
    fun e he => (mem_evenChunks ht he).1, sum_evenChunks ht (by omega),
    length_evenChunks ht (by omega), fun e he => ?_⟩⟩
  · rw [heq, if_neg (by omega)]
  · have hle := (mem_evenChunks ht he).2
    calc e * p ≤ t * p := Int.mul_le_mul_of_nonneg_right hle (by omega)
      _ ≤ max chunkBytes p := tokensPerChunk_mul_le hp

/-- Five tokens of one byte under a two-byte budget: chunks `[2, 2, 1]`. -/
theorem buildChunkPlan_spec_five_tokens :
    1 ≤ (1 : Int) ∧ ChunkPlanContract 5 1 1 2 :=
  ⟨by decide, buildChunkPlan_spec 5 1 1 2 (by decide)⟩

example : buildChunkPlan 5 1 1 2 = pure [2, 2, 1] := rfl

end UPIMulator.Chiplet
