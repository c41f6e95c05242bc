import UPIMulator.Dequant.Cim
import Mathlib.Tactic.Linarith
import Mathlib.Tactic.NormNum

/-!
# The error of `compute_full_dequantization`

In exact rational arithmetic `compute_full_dequantization` differs from the
`expected` value it prints only through `O`, the output of the array:
`sa_result - expected = scale · (O - (a1·b1 + a2·b2))`
(`computeFullDequantization_eq`).
`O` is `O_m · 2^(max_e - 25)`, so the error is the difference between the
aligned mantissas and the exact ones.

* `alignedSigned_error`: for a normal operand, the aligned mantissa times
  `2^(max_e - 25)` misses the value by the bits shifted out, minus their
  weight; this is below one unit `2^(max_e - 25)` and zero for the operand
  with the larger exponent.
* `saResult_sub_expected_of_isNormal` and `saResult_eq_expected_of_isZero`:
  with a normal operand the error is `scale` times the weighted truncation
  errors; with two zeros there is none.
* `dequant_error_bound`: two normal operands, or two zeros, and weights in
  `[-8, 7]` give `|sa_result - expected| < 16 · |scale| · 2^(max_e - 25)` for a
  nonzero scale, and no error when the exponent fields are equal.
* `dequant_error_zero_next_to_normal`: `align_mantissas` adds the implicit
  leading `1` to a zero too.  Next to the smallest normal number a zero
  becomes the mantissa `1024 >> 1 = 512`, and with `b1 = 7` the error is
  `3584 · 2^-24`, far above `16 · 2^-24`.  With scale `0` both sides of the
  bound are `0`, so a strict bound fails there as well.
-/

namespace UPIMulator.Dequant

open UPIMulator.Python

/-! ## The error of one operand -/

/-- One unit of the larger exponent is `2^(maxE - e)` units of the smaller. -/
theorem two_zpow_split {e maxE : Nat} (hle : e ≤ maxE) :
    (2 : ℚ) ^ ((maxE : ℤ) - 25) = 2 ^ (maxE - e) * 2 ^ ((e : ℤ) - 25) := by
  rw [← zpow_natCast, ← zpow_add₀ two_ne_zero]
  congr 1
  push_cast [Nat.cast_sub hle]
  ring

/-- The aligned mantissa of a normal operand, times one unit of the larger
exponent, misses the operand's value by the bits the shift drops. -/
theorem alignedSigned_sub_value (c : Fp16Components) {maxE : Nat} (he : 1 ≤ c.exponent)
    (hle : c.exponent ≤ maxE) :
    (c.alignedSigned maxE : ℚ) * 2 ^ ((maxE : ℤ) - 25) - c.value =
      -((if c.sign = 0 then 1 else -1) *
        (((1024 + c.mantissa) % 2 ^ (maxE - c.exponent) : Nat) : ℚ) * 2 ^ ((c.exponent : ℤ) - 25)) := by
  have hF := Nat.div_add_mod (1024 + c.mantissa) (2 ^ (maxE - c.exponent))
  have hFq : ((1024 + c.mantissa : Nat) : ℚ) =
      (2 : ℚ) ^ (maxE - c.exponent) * (((1024 + c.mantissa) / 2 ^ (maxE - c.exponent) : Nat) : ℚ) +
        (((1024 + c.mantissa) % 2 ^ (maxE - c.exponent) : Nat) : ℚ) := by
    exact_mod_cast hF.symm
  simp only [Fp16Components.alignedSigned, Fp16Components.value, if_neg (show c.exponent ≠ 0 by omega),
    Nat.shiftRight_eq_div_pow, two_zpow_split hle, hFq]
  split_ifs <;> simp only [Int.cast_natCast, Int.cast_neg] <;> ring

/-- The truncation error of a normal operand is below one unit of the larger
exponent, and zero for the operand with the larger exponent. -/
theorem alignedSigned_error (c : Fp16Components) {maxE : Nat} (he : 1 ≤ c.exponent)
    (hle : c.exponent ≤ maxE) :
    |(c.alignedSigned maxE : ℚ) * 2 ^ ((maxE : ℤ) - 25) - c.value| < 2 ^ ((maxE : ℤ) - 25) ∧
      (c.exponent = maxE → (c.alignedSigned maxE : ℚ) * 2 ^ ((maxE : ℤ) - 25) = c.value) := by
  have hE : (0 : ℚ) < 2 ^ ((c.exponent : ℤ) - 25) := zpow_pos two_pos _
  have hr : (((1024 + c.mantissa) % 2 ^ (maxE - c.exponent) : Nat) : ℚ) < 2 ^ (maxE - c.exponent) := by
    exact_mod_cast Nat.mod_lt _ (Nat.two_pow_pos _)
  have hd := alignedSigned_sub_value c he hle
  constructor
  · rw [hd, abs_neg, abs_mul, abs_mul, abs_of_pos hE, two_zpow_split hle]
    have hs : |(if c.sign = 0 then (1 : ℚ) else -1)| = 1 := by split_ifs <;> norm_num
    rw [hs, one_mul, Nat.abs_cast]
    exact mul_lt_mul_of_pos_right hr hE
  · intro h
    rw [h, Nat.sub_self, pow_zero, Nat.mod_one] at hd
    simpa [sub_eq_zero] using hd

/-- A zero has the value `0`. -/
theorem FiniteFp16.value_of_isZero {a : FiniteFp16} (h : a.IsZero) : a.value = 0 := by
  simp [FiniteFp16.value, Fp16Components.value, h.1, h.2]

/-- Two truncation errors below one unit, weighted by INT4 weights, stay below
sixteen units. -/
theorem weighted_error_lt {t₁ t₂ P : ℚ} {b₁ b₂ : Int} (hb₁ : -8 ≤ b₁ ∧ b₁ ≤ 7)
    (hb₂ : -8 ≤ b₂ ∧ b₂ ≤ 7) (ht₁ : |t₁| < P) (ht₂ : |t₂| < P) :
    |(b₁ : ℚ) * t₁ + b₂ * t₂| < 16 * P := by
  have hw : ∀ b : Int, -8 ≤ b ∧ b ≤ 7 → |(b : ℚ)| ≤ 8 := fun b hb =>
    abs_le.mpr ⟨by exact_mod_cast hb.1, by exact_mod_cast (show b ≤ 8 by omega)⟩
  calc |(b₁ : ℚ) * t₁ + b₂ * t₂| ≤ |(b₁ : ℚ)| * |t₁| + |(b₂ : ℚ)| * |t₂| := by
        rw [← abs_mul, ← abs_mul]
        exact abs_add _ _
    _ ≤ 8 * |t₁| + 8 * |t₂| :=
        add_le_add (mul_le_mul_of_nonneg_right (hw b₁ hb₁) (abs_nonneg _))
          (mul_le_mul_of_nonneg_right (hw b₂ hb₂) (abs_nonneg _))
    _ < 16 * P := by linarith

/-! ## The whole computation -/

/-- `compute_full_dequantization` differs from `expected` by `scale` times
the error of `O`, and `O` is `O_m · 2^(max_e - 25)` unless the exponent is
below `-24`. -/
theorem computeFullDequantization_eq (a₁ a₂ : FiniteFp16) {b₁ b₂ : Int} (hb₁ : -8 ≤ b₁ ∧ b₁ ≤ 7)
    (hb₂ : -8 ≤ b₂ ∧ b₂ ≤ 7) (s : ℚ) (z : Int) :
    let c₁ := floatToFp16Components a₁.bits
    let c₂ := floatToFp16Components a₂.bits
    let maxE := max c₁.exponent c₂.exponent
    let o : ℚ := if (maxE : ℤ) - 10 - 15 < -24 then 0
      else ((c₁.alignedSigned maxE * b₁ + c₂.alignedSigned maxE * b₂ : Int) : ℚ) *
        2 ^ ((maxE : ℤ) - 10 - 15)
    ∃ r, computeFullDequantization a₁ a₂ b₁ b₂ s z = .ok r ∧ r.o = o ∧
      r.saResult - r.expected = s * (o - (a₁.value * b₁ + a₂.value * b₂)) := by
  intro c₁ c₂ maxE o
  simp only [computeFullDequantization, dequantLocals_eq a₁.bits a₂.bits hb₁ hb₂, ok_bind]
  exact ⟨_, rfl, rfl, by ring⟩

/-- Once an operand is normal, `O` is `O_m · 2^(max_e - 25)` and the error
is `scale` times the two truncation errors weighted by the weights. -/
theorem saResult_sub_expected_of_isNormal (a₁ a₂ : FiniteFp16) (h₁ : a₁.IsNormal) {b₁ b₂ : Int} (hb₁ : -8 ≤ b₁ ∧ b₁ ≤ 7) (hb₂ : -8 ≤ b₂ ∧ b₂ ≤ 7)
    (s : ℚ) (z : Int) :
    let c₁ := floatToFp16Components a₁.bits
    let c₂ := floatToFp16Components a₂.bits
    let maxE := max c₁.exponent c₂.exponent
    ∃ r, computeFullDequantization a₁ a₂ b₁ b₂ s z = .ok r ∧
      r.saResult - r.expected =
        s * ((b₁ : ℚ) * ((c₁.alignedSigned maxE : ℚ) * 2 ^ ((maxE : ℤ) - 25) - c₁.value) +
          b₂ * ((c₂.alignedSigned maxE : ℚ) * 2 ^ ((maxE : ℤ) - 25) - c₂.value)) := by
  intro c₁ c₂ maxE
  obtain ⟨r, hr, -, hdiff⟩ := computeFullDequantization_eq a₁ a₂ hb₁ hb₂ s z
  have hM : ¬ (maxE : ℤ) - 10 - 15 < -24 := by
    have : 1 ≤ maxE := le_trans h₁ (le_max_left _ _)
    omega
  have h25 : ∀ M : ℕ, (M : ℤ) - 10 - 15 = M - 25 := fun M => by ring
  rw [if_neg hM] at hdiff
  simp only [h25] at hdiff
  refine ⟨r, hr, ?_⟩
  rw [hdiff, Int.cast_add, Int.cast_mul, Int.cast_mul]
  simp only [FiniteFp16.value]
  ring

/-- With two zeros `O` is `0`, and so is every value. -/
theorem saResult_eq_expected_of_isZero {a₁ a₂ : FiniteFp16} (h₁ : a₁.IsZero) (h₂ : a₂.IsZero)
    {b₁ b₂ : Int} (hb₁ : -8 ≤ b₁ ∧ b₁ ≤ 7) (hb₂ : -8 ≤ b₂ ∧ b₂ ≤ 7) (s : ℚ) (z : Int) :
    ∃ r, computeFullDequantization a₁ a₂ b₁ b₂ s z = .ok r ∧ r.saResult = r.expected := by
  obtain ⟨r, hr, -, hdiff⟩ := computeFullDequantization_eq a₁ a₂ hb₁ hb₂ s z
  have hM : max (floatToFp16Components a₁.bits).exponent (floatToFp16Components a₂.bits).exponent
      = 0 := by simp [h₁.1, h₂.1]
  rw [if_pos (by omega), FiniteFp16.value_of_isZero h₁, FiniteFp16.value_of_isZero h₂] at hdiff
  simp only [zero_mul, add_zero, sub_zero, mul_zero] at hdiff
  exact ⟨r, hr, sub_eq_zero.mp hdiff⟩

/-- Two normal operands, or two zeros, weights in `[-8, 7]` and a nonzero
scale: `compute_full_dequantization` misses `expected` by less than sixteen
units `|scale| · 2^(max_e - 25)`, and not at all when the exponent fields are
equal. -/
theorem dequant_error_bound (a₁ a₂ : FiniteFp16)
    (ha : (a₁.IsNormal ∧ a₂.IsNormal) ∨ (a₁.IsZero ∧ a₂.IsZero)) {b₁ b₂ : Int}
    (hb₁ : -8 ≤ b₁ ∧ b₁ ≤ 7) (hb₂ : -8 ≤ b₂ ∧ b₂ ≤ 7) {s : ℚ} (hs : s ≠ 0) (z : Int) :
    ∃ r, computeFullDequantization a₁ a₂ b₁ b₂ s z = .ok r ∧
      |r.saResult - r.expected| < 16 * |s| * 2 ^ (((max a₁.exponent a₂.exponent : ℕ) : ℤ) - 25) ∧
      (a₁.exponent = a₂.exponent → r.saResult = r.expected) := by
  rcases ha with ⟨h₁, h₂⟩ | ⟨h₁, h₂⟩
  · obtain ⟨r, hr, hsplit⟩ := saResult_sub_expected_of_isNormal a₁ a₂ h₁ hb₁ hb₂ s z
    obtain ⟨he₁, heq₁⟩ := alignedSigned_error _ h₁ (le_max_left _ _)
    obtain ⟨he₂, heq₂⟩ := alignedSigned_error _ h₂ (le_max_right _ _)
    refine ⟨r, hr, ?_, fun he => ?_⟩
    · rw [hsplit, abs_mul]
      calc |s| * _ < |s| * (16 * 2 ^ ((max _ _ : ℕ) - 25 : ℤ)) :=
            mul_lt_mul_of_pos_left (weighted_error_lt hb₁ hb₂ he₁ he₂) (abs_pos.mpr hs)
        _ = _ := by simp only [FiniteFp16.exponent]; ring
    · have he' : (floatToFp16Components a₁.bits).exponent =
          (floatToFp16Components a₂.bits).exponent := he
      rw [← sub_eq_zero, hsplit, heq₁ (by omega), heq₂ (by omega)]
      ring
  · obtain ⟨r, hr, heq⟩ := saResult_eq_expected_of_isZero h₁ h₂ hb₁ hb₂ s z
    refine ⟨r, hr, ?_, fun _ => heq⟩
    rw [heq, sub_self, abs_zero]
    exact mul_pos (mul_pos (by norm_num) (abs_pos.mpr hs)) (zpow_pos two_pos _)

/-- `+0`, the smallest normal number `2^-14`, and `1.0`. -/
def fp16Zero : FiniteFp16 := ⟨0x0000, by decide⟩

def fp16MinNormal : FiniteFp16 := ⟨0x0400, by decide⟩

def fp16One : FiniteFp16 := ⟨0x3C00, by decide⟩

theorem dequant_error_bound_one_and_min_normal :
    ∃ r, computeFullDequantization fp16One fp16MinNormal 3 (-2) 1 0 = .ok r ∧
      |r.saResult - r.expected| <
        16 * |(1 : ℚ)| * 2 ^ (((max fp16One.exponent fp16MinNormal.exponent : ℕ) : ℤ) - 25) ∧
      (fp16One.exponent = fp16MinNormal.exponent → r.saResult = r.expected) :=
  dequant_error_bound fp16One fp16MinNormal (.inl ⟨by decide, by decide⟩) (by decide) (by decide)
    one_ne_zero 0

/-- The bound fails for a zero next to the smallest normal number, where the
zero is aligned to the mantissa `512` and weighted by `7`, and for the scale
`0`, where both sides are `0`. -/
theorem dequant_error_zero_next_to_normal :
    (fp16Zero.IsZero ∧ fp16MinNormal.IsNormal ∧
      ∃ r, computeFullDequantization fp16Zero fp16MinNormal 7 0 1 0 = .ok r ∧
        16 * |(1 : ℚ)| * 2 ^ (((max fp16Zero.exponent fp16MinNormal.exponent : ℕ) : ℤ) - 25) <
          |r.saResult - r.expected|) ∧
    (fp16One.IsNormal ∧ ∃ r, computeFullDequantization fp16One fp16One 1 1 0 0 = .ok r ∧
      16 * |(0 : ℚ)| * 2 ^ (((max fp16One.exponent fp16One.exponent : ℕ) : ℤ) - 25) ≤
        |r.saResult - r.expected|) := by
  refine ⟨⟨by decide, by decide, ?_⟩, ⟨by decide, ?_⟩⟩
  · obtain ⟨r, hr, -, hdiff⟩ := computeFullDequantization_eq fp16Zero fp16MinNormal
      (show (-8 : Int) ≤ 7 ∧ (7 : Int) ≤ 7 by decide) (show (-8 : Int) ≤ 0 ∧ (0 : Int) ≤ 7 by decide) 1 0
    have hz : floatToFp16Components fp16Zero.bits = ⟨0, 0, 0⟩ := by decide
    have hm : floatToFp16Components fp16MinNormal.bits = ⟨0, 1, 0⟩ := by decide
    refine ⟨r, hr, ?_⟩
    rw [hdiff]
    norm_num [FiniteFp16.value, FiniteFp16.exponent, hz, hm, Fp16Components.alignedSigned,
      Fp16Components.value, Nat.shiftRight_eq_div_pow]
    rw [abs_of_pos (by norm_num)]
    norm_num
  · obtain ⟨r, hr, -, -⟩ := computeFullDequantization_eq fp16One fp16One
      (show (-8 : Int) ≤ 1 ∧ (1 : Int) ≤ 7 by decide) (show (-8 : Int) ≤ 1 ∧ (1 : Int) ≤ 7 by decide) 0 0
    exact ⟨r, hr, by simp⟩

end UPIMulator.Dequant
