import UPIMulator.Python
import Mathlib.Algebra.Order.Field.Rat
import Mathlib.Algebra.Order.Field.Power

/-!
# The FP16 × INT4 compute-in-memory simulator

`FP16_INT4_CIM_Simulator` of `src/golang/sa_dequant_simulator.py` multiplies
two FP16 activations by two INT4 weights the way a 2 × 2 RRAM array would:
the activations' mantissas are aligned to the larger exponent and written in
12-bit two's complement, the weights are shifted into `[0, 15]` and split into
two 2-bit cells, and the array adds 2-bit slices of the activations times the
cells, one cycle per slice.  `compute_full_dequantization` then undoes the
weight offset, applies the exponent and dequantizes with `scale` and
`zero_point`.

The definitions follow the methods one by one.  The model's input is the bit
pattern of `np.float16(value)`: the rounding of a Python `float` to FP16 is
not modelled, and every FP16 pattern is an input.  The integer steps of
`compute_full_dequantization` are `dequantLocals`, which accepts every pattern;
the `float` steps are exact rational arithmetic over `FiniteFp16`, the
patterns whose value is a number.  The source rounds each of them, and an
`int` `zero_point` beyond the float range makes its product with a `float`
raise `OverflowError`; those roundings and that error are left out, so results
about the `float` steps are results about exact arithmetic.  The `verbose` printing changes no value
and is left out.

`actualExponent_le_six` (in `UPIMulator.Dequant.Cim`) shows that
`actual_exponent` never exceeds `6`, so the
`actual_exponent > 15` branch of the source, which returns an infinity, never
runs and is left out of `computeFullDequantization`.
-/

namespace UPIMulator.Dequant

open UPIMulator.Python

/-! ## FP16 fields -/

/-- The `sign`, `exponent` and `mantissa` that `float_to_fp16_components`
returns with `fp16_val`. -/
structure Fp16Components where
  sign : Nat
  exponent : Nat
  mantissa : Nat
  deriving DecidableEq, Repr

/-- `float_to_fp16_components`, on the bits of `np.float16(value)`. -/
def floatToFp16Components (bits : BitVec 16) : Fp16Components :=
  { sign := (bits.toNat >>> 15) &&& 0x1
    exponent := (bits.toNat >>> 10) &&& 0x1F
    mantissa := bits.toNat &&& 0x3FF }

theorem mantissa_lt (bits : BitVec 16) : (floatToFp16Components bits).mantissa < 1024 :=
  Nat.lt_of_le_of_lt Nat.and_le_right (by decide)

/-- `float(fp16_val)` for an exponent field below `31`: `m · 2^-24` for a zero
or subnormal field `0`, `(1024 + m) · 2^(e - 25)` for a normal one. -/
def Fp16Components.value (c : Fp16Components) : ℚ :=
  (if c.sign = 0 then 1 else -1) *
    if c.exponent = 0 then (c.mantissa : ℚ) * 2 ^ (-24 : ℤ)
    else ((1024 + c.mantissa : Nat) : ℚ) * 2 ^ ((c.exponent : ℤ) - 25)

/-- An FP16 bit pattern whose value is a number: exponent field below `31`. -/
structure FiniteFp16 where
  bits : BitVec 16
  finite : (floatToFp16Components bits).exponent < 31

namespace FiniteFp16

/-- The exponent field. -/
def exponent (a : FiniteFp16) : Nat := (floatToFp16Components a.bits).exponent

/-- `float(a_fp16)`. -/
def value (a : FiniteFp16) : ℚ := (floatToFp16Components a.bits).value

/-- `±0`: exponent and mantissa fields `0`. -/
def IsZero (a : FiniteFp16) : Prop :=
  (floatToFp16Components a.bits).exponent = 0 ∧ (floatToFp16Components a.bits).mantissa = 0

/-- A normal number: exponent field in `[1, 30]`. -/
def IsNormal (a : FiniteFp16) : Prop := 1 ≤ (floatToFp16Components a.bits).exponent

instance (a : FiniteFp16) : Decidable a.IsZero := inferInstanceAs (Decidable (_ ∧ _))

instance (a : FiniteFp16) : Decidable a.IsNormal := inferInstanceAs (Decidable (_ ≤ _))

end FiniteFp16

/-! ## The steps -/

/-- `int4_to_binary`: the weight moved to `[0, 15]` by `+ 8`, as its high and
low 2-bit cells and the moved value. -/
def int4ToBinary (value : Int) : Except PyError (Int × Int × Int) :=
  if value < -8 ∨ value > 7 then throw .valueError
  else
    let mappedValue := value + 8
    pure (pyLowBits (mappedValue >>> (2 : Nat)) 2, pyLowBits mappedValue 2, mappedValue)

/-- `align_mantissas`: the larger exponent, both mantissas with the implicit
leading `1` shifted right to it, and the two shifts. -/
def alignMantissas (a1E a1M a2E a2M : Nat) : Nat × Nat × Nat × Nat × Nat :=
  let maxE := max a1E a2E
  let a1Full := 1 <<< 10 ||| a1M
  let a2Full := 1 <<< 10 ||| a2M
  let shift1 := maxE - a1E
  let shift2 := maxE - a2E
  let a1MAligned := if shift1 > 0 then a1Full >>> shift1 else a1Full
  let a2MAligned := if shift2 > 0 then a2Full >>> shift2 else a2Full
  (maxE, a1MAligned, a2MAligned, shift1, shift2)

/-- The mantissa of `c` with its implicit leading `1`, aligned to the
exponent `maxE` and signed: `a_signed` in closed form. -/
def Fp16Components.alignedSigned (c : Fp16Components) (maxE : Nat) : Int :=
  let aligned : Int := ((1024 + c.mantissa) >>> (maxE - c.exponent) : Nat)
  if c.sign = 0 then aligned else -aligned

/-- Setting the implicit bit of a ten-bit mantissa adds `2^10`. -/
theorem implicitBit_or {m : Nat} (h : m < 1024) : 1 <<< 10 ||| m = 1024 + m := by
  rw [show 1 <<< 10 = 2 ^ 10 from rfl, show (1024 : Nat) = 2 ^ 10 from rfl]
  apply Nat.eq_of_testBit_eq
  intro i
  rw [Nat.testBit_or, Nat.testBit_two_pow]
  rcases Nat.lt_trichotomy i 10 with hi | rfl | hi
  · rw [Nat.testBit_two_pow_add_gt hi, decide_eq_false (by omega), Bool.false_or]
  · rw [Nat.testBit_two_pow_add_eq, Nat.testBit_lt_two_pow h]
    rfl
  · have hle : 2 ^ 11 ≤ 2 ^ i := Nat.pow_le_pow_right (by omega) hi
    have hm : m < 2 ^ i := by omega
    have hs : 2 ^ 10 + m < 2 ^ i := by omega
    rw [Nat.testBit_lt_two_pow hm, Nat.testBit_lt_two_pow hs, decide_eq_false (by omega)]
    rfl

/-- `align_mantissas` on ten-bit mantissas: both full mantissas shifted right
by their distance to the larger exponent. -/
theorem alignMantissas_eq (a1E a2E : Nat) {a1M a2M : Nat} (h1 : a1M < 1024) (h2 : a2M < 1024) :
    alignMantissas a1E a1M a2E a2M =
      (max a1E a2E, (1024 + a1M) >>> (max a1E a2E - a1E), (1024 + a2M) >>> (max a1E a2E - a2E),
        max a1E a2E - a1E, max a1E a2E - a2E) := by
  have key : ∀ x s : Nat, (if s > 0 then x >>> s else x) = x >>> s := fun x s => by
    split_ifs with hs
    · rfl
    · rw [show s = 0 by omega, Nat.shiftRight_zero]
  simp only [alignMantissas, implicitBit_or h1, implicitBit_or h2, key]

/-- `to_twos_complement`: `value & ((1 << bit_width) - 1)` after the range
check.  A width of `0` raises in `1 << (bit_width - 1)`. -/
def toTwosComplement (value : Int) (bitWidth : Nat) : Except PyError Int :=
  if bitWidth = 0 then throw .valueError
  else
    let minVal := -(2 ^ (bitWidth - 1) : Int)
    let maxVal := (2 ^ (bitWidth - 1) : Int) - 1
    if value < minVal ∨ value > maxVal then throw .valueError
    else pure (pyLowBits value bitWidth)

/-- A weight in `[-8, 7]` is mapped without raising. -/
theorem int4ToBinary_eq {value : Int} (h : -8 ≤ value ∧ value ≤ 7) :
    int4ToBinary value =
      .ok (pyLowBits ((value + 8) >>> (2 : Nat)) 2, pyLowBits (value + 8) 2, value + 8) := by
  rw [int4ToBinary, if_neg (by omega)]
  rfl

/-- `extract_signed_slice`: `slice_bits` bits of a two's-complement word from
`start_bit` on, sign-extended when they hold the word's top bit. -/
def extractSignedSlice (twosValue : Int) (startBit bitWidth : Nat) (sliceBits : Nat := 2) : Int :=
  if startBit ≥ bitWidth then 0
  else
    let bitsAvailable := min sliceBits (bitWidth - startBit)
    let chunk := pyLowBits (twosValue >>> startBit) bitsAvailable
    let highestBit := startBit + bitsAvailable - 1
    if highestBit ≥ bitWidth - 1 ∧ pyBitSet chunk (bitsAvailable - 1) then chunk - 2 ^ bitsAvailable
    else chunk

/-- `cim_compute`: for each 2-bit slice of the activations, the two columns of
`rram_array = [[b1_msb, b1_lsb], [b2_msb, b2_lsb]]`, each partial sum shifted
left by `2 * cycle + 2 * (1 - col)`. -/
def cimCompute (a1Tc a2Tc : Int) (bitWidth : Nat) (b1Msb b1Lsb b2Msb b2Lsb : Int) : Int :=
  let rramArray := [[b1Msb, b1Lsb], [b2Msb, b2Lsb]]
  let sliceBits := 2
  let numCycles := (bitWidth + sliceBits - 1) / sliceBits
  (List.range numCycles).foldl (fun accumulator cycle =>
    let startBit := cycle * sliceBits
    let a1Bits := extractSignedSlice a1Tc startBit bitWidth sliceBits
    let a2Bits := extractSignedSlice a2Tc startBit bitWidth sliceBits
    (List.range 2).foldl (fun accumulator col =>
      let partialSum := a1Bits * (rramArray.getD 0 []).getD col 0 +
        a2Bits * (rramArray.getD 1 []).getD col 0
      let shift := 2 * cycle + 2 * (1 - col)
      accumulator + partialSum * 2 ^ shift) accumulator) 0

/-- `self.activation_bit_width`. -/
def activationBitWidth : Nat := 12

/-- The integer locals of `compute_full_dequantization`. -/
structure DequantLocals where
  maxE : Nat
  a1Signed : Int
  a2Signed : Int
  pSum : Int
  iSum : Int
  oM : Int
  oE : Int
  actualExponent : Int
  deriving DecidableEq, Repr

/-- Steps 2 to 9 of `compute_full_dequantization` up to the exponent: the
aligned signed mantissas and `P_Sum`, their two's complement, the INT4 cells,
`I_Sum` from the array, `O_m = I_Sum - P_Sum * 8` and the exponents. -/
def dequantLocals (a1 a2 : BitVec 16) (b1 b2 : Int) : Except PyError DequantLocals := do
  let c1 := floatToFp16Components a1
  let c2 := floatToFp16Components a2
  let (maxE, a1MAligned, a2MAligned, _, _) :=
    alignMantissas c1.exponent c1.mantissa c2.exponent c2.mantissa
  let a1Signed : Int := if c1.sign = 0 then a1MAligned else -(a1MAligned : Int)
  let a2Signed : Int := if c2.sign = 0 then a2MAligned else -(a2MAligned : Int)
  let pSum := a1Signed + a2Signed
  let a1Twos ← toTwosComplement a1Signed activationBitWidth
  let a2Twos ← toTwosComplement a2Signed activationBitWidth
  let (b1Msb, b1Lsb, _) ← int4ToBinary b1
  let (b2Msb, b2Lsb, _) ← int4ToBinary b2
  let iSum := cimCompute a1Twos a2Twos activationBitWidth b1Msb b1Lsb b2Msb b2Lsb
  let oM := iSum - pSum * 8
  let oE := (maxE : Int) - 10
  pure { maxE, a1Signed, a2Signed, pSum, iSum, oM, oE, actualExponent := oE - 15 }

/-- The `dict` that `compute_full_dequantization` returns. -/
structure DequantResult where
  saResult : ℚ
  expected : ℚ
  error : ℚ
  errorPercent : ℚ
  o : ℚ
  aSum : ℚ
  scale : ℚ
  zeroPoint : Int

/-- `compute_full_dequantization` in exact rational arithmetic. -/
def computeFullDequantization (a1 a2 : FiniteFp16) (b1 b2 : Int) (scale : ℚ) (zeroPoint : Int) :
    Except PyError DequantResult := do
  let aSum := a1.value + a2.value
  let locals ← dequantLocals a1.bits a2.bits b1 b2
  let o : ℚ := if locals.actualExponent < -24 then 0 else locals.oM * 2 ^ locals.actualExponent
  let scaledResult := o * scale
  let zeroPointCorrection := aSum * zeroPoint * scale
  let finalResult := scaledResult - zeroPointCorrection
  let b1Dequantized := (b1 - zeroPoint) * scale
  let b2Dequantized := (b2 - zeroPoint) * scale
  let expected := a1.value * b1Dequantized + a2.value * b2Dequantized
  let error := |finalResult - expected|
  let errorPercent := if expected ≠ 0 then error / |expected| * 100 else 0
  pure { saResult := finalResult, expected, error, errorPercent, o, aSum, scale, zeroPoint }

/-- `compute`: `scale = 1.0` and `zero_point = 0`. -/
def compute (a1 a2 : FiniteFp16) (b1 b2 : Int) : Except PyError DequantResult :=
  computeFullDequantization a1 a2 b1 b2 1 0

end UPIMulator.Dequant
