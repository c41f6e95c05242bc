import UPIMulator.Python
import Mathlib.Algebra.Order.Field.Power
import Mathlib.Data.Int.Log
import Mathlib.Data.Rat.Floor
import Mathlib.Tactic.GCongr
import Mathlib.Tactic.Linarith

/-!
# Python floats

A Python `float` is an IEEE 754 binary64 number.  An arithmetic operation on
floats returns the double nearest its exact result, the one whose last digit
is even at a tie, and an infinity once that reaches `2 ^ 1024` in magnitude;
an operation on a NaN returns NaN, and so do `inf - inf` and `inf / inf`.

`roundNearest` is that rounding with the subnormals below `2 ^ -1022` and no
bound on the exponent above; `Double.ofRat` adds the overflow.  A `Double` is
a float by its value: the sign of a zero is not kept, since no modelled
function tells `0.0` from `-0.0` apart from printing it.

* `roundHalfEven_mono`, `roundNearest_mono`: rounding is monotone, also where
  the rounded value crosses into the next binade.
* `roundNearest_intCast`: an integer below `2 ^ 53` in magnitude is a double.
* `Double.ofRat_of_abs_le`: an exact result below `2 ^ 53` in magnitude rounds
  to a finite float.
* `roundNearest_max`: with `Double.pyMax_finite`, `max` of two rounded values
  is the rounding of the larger exact value.
-/

namespace UPIMulator.Python

/-! ## Rounding to the nearest integer -/

/-- The integer nearest `q`, the even one of two at a tie. -/
def roundHalfEven (q : ℚ) : Int :=
  if q - ⌊q⌋ < 1 / 2 then ⌊q⌋
  else if 1 / 2 < q - ⌊q⌋ then ⌊q⌋ + 1
  else if ⌊q⌋ % 2 = 0 then ⌊q⌋ else ⌊q⌋ + 1

theorem roundHalfEven_cases (q : ℚ) :
    roundHalfEven q = ⌊q⌋ ∧ q - ⌊q⌋ ≤ 1 / 2 ∨ roundHalfEven q = ⌊q⌋ + 1 ∧ 1 / 2 ≤ q - ⌊q⌋ := by
  unfold roundHalfEven
  split_ifs <;> first | exact .inl ⟨rfl, by linarith⟩ | exact .inr ⟨rfl, by linarith⟩

@[simp] theorem roundHalfEven_intCast (n : Int) : roundHalfEven n = n := by
  simp [roundHalfEven]

/-- Within one unit the floors agree and the tie rule decides alike; across
a unit the rounded values are at most the floors, one apart. -/
theorem roundHalfEven_mono {p q : ℚ} (h : p ≤ q) : roundHalfEven p ≤ roundHalfEven q := by
  rcases (Int.floor_mono h).lt_or_eq with hlt | heq
  · rcases roundHalfEven_cases p with ⟨hp, -⟩ | ⟨hp, -⟩ <;>
      rcases roundHalfEven_cases q with ⟨hq, -⟩ | ⟨hq, -⟩ <;> omega
  · have : p - ⌊q⌋ ≤ q - ⌊q⌋ := by linarith
    unfold roundHalfEven
    rw [heq]
    split_ifs <;> first | omega | (exfalso; linarith)

/-! ## Rounding to a double -/

/-- The exponent of the last place of the doubles near `x > 0`: `k - 52` in
the binade from `2 ^ k` to `2 ^ (k + 1)`, and `-1074` for the subnormals below
`2 ^ -1022`. -/
def ulpExp (x : ℚ) : Int := max (Int.log 2 x) (-1022) - 52

/-- The double nearest a positive `x`, with no bound on the exponent. -/
def roundPos (x : ℚ) : ℚ := roundHalfEven (x / 2 ^ ulpExp x) * 2 ^ ulpExp x

/-- The double nearest `x`, rounding half to even, with no bound on the
exponent. -/
def roundNearest (x : ℚ) : ℚ :=
  if 0 < x then roundPos x else if x < 0 then -roundPos (-x) else 0

theorem ulpExp_le_of_le {x y : ℚ} (hx : 0 < x) (h : x ≤ y) : ulpExp x ≤ ulpExp y := by
  have := Int.log_mono_right (b := 2) hx h
  unfold ulpExp
  omega

theorem two_zpow_add_natCast (e : Int) (n : Nat) : (2 : ℚ) ^ (e + n) = 2 ^ n * 2 ^ e := by
  rw [zpow_add₀ two_ne_zero, zpow_natCast, mul_comm]

/-- A rounded value stays below the top of its binade. -/
theorem roundPos_le_top (x : ℚ) : roundPos x ≤ 2 ^ (ulpExp x + 53) := by
  by_cases hx : 0 < x
  · have hlt : x < 2 ^ (53 : Nat) * 2 ^ ulpExp x := by
      rw [← two_zpow_add_natCast]
      have : x < 2 ^ (Int.log 2 x + 1) := by exact_mod_cast Int.lt_zpow_succ_log_self one_lt_two x
      exact this.trans_le
        (zpow_le_zpow_right₀ one_le_two (by unfold ulpExp; push_cast; omega))
    have h := roundHalfEven_mono (div_le_of_le_mul₀ (zpow_pos two_pos _).le
      (by positivity) hlt.le)
    rw [show ((2 : ℚ) ^ (53 : Nat)) = ((2 ^ 53 : Int) : ℚ) by norm_num, roundHalfEven_intCast] at h
    rw [roundPos, show (53 : Int) = ((53 : Nat) : Int) from rfl, two_zpow_add_natCast]
    exact mul_le_mul_of_nonneg_right (by exact_mod_cast h) (zpow_pos two_pos _).le
  · have h := roundHalfEven_mono (div_nonpos_of_nonpos_of_nonneg (not_lt.1 hx)
      (zpow_pos two_pos (ulpExp x)).le)
    rw [show (0 : ℚ) = ((0 : Int) : ℚ) by norm_num, roundHalfEven_intCast] at h
    exact (mul_nonpos_of_nonpos_of_nonneg (by exact_mod_cast h) (zpow_pos two_pos _).le).trans
      (zpow_pos two_pos _).le

/-- A normal value rounds to at least the bottom of its binade. -/
theorem bottom_le_roundPos {y : ℚ} (hy : 2 ^ (ulpExp y + 52) ≤ y) :
    2 ^ (ulpExp y + 52) ≤ roundPos y := by
  rw [show ulpExp y + 52 = ulpExp y + (52 : Nat) by rfl, two_zpow_add_natCast] at hy ⊢
  have h := roundHalfEven_mono ((le_div_iff₀ (zpow_pos two_pos (ulpExp y))).2 hy)
  rw [show ((2 : ℚ) ^ (52 : Nat)) = ((2 ^ 52 : Int) : ℚ) by norm_num, roundHalfEven_intCast] at h
  rw [roundPos]
  exact mul_le_mul_of_nonneg_right (by exact_mod_cast h) (zpow_pos two_pos _).le

theorem roundPos_nonneg {x : ℚ} (hx : 0 ≤ x) : 0 ≤ roundPos x := by
  have h := roundHalfEven_mono (div_nonneg hx (zpow_pos two_pos (ulpExp x)).le)
  rw [show (0 : ℚ) = ((0 : Int) : ℚ) by norm_num, roundHalfEven_intCast] at h
  exact mul_nonneg (by exact_mod_cast h) (zpow_pos two_pos _).le

/-- In one binade rounding is the monotone integer rounding scaled; when the
larger value lies in a higher binade, the smaller one rounds to at most the
top of its binade, which is at most the bottom of the larger one's. -/
theorem roundPos_le_of_le {x y : ℚ} (hx : 0 < x) (h : x ≤ y) : roundPos x ≤ roundPos y := by
  rcases (ulpExp_le_of_le hx h).lt_or_eq with hlt | heq
  · have hlog : -1022 < Int.log 2 y := by unfold ulpExp at hlt; omega
    have hbot : 2 ^ (ulpExp y + 52) ≤ y := by
      rw [show ulpExp y + 52 = Int.log 2 y by unfold ulpExp; omega]
      exact_mod_cast Int.zpow_log_le_self one_lt_two (hx.trans_le h)
    calc roundPos x ≤ 2 ^ (ulpExp x + 53) := roundPos_le_top x
      _ ≤ 2 ^ (ulpExp y + 52) := zpow_le_zpow_right₀ one_le_two (by omega)
      _ ≤ roundPos y := bottom_le_roundPos hbot
  · unfold roundPos
    rw [heq]
    have := roundHalfEven_mono (div_le_div_of_nonneg_right h (zpow_pos two_pos (ulpExp y)).le)
    exact mul_le_mul_of_nonneg_right (by exact_mod_cast this) (zpow_pos two_pos _).le

theorem roundNearest_mono : Monotone roundNearest := by
  intro x y h
  have hneg {z : ℚ} (hz : z < 0) : -roundPos (-z) ≤ 0 :=
    neg_nonpos.2 (roundPos_nonneg (neg_nonneg.2 hz.le))
  unfold roundNearest
  split_ifs <;> try linarith
  · exact roundPos_le_of_le ‹0 < x› h
  · exact (hneg ‹x < 0›).trans (roundPos_nonneg (le_of_lt ‹0 < y›))
  · exact neg_le_neg (roundPos_le_of_le (neg_pos.2 ‹y < 0›) (neg_le_neg h))
  · exact hneg ‹x < 0›
  · exact roundPos_nonneg (le_of_lt ‹0 < y›)

@[simp] theorem roundNearest_neg (x : ℚ) : roundNearest (-x) = -roundNearest x := by
  unfold roundNearest
  split_ifs <;> first | (exfalso; linarith) | simp

/-- A positive integer below `2 ^ 53` is a double: its binade's last place is
at most `1`. -/
theorem roundPos_natCast {n : Nat} (h0 : 0 < n) (h : n < 2 ^ 53) : roundPos n = n := by
  have hk : Nat.log 2 n < 53 := Nat.log_lt_of_lt_pow h0.ne' h
  have he : ulpExp n = -((52 - Nat.log 2 n : Nat) : Int) := by
    unfold ulpExp
    rw [Int.log_natCast]
    omega
  have hm : (n : ℚ) / 2 ^ ulpExp n = ((n * 2 ^ (52 - Nat.log 2 n) : Nat) : Int) := by
    rw [he, zpow_neg, zpow_natCast, div_inv_eq_mul]; push_cast; rfl
  rw [roundPos, hm, roundHalfEven_intCast, ← hm, div_mul_cancel₀ _ (zpow_pos two_pos _).ne']

theorem roundNearest_natCast {n : Nat} (h : n < 2 ^ 53) : roundNearest n = n := by
  rcases Nat.eq_zero_or_pos n with rfl | h0
  · simp [roundNearest]
  · rw [roundNearest, if_pos (by exact_mod_cast h0), roundPos_natCast h0 h]

/-- Every integer below `2 ^ 53` in magnitude is a double. -/
theorem roundNearest_intCast {n : Int} (h : n.natAbs < 2 ^ 53) : roundNearest n = n := by
  obtain ⟨m, rfl | rfl⟩ := Int.eq_nat_or_neg n
  · simpa using roundNearest_natCast (n := m) (by simpa using h)
  · simpa using roundNearest_natCast (n := m) (by simpa using h)

theorem roundNearest_max (a b : ℚ) : roundNearest (max a b) = max (roundNearest a) (roundNearest b) :=
  roundNearest_mono.map_max

/-- Rounding a value between two integers below `2 ^ 53` keeps it between them. -/
theorem roundNearest_mem_Icc {x : ℚ} {a b : Int} (ha : a.natAbs < 2 ^ 53) (hb : b.natAbs < 2 ^ 53)
    (h₁ : (a : ℚ) ≤ x) (h₂ : x ≤ b) : (a : ℚ) ≤ roundNearest x ∧ roundNearest x ≤ b := by
  have l := roundNearest_mono h₁
  have r := roundNearest_mono h₂
  rw [roundNearest_intCast ha] at l
  rw [roundNearest_intCast hb] at r
  exact ⟨l, r⟩

/-! ## The rounding error -/

theorem abs_roundHalfEven_sub_le (q : ℚ) : |(roundHalfEven q : ℚ) - q| ≤ 1 / 2 := by
  have h₁ := Int.floor_le q
  have h₂ := Int.lt_floor_add_one q
  rw [abs_le]
  rcases roundHalfEven_cases q with ⟨h, h'⟩ | ⟨h, h'⟩ <;> rw [h] <;> push_cast <;>
    constructor <;> linarith

/-- In the normal range the rounding moves a value by at most half its last
place, which is at most `x / 2 ^ 52`. -/
theorem abs_roundPos_sub_le {x : ℚ} (hx : (2 : ℚ) ^ (-1022 : Int) ≤ x) :
    |roundPos x - x| ≤ x / 2 ^ 53 := by
  have hx0 : 0 < x := (zpow_pos two_pos _).trans_le hx
  have hlog : -1022 ≤ Int.log 2 x :=
    (Int.zpow_le_iff_le_log one_lt_two hx0).1 (by exact_mod_cast hx)
  have hpos : (0 : ℚ) < 2 ^ ulpExp x := zpow_pos two_pos _
  have hlow : (2 : ℚ) ^ Int.log 2 x ≤ x := by exact_mod_cast Int.zpow_log_le_self one_lt_two hx0
  have hsplit : roundPos x - x =
      ((roundHalfEven (x / 2 ^ ulpExp x) : ℚ) - x / 2 ^ ulpExp x) * 2 ^ ulpExp x := by
    rw [roundPos, sub_mul, div_mul_cancel₀ _ hpos.ne']
  have hulp : (2 : ℚ) ^ ulpExp x / 2 = 2 ^ Int.log 2 x / 2 ^ 53 := by
    rw [show ulpExp x = Int.log 2 x - 52 by unfold ulpExp; omega, zpow_sub₀ two_ne_zero, div_div]
    norm_num
  calc |roundPos x - x|
      = |(roundHalfEven (x / 2 ^ ulpExp x) : ℚ) - x / 2 ^ ulpExp x| * 2 ^ ulpExp x := by
        rw [hsplit, abs_mul, abs_of_pos hpos]
    _ ≤ 1 / 2 * 2 ^ ulpExp x := by gcongr; exact abs_roundHalfEven_sub_le _
    _ = 2 ^ Int.log 2 x / 2 ^ 53 := by rw [← hulp]; ring
    _ ≤ x / 2 ^ 53 := by gcongr

/-- `math.ceil(a / b)` of two `int`s: the quotient is rounded to a double,
but below `2 ^ 53` never across an integer, so the ceiling is the exact
one. -/
theorem ceil_roundNearest_div {a b : Int} (ha : 0 ≤ a) (ha' : a < 2 ^ 53) (hb : 0 < b)
    (hb' : b < 2 ^ 53) : ⌈roundNearest ((a : ℚ) / b)⌉ = pyCeilDiv a b := by
  have hbq : (0 : ℚ) < b := by exact_mod_cast hb
  have hceil : pyCeilDiv a b = ⌈(a : ℚ) / b⌉ := by
    have h := Int.emod_add_ediv (-a) b
    have hr := Int.emod_nonneg (-a) hb.ne'
    have hr' := Int.emod_lt_of_pos (-a) hb
    have hq : ((-a % b : Int) : ℚ) + b * ((-a / b : Int) : ℚ) = -a := by exact_mod_cast h
    have hrq : (0 : ℚ) ≤ ((-a % b : Int) : ℚ) := by exact_mod_cast hr
    have hrq' : ((-a % b : Int) : ℚ) < b := by exact_mod_cast hr'
    rw [pyCeilDiv, Int.fdiv_eq_ediv _ hb.le, eq_comm, Int.ceil_eq_iff, lt_div_iff₀ hbq,
      div_le_iff₀ hbq]
    push_cast
    constructor <;> linarith
  rw [hceil]
  set q : ℚ := (a : ℚ) / b
  rcases ha.eq_or_lt with rfl | ha0
  · simp [q, roundNearest]
  have hq : q * b = a := div_mul_cancel₀ _ hbq.ne'
  have hqpos : 0 < q := div_pos (by exact_mod_cast ha0) hbq
  have hk : ⌈q⌉ ≤ a := Int.ceil_le.2 (by
    rw [div_le_iff₀ hbq]
    exact le_mul_of_one_le_right (by exact_mod_cast ha) (by exact_mod_cast hb))
  have hk0 : 0 < ⌈q⌉ := Int.ceil_pos.2 hqpos
  apply le_antisymm
  · refine Int.ceil_le.2 ((roundNearest_mono (Int.le_ceil q)).trans_eq ?_)
    exact roundNearest_intCast (by omega)
  · have hnormal : (2 : ℚ) ^ (-1022 : Int) ≤ q := by
      calc (2 : ℚ) ^ (-1022 : Int) ≤ 2 ^ (-53 : Int) := zpow_le_zpow_right₀ one_le_two (by norm_num)
        _ = 1 / 2 ^ 53 := by norm_num
        _ ≤ 1 / b := by gcongr; exact_mod_cast hb'.le
        _ ≤ q := div_le_div_of_nonneg_right (by exact_mod_cast ha0) hbq.le
    have herr := (abs_le.1 (abs_roundPos_sub_le hnormal)).1
    rw [roundNearest, if_pos hqpos] 
    have hfrac : ((⌈q⌉ - 1 : Int) : ℚ) * b + 1 ≤ a := by
      have : (⌈q⌉ - 1) * b < a := by
        have h := (lt_div_iff₀ hbq).1 (show ((⌈q⌉ - 1 : Int) : ℚ) < q by
          push_cast; linarith [Int.ceil_lt_add_one q])
        exact_mod_cast h
      exact_mod_cast (show (⌈q⌉ - 1) * b + 1 ≤ a by omega)
    have h1 : 1 ≤ (q - ((⌈q⌉ - 1 : Int) : ℚ)) * b := by rw [sub_mul, hq]; linarith
    have h2 : q / 2 ^ 53 * b < 1 := by
      rw [div_mul_eq_mul_div, hq, div_lt_one (by norm_num)]
      exact_mod_cast ha'
    have h3 : q / 2 ^ 53 < q - ((⌈q⌉ - 1 : Int) : ℚ) := lt_of_mul_lt_mul_right (h2.trans_le h1) hbq.le
    have : ((⌈q⌉ - 1 : Int) : ℚ) < roundPos q := by linarith
    have := Int.lt_ceil.2 this
    omega

/-! ## Floats -/

/-- A Python `float`: a finite double by its value, an infinity, or NaN. -/
inductive Double
  | finite (value : ℚ)
  | inf
  | negInf
  | nan
  deriving DecidableEq, Repr

namespace Double

/-- The float an operation returns for the exact result `x`: the nearest
double, or an infinity once that reaches `2 ^ 1024`. -/
def ofRat (x : ℚ) : Double :=
  if 2 ^ 1024 ≤ roundNearest x then inf
  else if roundNearest x ≤ -2 ^ 1024 then negInf
  else finite (roundNearest x)

/-- `-a`. -/
def neg : Double → Double
  | finite a => finite (-a)
  | inf => negInf
  | negInf => inf
  | nan => nan

/-- `a + b`. -/
def add : Double → Double → Double
  | finite a, finite b => ofRat (a + b)
  | nan, _ | _, nan | inf, negInf | negInf, inf => nan
  | inf, _ | _, inf => inf
  | negInf, _ | _, negInf => negInf

/-- `a - b`: `a + (-b)`, rounded once. -/
def sub (a b : Double) : Double := a.add b.neg

/-- The IEEE 754 quotient `a / b` for a divisor other than zero. -/
def divNonzero : Double → Double → Double
  | finite a, finite b => ofRat (a / b)
  | nan, _ | _, nan => nan
  | finite _, _ => finite 0
  | inf, finite b => if 0 < b then inf else negInf
  | negInf, finite b => if 0 < b then negInf else inf
  | _, _ => nan

/-- `a / b`: Python raises `ZeroDivisionError` for a zero divisor before it
divides. -/
def div (a b : Double) : Except PyError Double :=
  if b = finite 0 then throw .zeroDivisionError else pure (a.divNonzero b)

/-- `a < b`; a comparison with NaN is false. -/
def lt : Double → Double → Bool
  | finite a, finite b => decide (a < b)
  | negInf, finite _ | negInf, inf | finite _, inf => true
  | _, _ => false

/-- `math.isnan(x)`. -/
def isNan : Double → Bool
  | nan => true
  | _ => false

/-- `bool(x)`: every float but zero is true, NaN included. -/
def toBool : Double → Bool
  | finite a => a ≠ 0
  | _ => true

/-- The place of a float on the extended line; NaN has none and is put at
the bottom. -/
def rank : Double → WithBot (WithTop ℚ)
  | finite a => ((a : WithTop ℚ) : WithBot (WithTop ℚ))
  | inf => ((⊤ : WithTop ℚ) : WithBot (WithTop ℚ))
  | negInf => ⊥
  | nan => ⊥

/-- `max(a, b)`: the first argument unless the second is greater. -/
def pyMax (a b : Double) : Double := if a.lt b then b else a

/-- `sum(xs)` as the left fold of `+` from `0`.  From Python 3.12 the builtin
sums floats with a compensated sum, which agrees with this one whenever the
partial sums are exact. -/
def pySum (xs : List Double) : Double := xs.foldl add (finite 0)

@[simp] theorem add_finite (a b : ℚ) : (finite a).add (finite b) = ofRat (a + b) := rfl

@[simp] theorem sub_finite (a b : ℚ) : (finite a).sub (finite b) = ofRat (a - b) := by
  rw [sub, neg, add_finite, sub_eq_add_neg]

@[simp] theorem divNonzero_finite (a b : ℚ) : (finite a).divNonzero (finite b) = ofRat (a / b) :=
  rfl

@[simp] theorem lt_finite (a b : ℚ) : (finite a).lt (finite b) = decide (a < b) := rfl

@[simp] theorem isNan_finite (a : ℚ) : (finite a).isNan = false := rfl

theorem div_finite {a b : ℚ} (hb : b ≠ 0) : (finite a).div (finite b) = pure (ofRat (a / b)) :=
  if_neg (by simpa using hb)

/-- An exact result below `2 ^ 53` in magnitude rounds to a finite float. -/
theorem ofRat_of_abs_le {x : ℚ} {n : Int} (hn : n.natAbs < 2 ^ 53) (h : |x| ≤ n) :
    ofRat x = finite (roundNearest x) := by
  have hn' : (-n).natAbs < 2 ^ 53 := by rwa [Int.natAbs_neg]
  obtain ⟨h₁, h₂⟩ := roundNearest_mem_Icc hn' hn (by push_cast; linarith [neg_abs_le x])
    (le_trans (le_abs_self x) h)
  have : (n : ℚ) < 2 ^ 53 := by
    have : n < 2 ^ 53 := Int.le_natAbs.trans_lt (by exact_mod_cast hn)
    exact_mod_cast this
  rw [ofRat, if_neg (by push_cast at h₁; linarith), if_neg (by push_cast at h₁; linarith)]

/-- An integer below `2 ^ 53` in magnitude converts exactly. -/
theorem ofRat_intCast {n : Int} (h : n.natAbs < 2 ^ 53) : ofRat n = finite n := by
  rw [ofRat_of_abs_le (n := |n|) (by rwa [Int.natAbs_abs]) (by rw [Int.cast_abs]),
    roundNearest_intCast h]

/-- `max` of two finite floats is their larger value. -/
@[simp] theorem pyMax_finite (a b : ℚ) : pyMax (finite a) (finite b) = finite (max a b) := by
  rw [pyMax, lt_finite]
  split_ifs with h
  · rw [max_eq_right (le_of_lt (by simpa using h))]
  · rw [max_eq_left (not_lt.1 (by simpa using h))]

/-- Away from NaN, `<` is the order of the extended line. -/
theorem lt_eq_rank {a b : Double} (ha : a.isNan = false) (hb : b.isNan = false) :
    a.lt b = decide (a.rank < b.rank) := by
  cases a <;> cases b <;> simp_all [lt, rank, isNan, WithBot.bot_lt_coe, ← WithBot.coe_top]

theorem div_of_ne_zero {a b : Double} (hb : b ≠ finite 0) : a.div b = pure (a.divNonzero b) :=
  if_neg hb

/-- A count of at least one converts to a float other than zero. -/
theorem ofRat_ne_zero_of_one_le {x : ℚ} (hx : 1 ≤ x) : ofRat x ≠ finite 0 := by
  have h := roundNearest_mono hx
  rw [show (1 : ℚ) = ((1 : Int) : ℚ) by norm_num, roundNearest_intCast (by decide)] at h
  unfold ofRat
  split_ifs
  · exact Double.noConfusion
  · exact Double.noConfusion
  · intro h'
    have : roundNearest x = 0 := by injection h'
    push_cast at h
    linarith

end Double

end UPIMulator.Python
