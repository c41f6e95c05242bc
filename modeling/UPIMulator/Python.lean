import Mathlib.Data.Rat.Defs
import Mathlib.Algebra.Group.Int

/-!
# The Python operations the tools rely on

The generators are Python, so their integers are unbounded and their `//` and
`%` round toward negative infinity.  `Int.fdiv` and `Int.fmod` are those two
operations.  A `//` or `%` by zero raises `ZeroDivisionError`, and an index
outside a list raises `IndexError`.  `pyFloorDiv`, `pyMod` and `pyIndex` are
the raising forms.  They stand where the divisor or the index is not fixed by
the code around it; a `%` right after the `max(x, 1)` clamp of its divisor, or
behind an explicit `<= 0` guard, is a plain `Int.fmod`.

`float` values enter in two places: the latency scale of the builders, and
the true divisions inside `math.ceil(...)` and `int(...)`.  They are exact
rationals here: `pyCeilDiv` is `math.ceil(a / b)` and `pyIntOfRat` is
`int(x)`, both without the rounding of a binary float.

Python's bitwise operators act on the infinite two's complement of an
integer.  `x >> k` is `Int.shiftRight` (a floor division by `2 ^ k`), `x << k`
is `x * 2 ^ k`, a mask `x & ((1 << k) - 1)` keeps the low `k` bits, which is
`x % 2 ^ k` (`pyLowBits`), and `x & (1 << k)` is non-zero when bit `k` is set
(`pyBitSet`).

The log tools read text with `str.strip()` and with the classes `\s`, `\w`
and `\d` of `re`, which follow Python's Unicode database.  `CharClasses` holds
those tables as a parameter, with what the tools rely on: on ASCII they are the
familiar classes, and no space is a decimal digit.
-/

namespace UPIMulator.Python

/-- The exceptions the modelled code raises. -/
inductive PyError
  | zeroDivisionError
  | indexError
  | valueError
  | overflowError
  | typeError
  | keyError
  | attributeError
  deriving DecidableEq, Repr

/-- Python's `a // b`. -/
def pyFloorDiv (a b : Int) : Except PyError Int :=
  if b = 0 then throw .zeroDivisionError else pure (a.fdiv b)

/-- Python's `a % b`. -/
def pyMod (a b : Int) : Except PyError Int :=
  if b = 0 then throw .zeroDivisionError else pure (a.fmod b)

/-- Python's `xs[i]`; a negative index counts from the end. -/
def pyIndex {α : Type} (xs : List α) (i : Int) : Except PyError α :=
  let j := if i < 0 then i + xs.length else i
  if 0 ≤ j then
    match xs[j.toNat]? with
    | some x => pure x
    | none => throw .indexError
  else throw .indexError

/-- `math.ceil(a / b)` for integers, `b > 0`. -/
def pyCeilDiv (a b : Int) : Int := -((-a).fdiv b)

/-- `int(x)`: truncation toward zero. -/
def pyIntOfRat (x : ℚ) : Int := x.num.tdiv x.den

/-- `x & ((1 << k) - 1)`: the low `k` bits of `x`. -/
def pyLowBits (x : Int) (k : Nat) : Int := x % 2 ^ k

/-- `x & (1 << k) != 0`: bit `k` of `x` is set. -/
def pyBitSet (x : Int) (k : Nat) : Bool := (x >>> k) % 2 == 1

/-- A step that returns passes its value on. -/
@[simp] theorem ok_bind {α β : Type} (a : α) (f : α → Except PyError β) :
    (Except.ok a >>= f) = f a := rfl

@[simp] theorem pyFloorDiv_of_ne_zero {a b : Int} (h : b ≠ 0) :
    pyFloorDiv a b = pure (a.fdiv b) := if_neg h

@[simp] theorem pyMod_of_ne_zero {a b : Int} (h : b ≠ 0) :
    pyMod a b = pure (a.fmod b) := if_neg h

@[simp] theorem pyMod_zero (a : Int) : pyMod a 0 = throw .zeroDivisionError := if_pos rfl

/-- An index inside the list reads the entry. -/
theorem pyIndex_of_lt {α : Type} {xs : List α} {i : Int} (h0 : 0 ≤ i)
    (h : i < xs.length) : pyIndex xs i = pure (xs.get ⟨i.toNat, by omega⟩) := by
  have hi : i.toNat < xs.length := by omega
  have hn : ¬ i < 0 := by omega
  simp only [pyIndex, hn, if_false, h0, if_true, List.getElem?_eq_getElem hi]
  rfl

/-- The result of `%` by a positive divisor is a valid index. -/
theorem fmod_nonneg_lt {a b : Int} (h : 0 < b) : 0 ≤ a.fmod b ∧ a.fmod b < b := by
  rw [Int.fmod_eq_emod _ (Int.le_of_lt h)]
  exact ⟨Int.emod_nonneg _ (by omega), Int.emod_lt_of_pos _ h⟩

/-! ## Character classes -/

/-- `str.isspace` on ASCII, which is also `\s` there: space, tab to carriage
return, and the separators `\x1c` to `\x1f`. -/
def asciiIsSpace (c : Char) : Bool :=
  c = ' ' ∨ ('\t' ≤ c ∧ c ≤ '\r') ∨ ('\x1c' ≤ c ∧ c ≤ '\x1f')

/-- The classes of Python's Unicode database that the tools read:
`str.isspace`, which is also `\s` of `re` and what `str.strip()` removes;
`\w`; and the decimal digits of `\d` with the value `int` gives each. -/
structure CharClasses where
  isSpace : Char → Bool
  isWord : Char → Bool
  digit : Char → Option Nat
  isSpace_ascii : ∀ c : Char, c.toNat < 128 → isSpace c = asciiIsSpace c
  isWord_ascii : ∀ c : Char, c.toNat < 128 → isWord c = (c.isAlphanum || c == '_')
  digit_ascii : ∀ c : Char, c.toNat < 128 →
    digit c = if c.isDigit then some (c.toNat - '0'.toNat) else none
  digit_of_isSpace : ∀ c : Char, isSpace c → digit c = none

namespace CharClasses

variable (cc : CharClasses)

end CharClasses

end UPIMulator.Python
