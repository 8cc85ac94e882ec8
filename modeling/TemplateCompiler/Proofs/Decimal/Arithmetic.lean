import Mathlib.Algebra.Order.Field.Power
import Mathlib.Data.Rat.Cast.Order
import Mathlib.Order.WithBot
import Mathlib.Tactic.NormNum
import Mathlib.Tactic.Positivity
import TemplateCompiler.Decimal.Binary64

/-!
# Numbers at run time

Doubles with their exact values, and the numbers that a script computes with: a double or no number at all.
Comparing with what is not a number fails in each direction. A double counts as positive exactly if its exact
value is (`zero_lt_exact_iff`).
-/

namespace TemplateCompiler.Decimal

/-! ## Exact values -/

/-- The exact value of a finite double. -/
def finiteValue (negative : Bool) (significand : Nat) (exponent : Int) : ℚ :=
  (if negative then -1 else 1) * (significand * 2 ^ exponent)

/-- The exact value of a double: a ratio, or one of the two ends of the number line. -/
def Binary64.exact (x : Binary64) : WithBot (WithTop ℚ) :=
  match x.magnitude with
  | .finite m e => ((finiteValue x.negative m e : WithTop ℚ) : WithBot (WithTop ℚ))
  | .infinite => if x.negative then ⊥ else ((⊤ : WithTop ℚ) : WithBot (WithTop ℚ))

/-- Greater than zero. -/
def Binary64.isAboveZero (x : Binary64) : Bool := !x.negative && !x.magnitude.isZero

theorem Magnitude.isZero_finite (m : Nat) (e : Int) : (Magnitude.finite m e).isZero = decide (m = 0) := by
  cases m with
  | zero => rfl
  | succ m => rfl

theorem zero_lt_finiteValue_iff (negative : Bool) (m : Nat) (e : Int) :
    0 < finiteValue negative m e ↔ negative = false ∧ m ≠ 0 := by
  have hpow : (0 : ℚ) < 2 ^ e := by positivity
  have hle : (0 : ℚ) ≤ m * 2 ^ e := by positivity
  unfold finiteValue
  cases negative with
  | false => simp [hpow, Nat.pos_iff_ne_zero]
  | true => simpa using hle

namespace Binary64

theorem zero_lt_exact_iff (x : Binary64) : 0 < x.exact ↔ x.isAboveZero = true := by
  obtain ⟨negative, ⟨m, e⟩ | _⟩ := x
  · have h := zero_lt_finiteValue_iff negative m e
    simp [exact, isAboveZero, Magnitude.isZero_finite, ← WithBot.coe_zero, ← WithTop.coe_zero, h]
  · have htop : (0 : WithBot (WithTop ℚ)) < ⊤ := WithBot.coe_lt_coe.mpr (WithTop.coe_lt_top 0)
    cases negative <;> simp [exact, isAboveZero, Magnitude.isZero, htop]

/-- The double nearest to a ratio. The sign of zero is given. -/
def nearest (negative : Bool) (q : ℚ) : Binary64 :=
  ⟨if q = 0 then negative else decide (q < 0), .ofRatio q.num.natAbs q.den⟩

end Binary64

/-! ## Numbers -/

/-- A number that a script computes with. -/
inductive Number where
  | double (x : Binary64)
  | nan
deriving DecidableEq, Repr

namespace Number

/-- The first number is less than the second or equal to it. Both zeros are equal. -/
def atMost : Number → Number → Bool
  | .double x, .double y => decide (x.exact ≤ y.exact)
  | _, _ => false

/-- The first number is less than the second. -/
def below : Number → Number → Bool
  | .double x, .double y => decide (x.exact < y.exact)
  | _, _ => false

/-- The sum of two numbers, rounded. Zero is negative as the sum of two negative numbers only. -/
def add : Number → Number → Number
  | .double x, .double y =>
    match x.magnitude, y.magnitude with
    | .finite m e, .finite n f =>
      .double (.nearest (x.negative && y.negative)
        (finiteValue x.negative m e + finiteValue y.negative n f))
    | .finite _ _, .infinite => .double y
    | .infinite, .finite _ _ => .double x
    | .infinite, .infinite => if x.negative = y.negative then .double x else .nan
  | _, _ => .nan

/-- Zero, as it is written in a script. -/
def zero : Number := .double ⟨false, .finite 0 Binary64.minExponent⟩

def one : Number := .double ⟨false, .finite (2 ^ 52) (-52)⟩

theorem zero_below_double (x : Binary64) : zero.below (.double x) = x.isAboveZero := by
  have hzero : Binary64.exact ⟨false, .finite 0 Binary64.minExponent⟩ = 0 := by
    simp [Binary64.exact, finiteValue]
  rw [zero, below, hzero, Bool.eq_iff_iff, decide_eq_true_iff]
  exact x.zero_lt_exact_iff

theorem add_finite (a b : Bool) (m n : Nat) (e f : Int) :
    add (.double ⟨a, .finite m e⟩) (.double ⟨b, .finite n f⟩) =
      .double (.nearest (a && b) (finiteValue a m e + finiteValue b n f)) := rfl

/-- One and a zero of either sign are one. -/
theorem one_add_double {x : Binary64} (hx : x.magnitude.isZero = true) :
    one.add (.double x) = one := by
  obtain ⟨negative, ⟨m, e⟩ | _⟩ := x
  · obtain rfl : m = 0 := by simpa [Magnitude.isZero_finite] using hx
    have hone : finiteValue false (2 ^ 52) (-52) = 1 := by norm_num [finiteValue]
    have hzero : finiteValue negative 0 e = 0 := by simp [finiteValue]
    have hnearest : Binary64.nearest false 1 = ⟨false, .finite (2 ^ 52) (-52)⟩ := by decide +kernel
    rw [one, add_finite, Bool.false_and, hone, hzero, add_zero, hnearest]
  · exact Bool.noConfusion hx

end Number

end TemplateCompiler.Decimal
