/-!
# Double precision numbers

A double is a sign with a magnitude, and a finite magnitude is `significand * 2 ^ exponent` with a
significand below `2 ^ 53` and an exponent from -1074 to 971. The module rounds exact ratios and
decimals to the nearest double. Main statements: the rounding of a quotient is within half a unit
(`two_mul_roundHalfEven_le`, `le_two_mul_roundHalfEven`).
-/

namespace TemplateCompiler.Decimal

/-- The distance of a double from zero. -/
inductive Magnitude where
  | finite (significand : Nat) (exponent : Int)
  | infinite
deriving DecidableEq, Repr

/-- A double other than a NaN. Zero has a sign too. -/
structure Binary64 where
  negative : Bool
  magnitude : Magnitude
deriving DecidableEq, Repr

namespace Binary64

/-- The least exponent of a finite double. -/
def minExponent : Int := -1074

/-- The greatest exponent of a finite double. -/
def maxExponent : Int := 971

/-- The double with the opposite sign. -/
def neg (x : Binary64) : Binary64 := { x with negative := !x.negative }

end Binary64

/-- The quotient `n / d`, rounded to the nearest whole number, halves to the even one. -/
def roundHalfEven (n d : Nat) : Nat :=
  let q := n / d
  let r := n % d
  if 2 * r < d then q else if d < 2 * r then q + 1 else q + q % 2

theorem two_mul_roundHalfEven_le (n d : Nat) :
    2 * (roundHalfEven n d * d) ≤ 2 * n + d := by
  have h := Nat.div_add_mod n d
  have h' : n / d * d = d * (n / d) := Nat.mul_comm _ _
  unfold roundHalfEven
  dsimp only
  split
  · omega
  · split
    · rw [Nat.add_mul]; omega
    · have : n / d % 2 = 0 ∨ n / d % 2 = 1 := by omega
      rcases this with e | e <;> rw [e, Nat.add_mul] <;> omega

theorem le_two_mul_roundHalfEven (n d : Nat) (hd : 0 < d) :
    2 * n ≤ 2 * (roundHalfEven n d * d) + d := by
  have h := Nat.div_add_mod n d
  have h' : n / d * d = d * (n / d) := Nat.mul_comm _ _
  have hr := Nat.mod_lt n hd
  unfold roundHalfEven
  dsimp only
  split
  · omega
  · split
    · rw [Nat.add_mul]; omega
    · have : n / d % 2 = 0 ∨ n / d % 2 = 1 := by omega
      rcases this with e | e <;> rw [e, Nat.add_mul] <;> omega

/-- The ratio `n / d` divided by `2 ^ e`, as a new ratio. -/
def scaleRatio (n d : Nat) (e : Int) : Nat × Nat :=
  if 0 ≤ e then (n, d * Nat.pow 2 e.toNat) else (n * Nat.pow 2 (-e).toNat, d)

/-- The exponent that gives the ratio `n / d` a significand of full precision, or the least exponent
when the ratio is too small for that. -/
def ratioExponent (n d : Nat) : Int :=
  let e : Int := (Nat.log2 n : Int) - Nat.log2 d - 52
  let (n', d') := scaleRatio n d e
  max Binary64.minExponent (if n' < Nat.pow 2 52 * d' then e - 1 else e)

/-- The magnitude nearest to the ratio `n / d`, of two the one with the even significand. -/
def Magnitude.ofRatio (n d : Nat) : Magnitude :=
  if n = 0 then .finite 0 Binary64.minExponent
  else
    let e := ratioExponent n d
    let (n', d') := scaleRatio n d e
    let m := roundHalfEven n' d'
    let (m, e) := if m = Nat.pow 2 53 then (Nat.pow 2 52, e + 1) else (m, e)
    if Binary64.maxExponent < e then .infinite else .finite m e

/-- The number of decimal digits of a number, one for zero. -/
def digitCount (n : Nat) : Nat := (Nat.toDigits 10 n).length

/-- The magnitude nearest to `digits * 10 ^ exponent`. Decimals beyond the range of doubles are
settled by their order of magnitude alone. -/
def Magnitude.ofDecimal (digits : Nat) (exponent : Int) : Magnitude :=
  let order := exponent + digitCount digits
  if digits = 0 || order < -400 then .finite 0 Binary64.minExponent
  else if 400 < order then .infinite
  else if 0 ≤ exponent then .ofRatio (digits * Nat.pow 10 exponent.toNat) 1
  else .ofRatio digits (Nat.pow 10 (-exponent).toNat)

namespace Magnitude

/-- A finite magnitude as an exact ratio. -/
def ratio (m : Nat) (e : Int) : Nat × Nat :=
  if 0 ≤ e then (m * Nat.pow 2 e.toNat, 1) else (m, Nat.pow 2 (-e).toNat)

/-- The whole number that a magnitude is, if it is one. -/
def whole? : Magnitude → Option Nat
  | .infinite => none
  | .finite m e => let (n, d) := ratio m e; if n % d = 0 then some (n / d) else none

/-- The magnitude of both zeros. -/
def isZero : Magnitude → Bool
  | .finite 0 _ => true
  | _ => false

end Magnitude

/-- Less than zero, which negative zero is not. -/
def Binary64.isBelowZero (x : Binary64) : Bool := x.negative && !x.magnitude.isZero

end TemplateCompiler.Decimal
