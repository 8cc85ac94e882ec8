import TemplateCompiler.Decimal.Numeral
import TemplateCompiler.Proofs.Decimal.Arithmetic
import TemplateCompiler.Proofs.Decimal.Rounding

/-!
# Integers in markup

The numeral in markup of a double that is an integer (`markup_of_integer`). It goes through 64 bits, so it is
that of the integer itself only in their range.
-/

namespace TemplateCompiler.Decimal

/-! ## Integers -/

/-- The double is an integer. Both zeros are zero. -/
def Binary64.IsInteger (x : Binary64) (n : ℤ) : Prop :=
  x.exact = (((n : ℚ) : WithTop ℚ) : WithBot (WithTop ℚ))

theorem Magnitude.whole?_of_eq {m k : Nat} {e : Int} (h : (m : ℚ) * 2 ^ e = k) :
    (Magnitude.finite m e).whole? = some k := by
  obtain ⟨hpos, hvalue⟩ := valueOf_ratio m e
  have hratio : (ratio m e).1 = k * (ratio m e).2 := by
    rw [h, valueOf, div_eq_iff (Nat.cast_ne_zero.mpr hpos.ne')] at hvalue
    exact_mod_cast hvalue
  show (if (ratio m e).1 % (ratio m e).2 = 0 then some ((ratio m e).1 / (ratio m e).2) else none) = _
  rw [hratio, Nat.mul_mod_left, if_pos rfl, Nat.mul_div_cancel k hpos]

/-- An integer has its distance from zero as a whole magnitude, and its sign. -/
theorem Binary64.IsInteger.whole? {x : Binary64} {n : ℤ} (h : x.IsInteger n) :
    x.magnitude.whole? = some n.natAbs ∧ n = (if x.negative then -1 else 1) * n.natAbs := by
  obtain ⟨negative, ⟨m, e⟩ | _⟩ := x
  · have hvalue : finiteValue negative m e = n := WithTop.coe_inj.mp (WithBot.coe_inj.mp h)
    have hnonneg : (0 : ℚ) ≤ m * 2 ^ e := by positivity
    unfold finiteValue at hvalue
    cases negative with
    | false =>
      rw [if_neg Bool.false_ne_true, one_mul] at hvalue
      have hn : 0 ≤ n := by exact_mod_cast hvalue ▸ hnonneg
      refine ⟨Magnitude.whole?_of_eq ?_, by simp [abs_of_nonneg hn]⟩
      rw [hvalue, ← Int.cast_natCast, Int.natAbs_of_nonneg hn]
    | true =>
      rw [if_pos rfl, neg_one_mul, neg_eq_iff_eq_neg] at hvalue
      have hn : n ≤ 0 := by
        have hneg : (0 : ℚ) ≤ -n := hvalue ▸ hnonneg
        exact_mod_cast neg_nonneg.mp hneg
      refine ⟨Magnitude.whole?_of_eq ?_, by simp [abs_of_nonpos hn]⟩
      rw [hvalue, ← Int.cast_natCast, Int.ofNat_natAbs_of_nonpos hn, Int.cast_neg]
  · have hinfinite : (if negative then ⊥ else ((⊤ : WithTop ℚ) : WithBot (WithTop ℚ))) =
        (((n : ℚ) : WithTop ℚ) : WithBot (WithTop ℚ)) := h
    cases negative with
    | false => exact absurd (WithBot.coe_inj.mp hinfinite) WithTop.top_ne_coe
    | true => exact absurd hinfinite WithBot.bot_ne_coe

/-! ## Numerals -/

/-- The integer of 64 bits that is nearest to an integer. -/
def nearestInt64 (n : ℤ) : ℤ := max (-2 ^ 63) (min n (2 ^ 63 - 1))

theorem clampInteger_eq (negative : Bool) (k : Nat) :
    clampInteger negative k = nearestInt64 ((if negative then -1 else 1) * k) := by
  have hmax : maxInteger = 2 ^ 63 - 1 := rfl
  unfold clampInteger nearestInt64
  rw [hmax]
  cases negative with
  | false =>
    rw [if_neg Bool.false_ne_true, if_neg Bool.false_ne_true]
    omega
  | true =>
    rw [if_pos rfl, if_pos rfl]
    omega

theorem nearestInt64_eq_self_iff (n : ℤ) : nearestInt64 n = n ↔ -2 ^ 63 ≤ n ∧ n < 2 ^ 63 := by
  unfold nearestInt64
  omega

/-- Only integers beyond the same end of the range have the same nearest one. -/
theorem nearestInt64_eq_iff (n m : ℤ) :
    nearestInt64 n = nearestInt64 m ↔
      n = m ∨ (2 ^ 63 - 1 ≤ n ∧ 2 ^ 63 - 1 ≤ m) ∨ (n ≤ -2 ^ 63 ∧ m ≤ -2 ^ 63) := by
  unfold nearestInt64
  omega

/-- In markup an integer below `10 ^ 21` is the numeral of the nearest integer of 64 bits. -/
theorem Binary64.IsInteger.markup {x : Binary64} {n : ℤ} (h : x.IsInteger n) (hn : |n| < 10 ^ 21) :
    x.markup = (nearestInt64 n).repr := by
  obtain ⟨hwhole, hsign⟩ := h.whole?
  have hbound : n.natAbs < Nat.pow 10 21 := by
    have hpow : Nat.pow 10 21 = 10 ^ 21 := rfl
    have habs := Int.abs_eq_natAbs n
    omega
  rw [Binary64.markup, hwhole]
  show (if n.natAbs < Nat.pow 10 21 then (clampInteger x.negative n.natAbs).repr else _) = _
  rw [if_pos hbound, clampInteger_eq, ← hsign]

end TemplateCompiler.Decimal
