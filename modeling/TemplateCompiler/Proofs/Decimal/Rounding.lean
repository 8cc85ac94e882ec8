import Mathlib.Algebra.Order.Field.Power
import Mathlib.Data.Rat.Cast.Order
import Mathlib.Tactic.FieldSimp
import Mathlib.Tactic.Linarith
import Mathlib.Tactic.NormNum
import Mathlib.Tactic.Positivity
import Mathlib.Tactic.Ring
import TemplateCompiler.Decimal.Shortest

/-!
# Rounding to doubles

A quotient is rounded to the nearest whole number, and of two to the even one (`roundHalfEven_eq_iff`). So a ratio
in the basin of a double is rounded to that double (`ofRatio_eq_of_near`). The basin is given by its
ends in units of the last place; the ends belong to it if the significand is even.
-/

namespace TemplateCompiler.Decimal

/-! ## Ratios -/

/-- The number that a ratio stands for. -/
def valueOf (r : Nat × Nat) : ℚ := r.1 / r.2

theorem valueOf_scaleRatio {n d : Nat} (hd : 0 < d) (e : Int) :
    0 < (scaleRatio n d e).2 ∧ valueOf (scaleRatio n d e) = valueOf (n, d) / 2 ^ e := by
  have hd' : (d : ℚ) ≠ 0 := by positivity
  unfold scaleRatio valueOf
  by_cases he : 0 ≤ e
  · obtain ⟨k, rfl⟩ := Int.eq_ofNat_of_zero_le he
    rw [if_pos he]
    refine ⟨Nat.mul_pos hd (Nat.pow_pos Nat.two_pos), ?_⟩
    simp only [Int.toNat_natCast, zpow_natCast, Nat.pow_eq, Nat.cast_mul,
      Nat.cast_pow, Nat.cast_ofNat]
    field_simp
  · obtain ⟨k, rfl⟩ := Int.exists_eq_neg_ofNat (by omega : e ≤ 0)
    rw [if_neg he]
    refine ⟨hd, ?_⟩
    simp only [neg_neg, Int.toNat_natCast, zpow_neg, zpow_natCast, Nat.pow_eq, Nat.cast_mul,
      Nat.cast_pow, Nat.cast_ofNat]
    field_simp

theorem valueOf_ratio (m : Nat) (e : Int) :
    0 < (Magnitude.ratio m e).2 ∧ valueOf (Magnitude.ratio m e) = m * 2 ^ e := by
  unfold Magnitude.ratio valueOf
  by_cases he : 0 ≤ e
  · obtain ⟨k, rfl⟩ := Int.eq_ofNat_of_zero_le he
    rw [if_pos he]
    refine ⟨Nat.one_pos, ?_⟩
    simp
  · obtain ⟨k, rfl⟩ := Int.exists_eq_neg_ofNat (by omega : e ≤ 0)
    rw [if_neg he]
    refine ⟨Nat.pow_pos Nat.two_pos, ?_⟩
    simp [div_eq_mul_inv]

theorem valueOf_powerOfTen (e : Int) : 0 < (powerOfTen e).2 ∧ valueOf (powerOfTen e) = 10 ^ e := by
  unfold powerOfTen valueOf
  by_cases he : 0 ≤ e
  · obtain ⟨k, rfl⟩ := Int.eq_ofNat_of_zero_le he
    rw [if_pos he]
    exact ⟨Nat.one_pos, by simp⟩
  · obtain ⟨k, rfl⟩ := Int.exists_eq_neg_ofNat (by omega : e ≤ 0)
    rw [if_neg he]
    exact ⟨Nat.pow_pos (by decide), by simp⟩

/-! ## Rounding a quotient -/

-- Of two whole numbers at the same distance the odd one is never taken.
theorem two_mul_ne_of_roundHalfEven_odd {n d : Nat} (hd : 0 < d) (hodd : roundHalfEven n d % 2 = 1) :
    2 * (roundHalfEven n d * d) ≠ 2 * n + d ∧ 2 * n ≠ 2 * (roundHalfEven n d * d) + d := by
  have hn : n / d * d + n % d = n := Nat.div_add_mod' n d
  have hr : n % d < d := Nat.mod_lt n hd
  unfold roundHalfEven at hodd ⊢
  dsimp only at hodd ⊢
  split at hodd
  · rename_i hbelow
    rw [if_pos hbelow]
    omega
  · rename_i hbelow
    rw [if_neg hbelow]
    split at hodd
    · rename_i habove
      rw [if_pos habove, Nat.add_mul]
      omega
    · omega

/-- The rounded quotient is the whole number within half a unit; of two the even one. -/
theorem roundHalfEven_eq_iff {n d m : Nat} (hd : 0 < d) :
    roundHalfEven n d = m ↔ 2 * (m * d) ≤ 2 * n + d ∧ 2 * n ≤ 2 * (m * d) + d ∧
      (m % 2 = 1 → 2 * (m * d) ≠ 2 * n + d ∧ 2 * n ≠ 2 * (m * d) + d) := by
  constructor
  · rintro rfl
    exact ⟨two_mul_roundHalfEven_le n d, le_two_mul_roundHalfEven n d hd, two_mul_ne_of_roundHalfEven_odd hd⟩
  · rintro ⟨hlow, hhigh, htie⟩
    have hn : n / d * d + n % d = n := Nat.div_add_mod' n d
    have hr : n % d < d := Nat.mod_lt n hd
    have hle : m ≤ n / d + 1 := by
      by_contra hgt
      have hmul : (n / d + 2) * d ≤ m * d := Nat.mul_le_mul_right d (by omega)
      rw [Nat.add_mul] at hmul
      omega
    have hge : n / d ≤ m := by
      by_contra hlt
      have hmul : (m + 1) * d ≤ n / d * d := Nat.mul_le_mul_right d (by omega)
      rw [Nat.add_mul] at hmul
      omega
    unfold roundHalfEven
    dsimp only
    rcases Nat.eq_or_lt_of_le hge with heq | hlt
    · rw [← heq] at hlow hhigh htie ⊢
      split_ifs <;> omega
    · obtain rfl : m = n / d + 1 := by omega
      rw [Nat.add_mul] at hlow hhigh htie
      split_ifs <;> omega

/-! ## The exponent of a ratio -/

theorem log2_bounds {n : Nat} (hn : 0 < n) :
    (2 : ℚ) ^ (Nat.log2 n : Int) ≤ n ∧ (n : ℚ) < 2 ^ ((Nat.log2 n : Int) + 1) := by
  have hlt : n < 2 ^ (n.log2 + 1) := Nat.lt_log2_self
  rw [zpow_natCast]
  exact ⟨by exact_mod_cast Nat.log2_self_le hn.ne', by exact_mod_cast hlt⟩

-- The order of magnitude of a ratio is right up to one bit.
theorem valueOf_bounds {n d : Nat} (hn : 0 < n) (hd : 0 < d) :
    (2 : ℚ) ^ ((Nat.log2 n : Int) - Nat.log2 d - 1) ≤ valueOf (n, d) ∧
      valueOf (n, d) < 2 ^ ((Nat.log2 n : Int) - Nat.log2 d + 1) := by
  have hd' : (0 : ℚ) < d := Nat.cast_pos.mpr hd
  obtain ⟨hnlow, hnhigh⟩ := log2_bounds hn
  obtain ⟨hdlow, hdhigh⟩ := log2_bounds hd
  constructor
  · rw [valueOf, le_div_iff₀ hd', sub_sub, zpow_sub₀ two_ne_zero, div_mul_eq_mul_div,
      div_le_iff₀ (by positivity)]
    exact mul_le_mul hnlow hdhigh.le hd'.le (by positivity)
  · rw [valueOf, div_lt_iff₀ hd', sub_add_eq_add_sub, zpow_sub₀ two_ne_zero, div_mul_eq_mul_div,
      lt_div_iff₀ (by positivity)]
    exact mul_lt_mul hnhigh hdlow (by positivity) (by positivity)

/-- The significand of a ratio is below `2 ^ 53`, and it has all bits unless the exponent is the least
one. -/
theorem ratioExponent_bounds {n d : Nat} (hn : 0 < n) (hd : 0 < d) :
    Binary64.minExponent ≤ ratioExponent n d ∧ valueOf (n, d) < 2 ^ (ratioExponent n d + 53) ∧
      (ratioExponent n d = Binary64.minExponent ∨ 2 ^ (ratioExponent n d + 52) ≤ valueOf (n, d)) := by
  obtain ⟨hlow, hhigh⟩ := valueOf_bounds hn hd
  -- the lengths of both numbers give the exponent, or one that is too high by one
  obtain ⟨e, he⟩ : ∃ e : Int, e = (Nat.log2 n : Int) - Nat.log2 d - 52 := ⟨_, rfl⟩
  rw [show (Nat.log2 n : Int) - Nat.log2 d - 1 = e + 51 by omega] at hlow
  rw [show (Nat.log2 n : Int) - Nat.log2 d + 1 = e + 53 by omega] at hhigh
  have hshort : (scaleRatio n d e).1 < Nat.pow 2 52 * (scaleRatio n d e).2 ↔
      valueOf (n, d) < 2 ^ (e + 52) := by
    obtain ⟨hpos, hvalue⟩ := valueOf_scaleRatio (n := n) hd e
    have hpos' : (0 : ℚ) < (scaleRatio n d e).2 := Nat.cast_pos.mpr hpos
    have hlt : valueOf (n, d) < 2 ^ (e + 52) ↔ valueOf (scaleRatio n d e) < 2 ^ 52 := by
      rw [hvalue, div_lt_iff₀ (by positivity), zpow_add₀ two_ne_zero, mul_comm]
      norm_cast
    rw [hlt, valueOf, div_lt_iff₀ hpos', Nat.pow_eq]
    exact_mod_cast Iff.rfl
  obtain ⟨f, hf, hflow, hfhigh⟩ : ∃ f : Int, ratioExponent n d = max Binary64.minExponent f ∧
      (2 : ℚ) ^ (f + 52) ≤ valueOf (n, d) ∧ valueOf (n, d) < 2 ^ (f + 53) := by
    have hdef : ratioExponent n d = max Binary64.minExponent
        (if (scaleRatio n d e).1 < Nat.pow 2 52 * (scaleRatio n d e).2 then e - 1 else e) := by
      rw [he]
      rfl
    by_cases hless : valueOf (n, d) < 2 ^ (e + 52)
    · refine ⟨e - 1, ?_, ?_, ?_⟩
      · rw [hdef, if_pos (hshort.mpr hless)]
      · rwa [show e - 1 + 52 = e + 51 by omega]
      · rwa [show e - 1 + 53 = e + 52 by omega]
    · refine ⟨e, ?_, le_of_not_gt hless, hhigh⟩
      rw [hdef, if_neg (mt hshort.mp hless)]
  rw [hf]
  rcases le_total Binary64.minExponent f with hle | hle
  · rw [max_eq_right hle]
    exact ⟨hle, hfhigh, .inr hflow⟩
  · rw [max_eq_left hle]
    exact ⟨le_rfl, hfhigh.trans_le (zpow_le_zpow_right₀ one_le_two (by omega)), .inl rfl⟩

/-! ## The double of a ratio -/

/-- A finite magnitude other than zero in its one form: the significand has all bits, unless the exponent is
the least one. -/
structure IsNormal (m : Nat) (e : Int) : Prop where
  pos : 0 < m
  lt : m < 2 ^ 53
  full : 2 ^ 52 ≤ m ∨ e = Binary64.minExponent
  le_exponent : Binary64.minExponent ≤ e
  exponent_le : e ≤ Binary64.maxExponent

/-- The ratio rounds to the magnitude: it is within half a unit of the last place, above a power of two only
within a quarter below, and ties go to the even significand. -/
structure IsNear (m : Nat) (e : Int) (x : ℚ) : Prop where
  low : (m : ℚ) - 1 / 2 ≤ x / 2 ^ e
  high : x / 2 ^ e ≤ m + 1 / 2
  odd : m % 2 = 1 → (m : ℚ) - 1 / 2 < x / 2 ^ e ∧ x / 2 ^ e < m + 1 / 2
  quarter : m = 2 ^ 52 → Binary64.minExponent < e → (m : ℚ) - 1 / 4 ≤ x / 2 ^ e

theorem roundHalfEven_of_near {n d m : Nat} (hd : 0 < d) (hlow : (m : ℚ) - 1 / 2 ≤ valueOf (n, d))
    (hhigh : valueOf (n, d) ≤ m + 1 / 2)
    (hodd : m % 2 = 1 → (m : ℚ) - 1 / 2 < valueOf (n, d) ∧ valueOf (n, d) < m + 1 / 2) :
    roundHalfEven n d = m := by
  have hd' : (0 : ℚ) < d := Nat.cast_pos.mpr hd
  have hmul : valueOf (n, d) * d = n := by
    unfold valueOf
    field_simp
  refine (roundHalfEven_eq_iff hd).mpr ⟨?_, ?_, fun h => ⟨Nat.ne_of_lt ?_, Nat.ne_of_lt ?_⟩⟩
  · have h := mul_le_mul_of_nonneg_right hlow hd'.le
    rw [hmul] at h
    have h' : 2 * ((m : ℚ) * d) ≤ 2 * n + d := by linarith
    exact_mod_cast h'
  · have h := mul_le_mul_of_nonneg_right hhigh hd'.le
    rw [hmul] at h
    have h' : 2 * (n : ℚ) ≤ 2 * (m * d) + d := by linarith
    exact_mod_cast h'
  · have h := mul_lt_mul_of_pos_right (hodd h).1 hd'
    rw [hmul] at h
    have h' : 2 * ((m : ℚ) * d) < 2 * n + d := by linarith
    exact_mod_cast h'
  · have h := mul_lt_mul_of_pos_right (hodd h).2 hd'
    rw [hmul] at h
    have h' : 2 * (n : ℚ) < 2 * (m * d) + d := by linarith
    exact_mod_cast h'

-- The bounds fix the exponent.
theorem ratioExponent_eq {n d : Nat} {e : Int} (hn : 0 < n) (hd : 0 < d)
    (he : Binary64.minExponent ≤ e) (hhigh : valueOf (n, d) < 2 ^ (e + 53))
    (hlow : e = Binary64.minExponent ∨ 2 ^ (e + 52) ≤ valueOf (n, d)) : ratioExponent n d = e := by
  obtain ⟨hf, hfhigh, hflow⟩ := ratioExponent_bounds hn hd
  have hle {a b : Int} (ha : (2 : ℚ) ^ (a + 52) ≤ valueOf (n, d))
      (hb : valueOf (n, d) < 2 ^ (b + 53)) : a ≤ b := by
    have htwo : (1 : ℚ) < 2 := one_lt_two
    have hlt := (zpow_lt_zpow_iff_right₀ htwo).mp (ha.trans_lt hb)
    omega
  apply le_antisymm
  · rcases hflow with hmin | hflow
    · rwa [hmin]
    · exact hle hflow hhigh
  · rcases hlow with hmin | hlow
    · rwa [hmin]
    · exact hle hlow hfhigh

theorem ofRatio_of_round {n d k : Nat} {f : Int} (hn : 0 < n) (hf : ratioExponent n d = f)
    (hk : roundHalfEven (scaleRatio n d f).1 (scaleRatio n d f).2 = k) :
    Magnitude.ofRatio n d =
      if k = 2 ^ 53 then
        if Binary64.maxExponent < f + 1 then .infinite else .finite (2 ^ 52) (f + 1)
      else if Binary64.maxExponent < f then .infinite else .finite k f := by
  unfold Magnitude.ofRatio
  rw [if_neg hn.ne']
  dsimp only
  rw [hf, hk]
  simp only [Nat.pow_eq]
  split_ifs <;> rfl

theorem valueOf_lt_iff (r : Nat × Nat) (e : Int) (k : Nat) :
    valueOf r < 2 ^ (e + k) ↔ valueOf r / 2 ^ e < 2 ^ k := by
  have hpow : (0 : ℚ) < 2 ^ e := by positivity
  rw [div_lt_iff₀ hpow, zpow_add₀ two_ne_zero, zpow_natCast, mul_comm]

section

variable {m n d : Nat} {e : Int}

-- A ratio that has the exponent of the double.
theorem ofRatio_of_exponent (h : IsNormal m e) (hn : 0 < n) (hd : 0 < d)
    (hnear : IsNear m e (valueOf (n, d))) (hexponent : ratioExponent n d = e) :
    Magnitude.ofRatio n d = .finite m e := by
  obtain ⟨hpos, hvalue⟩ := valueOf_scaleRatio (n := n) hd e
  have hsignificand : roundHalfEven (scaleRatio n d e).1 (scaleRatio n d e).2 = m := by
    apply roundHalfEven_of_near hpos
    · exact hvalue ▸ hnear.low
    · exact hvalue ▸ hnear.high
    · exact hvalue ▸ hnear.odd
  have hmax := h.exponent_le
  rw [ofRatio_of_round hn hexponent hsignificand, if_neg (Nat.ne_of_lt h.lt), if_neg (by omega)]

-- A ratio that is just below a power of two, and rounds up to it.
theorem ofRatio_of_below (hn : 0 < n) (hd : 0 < d) (hmin : Binary64.minExponent < e)
    (hmax : e ≤ Binary64.maxExponent) (hlow : (2 : ℚ) ^ 52 - 1 / 4 ≤ valueOf (n, d) / 2 ^ e)
    (hless : valueOf (n, d) < 2 ^ (e + 52)) : Magnitude.ofRatio n d = .finite (2 ^ 52) e := by
  have hhigh : valueOf (n, d) / 2 ^ e < 2 ^ 52 := (valueOf_lt_iff (n, d) e 52).mp hless
  have hexponent : ratioExponent n d = e - 1 := by
    refine ratioExponent_eq hn hd (by omega) ?_ (.inr ?_)
    · rwa [show e - 1 + 53 = e + 52 by omega]
    · have hge : (2 : ℚ) ^ 51 ≤ valueOf (n, d) / 2 ^ e := by
        norm_num at hlow ⊢
        linarith
      rw [show e - 1 + 52 = e + 51 by omega]
      exact not_lt.mp fun hlt => absurd ((valueOf_lt_iff (n, d) e 51).mp hlt) (not_lt.mpr hge)
  obtain ⟨hpos, hvalue⟩ := valueOf_scaleRatio (n := n) hd (e - 1)
  have hhalf : (2 : ℚ) ^ (e - 1) = 2 ^ e / 2 := by rw [zpow_sub₀ two_ne_zero, zpow_one]
  have hdouble : valueOf (scaleRatio n d (e - 1)) = 2 * (valueOf (n, d) / 2 ^ e) := by
    rw [hvalue, hhalf]
    field_simp
  have hsignificand :
      roundHalfEven (scaleRatio n d (e - 1)).1 (scaleRatio n d (e - 1)).2 = 2 ^ 53 := by
    norm_num at hlow hhigh
    have hodd : 2 ^ 53 % 2 ≠ 1 := by decide
    refine roundHalfEven_of_near hpos ?_ ?_ (fun h => absurd h hodd)
    · rw [hdouble]
      norm_num
      linarith
    · rw [hdouble]
      norm_num
      linarith
  rw [ofRatio_of_round hn hexponent hsignificand, if_pos rfl, if_neg (by omega), Int.sub_add_cancel]

/-- A ratio that is near to a double rounds to it. -/
theorem ofRatio_eq_of_near (h : IsNormal m e) (hd : 0 < d) (hnear : IsNear m e (valueOf (n, d))) :
    Magnitude.ofRatio n d = .finite m e := by
  have hm : (1 : ℚ) ≤ m := by exact_mod_cast h.pos
  have hm' : (m : ℚ) + 1 ≤ 2 ^ 53 := by exact_mod_cast h.lt
  have hlow := hnear.low
  have hhigh := hnear.high
  have hn : 0 < n := by
    rcases Nat.eq_zero_or_pos n with rfl | hn
    · have hzero : valueOf (0, d) / 2 ^ e = 0 := by simp [valueOf]
      rw [hzero] at hlow
      linarith
    · exact hn
  by_cases hfull : e = Binary64.minExponent ∨ 2 ^ (e + 52) ≤ valueOf (n, d)
  · have hbelow : valueOf (n, d) < 2 ^ (e + 53) := (valueOf_lt_iff (n, d) e 53).mpr (by linarith)
    exact ofRatio_of_exponent h hn hd hnear (ratioExponent_eq hn hd h.le_exponent hbelow hfull)
  · rw [not_or, not_le] at hfull
    obtain ⟨hmin, hless⟩ := hfull
    have hmin' : Binary64.minExponent < e := lt_of_le_of_ne h.le_exponent (Ne.symm hmin)
    have hlt := (valueOf_lt_iff (n, d) e 52).mp hless
    obtain rfl : m = 2 ^ 52 := by
      have hle : 2 ^ 52 ≤ m := h.full.resolve_right hmin
      have hlt' : (m : ℚ) < 2 ^ 52 + 1 := by linarith
      have hlt'' : m < 2 ^ 52 + 1 := by exact_mod_cast hlt'
      omega
    have hquarter : (2 : ℚ) ^ 52 - 1 / 4 ≤ valueOf (n, d) / 2 ^ e := by
      exact_mod_cast hnear.quarter rfl hmin'
    exact ofRatio_of_below hn hd hmin' h.exponent_le hquarter hless

end

/-! ## The double of a decimal -/

theorem lt_ten_pow_digitCount (n : Nat) : n < 10 ^ digitCount n :=
  (Nat.length_toDigits_le_iff (by decide) Nat.length_toDigits_pos).mp le_rfl

theorem ten_pow_digitCount_le {n : Nat} (hn : 0 < n) : 10 ^ (digitCount n - 1) ≤ n := by
  by_cases hone : digitCount n = 1
  · rw [hone]
    exact hn
  · have hpos : 0 < digitCount n := Nat.length_toDigits_pos
    by_contra hlt
    have hle : digitCount n ≤ digitCount n - 1 :=
      (Nat.length_toDigits_le_iff (by decide) (by omega)).mpr (not_le.mp hlt)
    omega

-- What rounds to a double is within the range of doubles.
theorem IsNear.bounds {m : Nat} {e : Int} {v : ℚ} (h : IsNormal m e) (hnear : IsNear m e v) :
    2 ^ (-1075 : Int) ≤ v ∧ v < 2 ^ (1025 : Int) := by
  have hpow : (0 : ℚ) < 2 ^ e := by positivity
  have hm : (1 : ℚ) ≤ m := by exact_mod_cast h.pos
  have hm' : (m : ℚ) ≤ 2 ^ 53 := by exact_mod_cast h.lt.le
  constructor
  · have he : (2 : ℚ) ^ (-1074 : Int) ≤ 2 ^ e := zpow_le_zpow_right₀ one_le_two h.le_exponent
    have hhalf : (2 : ℚ) ^ (-1075 : Int) = 1 / 2 * 2 ^ (-1074 : Int) := by
      rw [show (-1075 : Int) = -1 + -1074 by decide, zpow_add₀ two_ne_zero]
      norm_num
    have hle : (1 : ℚ) / 2 ≤ v / 2 ^ e := by linarith [hnear.low]
    rw [hhalf]
    exact (mul_le_mul_of_nonneg_left he (by norm_num)).trans ((le_div_iff₀ hpow).mp hle)
  · have he : (2 : ℚ) ^ e ≤ 2 ^ (971 : Int) := zpow_le_zpow_right₀ one_le_two h.exponent_le
    have hlt : v / 2 ^ e < 2 ^ 54 := by linarith [hnear.high]
    have hsplit : (2 : ℚ) ^ (1025 : Int) = 2 ^ 54 * 2 ^ (971 : Int) := by
      rw [show (1025 : Int) = 54 + 971 by decide, zpow_add₀ two_ne_zero]
      norm_num
    rw [hsplit]
    exact ((div_lt_iff₀ hpow).mp hlt).trans_le (mul_le_mul_of_nonneg_left he (by positivity))

-- Decimals within the range of doubles have an order that is not cut off.
theorem decimal_order_bounds {n : Nat} {x : Int} (hn : 0 < n)
    (hlow : (2 : ℚ) ^ (-1075 : Int) ≤ n * 10 ^ x) (hhigh : (n : ℚ) * 10 ^ x < 2 ^ (1025 : Int)) :
    -400 ≤ x + digitCount n ∧ x + digitCount n ≤ 400 := by
  have hten : (0 : ℚ) < 10 ^ x := by positivity
  have hdigits : 0 < digitCount n := Nat.length_toDigits_pos
  have horder (k : Int) : (10 : ℚ) ^ (x + k) = 10 ^ k * 10 ^ x := by
    rw [zpow_add₀ (by norm_num), mul_comm]
  constructor
  · by_contra hlt
    have hless : (n : ℚ) * 10 ^ x < 10 ^ (x + (digitCount n : Int)) := by
      rw [horder, zpow_natCast]
      exact mul_lt_mul_of_pos_right (by exact_mod_cast lt_ten_pow_digitCount n) hten
    have hpower : (10 : ℚ) ^ (x + (digitCount n : Int)) ≤ 10 ^ (-400 : Int) :=
      zpow_le_zpow_right₀ (by norm_num) (by omega)
    have hsmall : (10 : ℚ) ^ (-400 : Int) < 2 ^ (-1075 : Int) := by
      rw [zpow_neg, zpow_neg]
      apply inv_strictAnti₀ (by positivity)
      exact_mod_cast (by decide +kernel : 2 ^ 1075 < 10 ^ 400)
    exact absurd hlow (not_le.mpr ((hless.trans_le hpower).trans hsmall))
  · by_contra hlt
    have hle : (10 : ℚ) ^ (x + ((digitCount n - 1 : Nat) : Int)) ≤ n * 10 ^ x := by
      rw [horder, zpow_natCast]
      exact mul_le_mul_of_nonneg_right (by exact_mod_cast ten_pow_digitCount_le hn) hten.le
    have hpower : (10 : ℚ) ^ (400 : Int) ≤ 10 ^ (x + ((digitCount n - 1 : Nat) : Int)) :=
      zpow_le_zpow_right₀ (by norm_num) (by omega)
    have hbig : (2 : ℚ) ^ (1025 : Int) < 10 ^ (400 : Int) := by
      exact_mod_cast (by decide +kernel : 2 ^ 1025 < 10 ^ 400)
    exact absurd (hhigh.trans hbig) (not_lt.mpr (hpower.trans hle))

/-- A decimal that is near to a double rounds to it. -/
theorem ofDecimal_eq_of_near {m n : Nat} {e x : Int} (h : IsNormal m e)
    (hnear : IsNear m e (n * 10 ^ x)) : Magnitude.ofDecimal n x = .finite m e := by
  obtain ⟨hlow, hhigh⟩ := hnear.bounds h
  have hn : 0 < n := by
    rcases Nat.eq_zero_or_pos n with rfl | hn
    · have hpos : (0 : ℚ) < 2 ^ (-1075 : Int) := by positivity
      rw [Nat.cast_zero, zero_mul] at hlow
      linarith
    · exact hn
  obtain ⟨hmany, hfew⟩ := decimal_order_bounds hn hlow hhigh
  unfold Magnitude.ofDecimal
  dsimp only
  have hfirst : (decide (n = 0) || decide (x + (digitCount n : Int) < -400)) = false := by
    simp [hn.ne', not_lt.mpr hmany]
  rw [hfirst, if_neg Bool.false_ne_true, if_neg (not_lt.mpr hfew)]
  by_cases hx : 0 ≤ x
  · obtain ⟨k, rfl⟩ := Int.eq_ofNat_of_zero_le hx
    rw [if_pos hx]
    refine ofRatio_eq_of_near h Nat.one_pos ?_
    simpa [valueOf] using hnear
  · obtain ⟨k, rfl⟩ := Int.exists_eq_neg_ofNat (by omega : x ≤ 0)
    rw [if_neg hx]
    refine ofRatio_eq_of_near h (Nat.pow_pos (by decide)) ?_
    simpa [valueOf, div_eq_mul_inv] using hnear

end TemplateCompiler.Decimal
