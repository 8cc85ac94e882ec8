import TemplateCompiler.Proofs.Decimal.Rounding

/-!
# Shortest decimals read back

The shortest decimal of a double rounds to the double (`isNear_of`). The place of its point is estimated from
the binary order of magnitude, which is right for all doubles (`point_bounds`), and a grid of seventeen digits
always has a hit (`exists_onGrid`).
-/

namespace TemplateCompiler.Decimal

variable {m : Nat} {e : Int}

/-! ## The basin -/

theorem valueOf_basin (m : Nat) (e : Int) :
    0 < (Basin.of m e).denominator ∧
      valueOf ((Basin.of m e).value, (Basin.of m e).denominator) = m * 2 ^ e := by
  obtain ⟨hpos, hunit⟩ := valueOf_ratio 1 (e - 2)
  refine ⟨hpos, ?_⟩
  have hquarter : (2 : ℚ) ^ (e - 2) = 2 ^ e / 4 := by
    rw [zpow_sub₀ two_ne_zero]
    norm_num
  rw [hquarter] at hunit
  calc valueOf ((Basin.of m e).value, (Basin.of m e).denominator)
      = 4 * m * valueOf (Magnitude.ratio 1 (e - 2)) := by
        show ((4 * m * (Magnitude.ratio 1 (e - 2)).1 : Nat) : ℚ) / (Magnitude.ratio 1 (e - 2)).2 = _
        unfold valueOf
        push_cast
        ring
    _ = m * 2 ^ e := by
        rw [hunit]
        push_cast
        ring

/-- How far the basin reaches below the value, in quarters of a unit. -/
def Basin.gap (m : Nat) (e : Int) : Nat := if m = 2 ^ 52 ∧ Binary64.minExponent < e then 1 else 2

theorem quarters_mul_zpow (k : Nat) (e : Int) :
    (k : ℚ) / 4 * 2 ^ e = k * valueOf (Magnitude.ratio 1 (e - 2)) := by
  rw [(valueOf_ratio 1 (e - 2)).2, zpow_sub₀ two_ne_zero]
  norm_num
  ring

-- The ends are compared as quarters of a unit.
theorem quarters_le_iff {n d : Nat} (hd : 0 < d) (k : Nat) :
    k * (Magnitude.ratio 1 (e - 2)).1 * d ≤ n * (Magnitude.ratio 1 (e - 2)).2 ↔
      (k : ℚ) / 4 ≤ valueOf (n, d) / 2 ^ e := by
  have hd' : (0 : ℚ) < d := Nat.cast_pos.mpr hd
  have hpos' : (0 : ℚ) < (Magnitude.ratio 1 (e - 2)).2 := Nat.cast_pos.mpr (valueOf_ratio 1 (e - 2)).1
  have hpow : (0 : ℚ) < 2 ^ e := by positivity
  rw [le_div_iff₀ hpow, quarters_mul_zpow, valueOf, valueOf, mul_div_assoc', div_le_div_iff₀ hpos' hd']
  exact_mod_cast Iff.rfl

theorem le_quarters_iff {n d : Nat} (hd : 0 < d) (k : Nat) :
    n * (Magnitude.ratio 1 (e - 2)).2 ≤ k * (Magnitude.ratio 1 (e - 2)).1 * d ↔
      valueOf (n, d) / 2 ^ e ≤ (k : ℚ) / 4 := by
  have hd' : (0 : ℚ) < d := Nat.cast_pos.mpr hd
  have hpos' : (0 : ℚ) < (Magnitude.ratio 1 (e - 2)).2 := Nat.cast_pos.mpr (valueOf_ratio 1 (e - 2)).1
  have hpow : (0 : ℚ) < 2 ^ e := by positivity
  rw [div_le_iff₀ hpow, quarters_mul_zpow, valueOf, valueOf, mul_div_assoc', div_le_div_iff₀ hd' hpos']
  exact_mod_cast Iff.rfl

/-- A ratio lies in the basin if it is between the ends. These belong to it if the significand is even. -/
theorem holds_iff (hm : 0 < m) {n d : Nat} (hd : 0 < d) :
    (Basin.of m e).holds n d = true ↔
      if m % 2 = 0 then
        (m : ℚ) - Basin.gap m e / 4 ≤ valueOf (n, d) / 2 ^ e ∧ valueOf (n, d) / 2 ^ e ≤ m + 1 / 2
      else (m : ℚ) - Basin.gap m e / 4 < valueOf (n, d) / 2 ^ e ∧
        valueOf (n, d) / 2 ^ e < m + 1 / 2 := by
  have hgap : Basin.gap m e ≤ 4 * m := by
    unfold Basin.gap
    split_ifs <;> omega
  have hlow : ((4 * m - Basin.gap m e : Nat) : ℚ) / 4 = m - Basin.gap m e / 4 := by
    rw [Nat.cast_sub hgap]
    push_cast
    ring
  have hhigh : ((4 * m + 2 : Nat) : ℚ) / 4 = m + 1 / 2 := by
    push_cast
    ring
  rw [← hlow, ← hhigh, ← quarters_le_iff hd, ← le_quarters_iff hd, ← not_le, ← not_le,
    ← quarters_le_iff hd, ← le_quarters_iff hd, not_le, not_le]
  have hbasin : Basin.of m e =
      ⟨(4 * m - Basin.gap m e) * (Magnitude.ratio 1 (e - 2)).1, 4 * m * (Magnitude.ratio 1 (e - 2)).1,
        (4 * m + 2) * (Magnitude.ratio 1 (e - 2)).1, (Magnitude.ratio 1 (e - 2)).2, m % 2 = 0⟩ := by
    have hif : (if m = Nat.pow 2 52 && decide (Binary64.minExponent < e) then 1 else 2) =
        Basin.gap m e := by
      simp [Basin.gap]
    unfold Basin.of
    rw [hif]
  rw [hbasin]
  unfold Basin.holds
  by_cases heven : m % 2 = 0
  · simp [heven]
  · simp [heven]

theorem isNear_of_holds (hm : 0 < m) {n d : Nat} (hd : 0 < d) (h : (Basin.of m e).holds n d = true) :
    IsNear m e (valueOf (n, d)) := by
  rw [holds_iff hm hd] at h
  have hgap : (Basin.gap m e : ℚ) ≤ 2 := by
    unfold Basin.gap
    split_ifs <;> norm_num
  have hquarter (heq : m = 2 ^ 52) (he : Binary64.minExponent < e) : (Basin.gap m e : ℚ) = 1 := by
    rw [Basin.gap, if_pos ⟨heq, he⟩, Nat.cast_one]
  by_cases heven : m % 2 = 0
  · rw [if_pos heven] at h
    refine ⟨by linarith [h.1], h.2, fun hodd => absurd hodd (by omega), fun heq he => ?_⟩
    rw [hquarter heq he] at h
    exact h.1
  · rw [if_neg heven] at h
    refine ⟨by linarith [h.1], h.2.le, fun _ => ⟨by linarith [h.1], h.2⟩, fun heq he => ?_⟩
    rw [hquarter heq he] at h
    exact h.1.le

-- Between the ends it does not matter whether they belong to the basin.
theorem holds_of_lt (hm : 0 < m) {n d : Nat} (hd : 0 < d)
    (hlow : (m : ℚ) - Basin.gap m e / 4 < valueOf (n, d) / 2 ^ e)
    (hhigh : valueOf (n, d) / 2 ^ e < m + 1 / 2) : (Basin.of m e).holds n d = true := by
  rw [holds_iff hm hd]
  split
  · exact ⟨hlow.le, hhigh.le⟩
  · exact ⟨hlow, hhigh⟩

/-! ## Grids -/

/-- The point of a grid below a value. -/
def Basin.floor (b : Basin) (p q : Nat) : Nat := b.value * q / (p * b.denominator)

theorem onGrid_eq_some {b : Basin} {p q x : Nat} (h : b.onGrid p q = some x) :
    (x = b.floor p q ∨ x = b.floor p q + 1) ∧ b.holds (x * p) q = true := by
  unfold Basin.onGrid at h
  dsimp only at h
  split at h
  · rename_i hbelow habove
    split at h
    · cases h
      exact ⟨.inr rfl, habove⟩
    · cases h
      exact ⟨.inl rfl, hbelow⟩
  · rename_i hbelow habove
    cases h
    exact ⟨.inl rfl, hbelow⟩
  · rename_i hbelow habove
    cases h
    exact ⟨.inr rfl, habove⟩
  · cases h

theorem exists_onGrid_eq_some {b : Basin} {p q : Nat}
    (h : b.holds (b.floor p q * p) q = true ∨ b.holds ((b.floor p q + 1) * p) q = true) :
    ∃ x, b.onGrid p q = some x := by
  unfold Basin.floor at h
  unfold Basin.onGrid
  dsimp only
  rcases h with h | h <;> rw [h] <;> split <;> simp_all

theorem floor_bounds {b : Basin} {p q : Nat} (hb : 0 < b.denominator) (hp : 0 < p) (hq : 0 < q) :
    b.floor p q * valueOf (p, q) ≤ valueOf (b.value, b.denominator) ∧
      valueOf (b.value, b.denominator) < (b.floor p q + 1) * valueOf (p, q) := by
  have hb' : (0 : ℚ) < b.denominator := Nat.cast_pos.mpr hb
  have hq' : (0 : ℚ) < q := Nat.cast_pos.mpr hq
  have hpos : 0 < p * b.denominator := Nat.mul_pos hp hb
  have hlow : b.floor p q * (p * b.denominator) ≤ b.value * q := Nat.div_mul_le_self _ _
  have hhigh : b.value * q < (b.floor p q + 1) * (p * b.denominator) := by
    rw [Nat.mul_comm (b.floor p q + 1)]
    exact Nat.lt_mul_div_succ _ hpos
  unfold valueOf
  rw [mul_div_assoc', mul_div_assoc', div_le_div_iff₀ hq' hb', div_lt_div_iff₀ hb' hq', mul_assoc,
    mul_assoc]
  exact ⟨by exact_mod_cast hlow, by exact_mod_cast hhigh⟩

theorem valueOf_mul (x p q : Nat) : valueOf (x * p, q) = x * valueOf (p, q) := by
  unfold valueOf
  push_cast
  ring

/-- A grid is fine enough if it has sixteen more digits than the value: one of the two neighbours of the
value lies in the basin. -/
theorem exists_onGrid (h : IsNormal m e) {p q : Nat} (hp : 0 < p) (hq : 0 < q)
    (hfine : valueOf (p, q) * 10 ^ 16 ≤ m * 2 ^ e) : ∃ x, (Basin.of m e).onGrid p q = some x := by
  obtain ⟨hb, hvalue⟩ := valueOf_basin m e
  obtain ⟨hbelow, habove⟩ := floor_bounds hb hp hq
  rw [hvalue] at hbelow habove
  have hpow : (0 : ℚ) < 2 ^ e := by positivity
  have hm : (m : ℚ) ≤ 2 ^ 53 - 1 := by
    have hle : m + 1 ≤ 2 ^ 53 := h.lt
    have hle' : (m : ℚ) + 1 ≤ 2 ^ 53 := by exact_mod_cast hle
    linarith
  -- everything in units of the last place
  obtain ⟨g, hg⟩ : ∃ g, g = valueOf (p, q) / 2 ^ e := ⟨_, rfl⟩
  have hgrid (x : Nat) : valueOf (x * p, q) / 2 ^ e = x * g := by
    rw [valueOf_mul, hg, mul_div_assoc]
  have hspacing : g * 10 ^ 16 ≤ m := by
    rw [hg, div_mul_eq_mul_div, div_le_iff₀ hpow]
    exact hfine
  have hdown : (Basin.of m e).floor p q * g ≤ m := by
    rw [hg, mul_div_assoc', div_le_iff₀ hpow]
    exact hbelow
  have hup : (m : ℚ) < ((Basin.of m e).floor p q + 1) * g := by
    rw [hg, mul_div_assoc', lt_div_iff₀ hpow]
    exact habove
  have hsmall : g < 1 := by
    have hbound := hspacing.trans hm
    norm_num at hbound
    linarith
  have hgap : g / 2 < Basin.gap m e / 4 := by
    unfold Basin.gap
    split_ifs with hpower
    · rw [hpower.1] at hspacing
      norm_num at hspacing ⊢
      linarith
    · norm_num
      linarith
  apply exists_onGrid_eq_some
  by_cases hnear : (m : ℚ) - (Basin.of m e).floor p q * g ≤ g / 2
  · left
    apply holds_of_lt h.pos hq
    · rw [hgrid]
      linarith
    · rw [hgrid]
      linarith
  · right
    apply holds_of_lt h.pos hq
    · rw [hgrid]
      push_cast
      linarith
    · rw [hgrid]
      push_cast
      linarith

/-! ## The place of the point -/

/-- One ratio is at most another one. -/
def ratioLe (r s : Nat × Nat) : Bool := r.1 * s.2 ≤ s.1 * r.2

theorem ratioLe_iff {r s : Nat × Nat} (hr : 0 < r.2) (hs : 0 < s.2) :
    ratioLe r s = true ↔ valueOf r ≤ valueOf s := by
  have hr' : (0 : ℚ) < r.2 := Nat.cast_pos.mpr hr
  have hs' : (0 : ℚ) < s.2 := Nat.cast_pos.mpr hs
  unfold ratioLe valueOf
  rw [decide_eq_true_iff, div_le_div_iff₀ hr' hs']
  exact_mod_cast Iff.rfl

/-- The first estimate for the place of the point is right up to two places for a binary order of
magnitude. -/
def fitsOrder (order : Int) : Bool :=
  ratioLe (powerOfTen (order * 30103 / 100000 - 1)) (Magnitude.ratio 1 order) &&
    ratioLe (Magnitude.ratio 1 (order + 1)) (powerOfTen (order * 30103 / 100000 + 2))

-- All binary orders of magnitude of doubles.
theorem fitsOrder_range : ((List.range 2098).all fun k => fitsOrder (k - 1074)) = true := by
  decide +kernel

theorem order_bounds (order : Int) (hlow : -1074 ≤ order) (hhigh : order < 1024) :
    (10 : ℚ) ^ (order * 30103 / 100000 - 1) ≤ 2 ^ order ∧
      (2 : ℚ) ^ (order + 1) ≤ 10 ^ (order * 30103 / 100000 + 2) := by
  have hfits : fitsOrder (((order + 1074).toNat : Int) - 1074) = true :=
    List.all_eq_true.mp fitsOrder_range _ (List.mem_range.mpr (by omega))
  rw [show ((order + 1074).toNat : Int) - 1074 = order by omega] at hfits
  obtain ⟨hpos₁, hvalue₁⟩ := valueOf_powerOfTen (order * 30103 / 100000 - 1)
  obtain ⟨hpos₂, hvalue₂⟩ := valueOf_powerOfTen (order * 30103 / 100000 + 2)
  obtain ⟨hpos₃, hvalue₃⟩ := valueOf_ratio 1 order
  obtain ⟨hpos₄, hvalue₄⟩ := valueOf_ratio 1 (order + 1)
  rw [Nat.cast_one, one_mul] at hvalue₃ hvalue₄
  rw [fitsOrder, Bool.and_eq_true, ratioLe_iff hpos₁ hpos₃, ratioLe_iff hpos₄ hpos₂, hvalue₁, hvalue₂,
    hvalue₃, hvalue₄] at hfits
  exact hfits

/-- The point stands behind the first place that the value does not reach. -/
theorem point_bounds (h : IsNormal m e) :
    (10 : ℚ) ^ ((Basin.of m e).point m e - 1) ≤ m * 2 ^ e ∧
      (m : ℚ) * 2 ^ e < 10 ^ ((Basin.of m e).point m e) := by
  have hpow : (0 : ℚ) < 2 ^ e := by positivity
  obtain ⟨order, horder⟩ : ∃ order : Int, order = (Nat.log2 m : Int) + e := ⟨_, rfl⟩
  have hlog : Nat.log2 m < 53 := (Nat.log2_lt h.pos.ne').mpr h.lt
  obtain ⟨hfloor, hceil⟩ := log2_bounds h.pos
  have hmin : (-1074 : Int) ≤ e := h.le_exponent
  have hmax : e ≤ (971 : Int) := h.exponent_le
  have hlow : (2 : ℚ) ^ order ≤ m * 2 ^ e := by
    rw [horder, zpow_add₀ two_ne_zero]
    exact mul_le_mul_of_nonneg_right hfloor hpow.le
  have hhigh : (m : ℚ) * 2 ^ e < 2 ^ (order + 1) := by
    rw [horder, show (m.log2 : Int) + e + 1 = (m.log2 : Int) + 1 + e by omega, zpow_add₀ two_ne_zero _ e]
    exact mul_lt_mul_of_pos_right hceil hpow
  -- the logarithm to base two gives the place of the point up to two more
  obtain ⟨hfrom, hupto⟩ := order_bounds order (by omega) (by omega)
  -- the definition compares whole numbers, across both denominators
  have hbelow (k : Int) : (Basin.of m e).value * (powerOfTen k).2 <
      (powerOfTen k).1 * (Basin.of m e).denominator ↔ (m : ℚ) * 2 ^ e < 10 ^ k := by
    obtain ⟨hb, hvalue⟩ := valueOf_basin m e
    obtain ⟨hpos, hten⟩ := valueOf_powerOfTen k
    have hb' : (0 : ℚ) < (Basin.of m e).denominator := Nat.cast_pos.mpr hb
    have hpos' : (0 : ℚ) < (powerOfTen k).2 := Nat.cast_pos.mpr hpos
    rw [← hvalue, ← hten, valueOf, valueOf, div_lt_div_iff₀ hb' hpos']
    exact_mod_cast Iff.rfl
  have hpoint : (Basin.of m e).point m e =
      if (m : ℚ) * 2 ^ e < 10 ^ (order * 30103 / 100000) then order * 30103 / 100000
      else if (m : ℚ) * 2 ^ e < 10 ^ (order * 30103 / 100000 + 1) then order * 30103 / 100000 + 1
      else order * 30103 / 100000 + 2 := by
    simp only [← hbelow]
    rw [horder]
    unfold Basin.point
    simp only [decide_eq_true_iff]
  rw [hpoint]
  split_ifs with hfirst hsecond
  · exact ⟨hfrom.trans hlow, hfirst⟩
  · rw [add_sub_cancel_right]
    exact ⟨not_lt.mp hfirst, hsecond⟩
  · rw [show order * 30103 / 100000 + 2 - 1 = order * 30103 / 100000 + 1 by omega]
    exact ⟨not_lt.mp hsecond, hhigh.trans_le hupto⟩

/-! ## The search -/

theorem powerOfTen_pos (k : Int) : 0 < (powerOfTen k).1 := by
  unfold powerOfTen
  split
  · exact Nat.pow_pos (by decide)
  · exact Nat.one_pos

/-- A decimal is near to a double. -/
structure Shortest.IsNear (s : Shortest) (m : Nat) (e : Int) : Prop where
  pos : 0 < s.digits
  near : Decimal.IsNear m e (s.digits * 10 ^ (s.point - digitCount s.digits))

theorem digitCount_eq {n c : Nat} (hc : 0 < c) (hlow : 10 ^ (c - 1) ≤ n) (hhigh : n < 10 ^ c) :
    digitCount n = c := by
  have hpos : 0 < digitCount n := Nat.length_toDigits_pos
  have hle : digitCount n ≤ c := (Nat.length_toDigits_le_iff (by decide) hc).mpr hhigh
  have hlt := hlow.trans_lt (lt_ten_pow_digitCount n)
  rw [Nat.pow_lt_pow_iff_right (by decide)] at hlt
  omega

-- Below the value, a grid of so many digits has numbers of so many digits.
theorem floor_digits {point : Int} {count : Nat} (hcount : 0 < count)
    (hlow : (10 : ℚ) ^ (point - 1) ≤ m * 2 ^ e) (hhigh : (m : ℚ) * 2 ^ e < 10 ^ point) :
    let x := (Basin.of m e).floor (powerOfTen (point - count)).1 (powerOfTen (point - count)).2
    10 ^ (count - 1) ≤ x ∧ x < 10 ^ count := by
  intro x
  obtain ⟨hq, hvalue⟩ := valueOf_powerOfTen (point - count)
  obtain ⟨hb, hbasin⟩ := valueOf_basin m e
  obtain ⟨hdown, hup⟩ := floor_bounds hb (powerOfTen_pos (point - count)) hq
  rw [hbasin, hvalue] at hdown hup
  have hgrid : (0 : ℚ) < 10 ^ (point - count) := by positivity
  have hscale (k : Nat) : (10 : ℚ) ^ (point - count + k) = 10 ^ k * 10 ^ (point - count) := by
    rw [zpow_add₀ (by norm_num), zpow_natCast, mul_comm]
  constructor
  · have hpower : (10 : ℚ) ^ (point - 1) = 10 ^ (count - 1) * 10 ^ (point - count) := by
      rw [← hscale, show point - (count : Int) + (count - 1 : Nat) = point - 1 by omega]
    rw [hpower] at hlow
    have hlt := lt_of_mul_lt_mul_right (hlow.trans_lt hup) hgrid.le
    exact Nat.lt_succ_iff.mp (by exact_mod_cast hlt)
  · have hpower : (10 : ℚ) ^ point = 10 ^ count * 10 ^ (point - count) := by
      rw [← hscale, sub_add_cancel]
    rw [hpower] at hhigh
    have hlt := lt_of_mul_lt_mul_right (hdown.trans_lt hhigh) hgrid.le
    exact_mod_cast hlt

-- A neighbour of the value on a grid has as many digits as the grid, or is the next power of ten.
theorem isNear_of_onGrid (h : IsNormal m e) {point : Int} {count : Nat} (hcount : 0 < count)
    (hlow : (10 : ℚ) ^ (point - 1) ≤ m * 2 ^ e) (hhigh : (m : ℚ) * 2 ^ e < 10 ^ point) {x : Nat}
    (hx : (Basin.of m e).onGrid (powerOfTen (point - count)).1 (powerOfTen (point - count)).2 = some x) :
    Shortest.IsNear (if x = Nat.pow 10 count then ⟨1, point + 1⟩ else ⟨x, point⟩) m e := by
  obtain ⟨hneighbour, hholds⟩ := onGrid_eq_some hx
  obtain ⟨hmany, hfew⟩ := floor_digits hcount hlow hhigh
  obtain ⟨hq, hvalue⟩ := valueOf_powerOfTen (point - count)
  have hnear := isNear_of_holds h.pos hq hholds
  rw [valueOf_mul, hvalue] at hnear
  have hone : 1 ≤ 10 ^ (count - 1) := Nat.one_le_pow _ _ (by decide)
  split
  · rename_i hpower
    -- the neighbour above may be the next power of ten, of which one digit is left
    have hdigits : digitCount 1 = 1 := by decide
    refine ⟨Nat.one_pos, ?_⟩
    show Decimal.IsNear m e ((1 : Nat) * 10 ^ (point + 1 - digitCount 1))
    rw [hdigits, Nat.cast_one, one_mul, Nat.cast_one, add_sub_cancel_right]
    have hscale : (10 : ℚ) ^ count * 10 ^ (point - count) = 10 ^ point := by
      rw [← zpow_natCast, ← zpow_add₀ (by norm_num), add_sub_cancel]
    rw [hpower, Nat.pow_eq, Nat.cast_pow, Nat.cast_ofNat, hscale] at hnear
    exact hnear
  · rename_i hpower
    have hne : x ≠ 10 ^ count := hpower
    have hxlow : 10 ^ (count - 1) ≤ x := by
      rcases hneighbour with rfl | rfl
      · exact hmany
      · exact hmany.trans (Nat.le_succ _)
    have hxhigh : x ≤ 10 ^ count := by
      rcases hneighbour with rfl | rfl
      · exact hfew.le
      · exact hfew
    have hcountx : digitCount x = count := digitCount_eq hcount hxlow (lt_of_le_of_ne hxhigh hne)
    refine ⟨hone.trans hxlow, ?_⟩
    show Decimal.IsNear m e (x * 10 ^ (point - digitCount x))
    rw [hcountx]
    exact hnear

-- A grid of seventeen digits has a point in the basin, so the search ends there at the latest.
theorem isNear_search (h : IsNormal m e) {point : Int} (hlow : (10 : ℚ) ^ (point - 1) ≤ m * 2 ^ e)
    (hhigh : (m : ℚ) * 2 ^ e < 10 ^ point) (tries count : Nat) (hcount : 0 < count)
    (hsum : count + tries = 17) : ((Basin.of m e).search point (tries + 1) count).IsNear m e := by
  induction tries generalizing count with
  | zero =>
    obtain rfl : count = 17 := hsum
    obtain ⟨hq, hvalue⟩ := valueOf_powerOfTen (point - (17 : Nat))
    have hfine : valueOf (powerOfTen (point - (17 : Nat))) * 10 ^ 16 ≤ m * 2 ^ e := by
      rw [hvalue, ← zpow_natCast, ← zpow_add₀ (by norm_num)]
      exact (le_of_eq (congrArg _ (by norm_num; ring))).trans hlow
    obtain ⟨x, hx⟩ := exists_onGrid h (powerOfTen_pos _) hq hfine
    have hnear := isNear_of_onGrid h hcount hlow hhigh hx
    rw [Basin.search]
    dsimp only
    rw [hx]
    exact hnear
  | succ tries ih =>
    rw [Basin.search]
    dsimp only
    cases hx : (Basin.of m e).onGrid (powerOfTen (point - count)).1 (powerOfTen (point - count)).2 with
    | some x => exact isNear_of_onGrid h hcount hlow hhigh hx
    | none => exact ih (count + 1) count.succ_pos (by omega)

/-- The shortest decimal of a double is near to it. -/
theorem isNear_of (h : IsNormal m e) : (Shortest.of m e).IsNear m e := by
  obtain ⟨hlow, hhigh⟩ := point_bounds h
  exact isNear_search h hlow hhigh 16 1 Nat.one_pos rfl

end TemplateCompiler.Decimal
