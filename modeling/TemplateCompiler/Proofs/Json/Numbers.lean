import TemplateCompiler.Json.Reader
import TemplateCompiler.Proofs.Decimal.Shortest
import TemplateCompiler.Proofs.Text.Runs

/-!
# Numbers read back

A number is read back part by part (`readNumber_chars`). The digits of an integer within its range are read
as the integer (`exists_spelling_integer`), and the shortest decimal of a double, however it is spelled, as the
double that it rounds to (`exists_spelling_real`).
-/

namespace TemplateCompiler

open Decimal (Binary64 Magnitude Shortest IsNormal digitCount positional mantissa zeros signed exponentText)
open Text

/-! ## Digits -/

namespace Text

theorem isAsciiDigit_of_mem_toDigits {n : Nat} {c : Char} (h : c ∈ Nat.toDigits 10 n) :
    isAsciiDigit c = true := by
  have hdigit : c.isDigit = true := Nat.isDigit_of_mem_toDigits (by decide) (by decide) h
  unfold Char.isDigit at hdigit
  unfold isAsciiDigit
  exact hdigit

theorem digitValue?_digitChar : ∀ d < 10, digitValue? (Nat.digitChar d) = some d := by decide

theorem digitChar_eq_zero : ∀ d < 10, Nat.digitChar d = '0' → d = 0 := by decide

theorem ofDigits_append (base : Nat) (cs ds : List Char) :
    ofDigits base (cs ++ ds) = ofDigits base cs * base ^ ds.length + ofDigits base ds := by
  induction ds using List.reverseRecOn with
  | nil => simp [ofDigits_nil]
  | append_singleton ds d ih =>
    rw [← List.append_assoc, ofDigits_append_singleton, ofDigits_append_singleton, ih,
      List.length_append, List.length_singleton, pow_succ]
    ring

theorem ofDigits_zeros (k : Nat) : ofDigits 10 (zeros k) = 0 := by
  induction k with
  | zero => rfl
  | succ k ih =>
    have hsnoc : zeros (k + 1) = zeros k ++ ['0'] := List.replicate_succ'
    rw [hsnoc, ofDigits_append_singleton, ih]
    rfl

theorem ofDigits_toDigits (n : Nat) : ofDigits 10 (Nat.toDigits 10 n) = n := by
  induction n using Nat.strongRecOn with
  | ind n ih =>
    by_cases hn : n < 10
    · rw [Nat.toDigits_of_lt_base hn]
      show 10 * 0 + (digitValue? (Nat.digitChar n)).getD 0 = n
      rw [digitValue?_digitChar n hn]
      simp
    · rw [Nat.toDigits_of_base_le (by decide) (not_lt.mp hn), ofDigits_append_singleton,
        ih (n / 10) (by omega), digitValue?_digitChar (n % 10) (Nat.mod_lt _ (by decide))]
      show 10 * (n / 10) + n % 10 = n
      omega

-- Only zero is written with a zero in front.
theorem eq_zero_of_head?_toDigits {n : Nat} (h : (Nat.toDigits 10 n).head? = some '0') : n = 0 := by
  induction n using Nat.strongRecOn with
  | ind n ih =>
    by_cases hn : n < 10
    · rw [Nat.toDigits_of_lt_base hn] at h
      exact digitChar_eq_zero n hn (Option.some.inj h)
    · rw [Nat.toDigits_of_base_le (by decide) (not_lt.mp hn),
        List.head?_append_of_ne_nil _ Nat.toDigits_ne_nil] at h
      have hzero := ih (n / 10) (by omega) h
      omega

/-- Digits, at least one. -/
structure AreDigits (cs : List Char) : Prop where
  ne_nil : cs ≠ []
  digits : ∀ c ∈ cs, isAsciiDigit c = true

theorem areDigits_toDigits (n : Nat) : AreDigits (Nat.toDigits 10 n) :=
  ⟨Nat.toDigits_ne_nil, fun _ => isAsciiDigit_of_mem_toDigits⟩

theorem AreDigits.append {cs ds : List Char} (hcs : ∀ c ∈ cs, isAsciiDigit c = true)
    (hds : AreDigits ds) : AreDigits (cs ++ ds) := by
  refine ⟨List.append_ne_nil_of_right_ne_nil _ hds.ne_nil, fun c hc => ?_⟩
  rcases List.mem_append.mp hc with hc | hc
  · exact hcs c hc
  · exact hds.digits c hc

theorem isAsciiDigit_of_mem_zeros {k : Nat} {c : Char} (h : c ∈ zeros k) : isAsciiDigit c = true := by
  rw [List.eq_of_mem_replicate h]
  rfl

end Text

namespace Json

/-! ## Spellings -/

/-- The parts of a number as it is written. -/
structure Spelling where
  negative : Bool
  whole : List Char
  fraction : Option (List Char)
  exponent : Option Int

namespace Spelling

/-- The digits behind the point. -/
def fractionDigits (s : Spelling) : List Char := s.fraction.getD []

/-- The text of a number. -/
def chars (s : Spelling) : List Char :=
  signed s.negative (s.whole ++ ((s.fraction.map ('.' :: ·)).getD [] ++
    (s.exponent.map fun e => 'e' :: exponentText e).getD []))

/-- The number that is meant, with all digits in front of the point. -/
def value (s : Spelling) : Option Json := numberOf s.negative s.whole s.fraction s.exponent

/-- The parts are made of digits, without a leading zero. -/
structure IsStrict (s : Spelling) : Prop where
  whole : AreDigits s.whole
  zero : s.whole.head? = some '0' → s.whole = ['0']
  fraction : ∀ ds ∈ s.fraction, AreDigits ds

end Spelling

/-- A text does not go on with what could belong to a number or a name. -/
def EndsWord (rest : List Char) : Prop := ∀ c ∈ rest.head?, isPlainPart c = false ∧ c ≠ '.'

theorem endsWord_cons {c : Char} (h : isPlainPart c = false ∧ c ≠ '.') (cs : List Char) :
    EndsWord (c :: cs) := by
  rintro d ⟨⟩
  exact h

theorem isAsciiDigit_of_not_isPlainPart {c : Char} (h : isPlainPart c = false) : isAsciiDigit c = false := by
  unfold isPlainPart at h
  exact (Bool.or_eq_false_iff.mp h).2

theorem readWhole_append {ds rest : List Char} (hds : AreDigits ds)
    (hzero : ds.head? = some '0' → ds = ['0']) (hrest : ∀ c ∈ rest.head?, isAsciiDigit c = false) :
    readWhole (ds ++ rest) = some (ds, rest) := by
  obtain ⟨htake, hdrop⟩ := takeWhile_run hds.digits hrest
  by_cases hhead : ds.head? = some '0'
  · rw [hzero hhead]
    cases rest with
    | nil => rfl
    | cons c cs =>
      show (if isAsciiDigit c then none else some (['0'], c :: cs)) = _
      rw [hrest c rfl]
      rfl
  · unfold readWhole
    split
    · rename_i more heq
      cases ds with
      | nil => exact absurd rfl hds.ne_nil
      | cons d ds =>
        cases heq
        exact absurd rfl hhead
    · rw [htake, hdrop, if_neg (by simpa using hds.ne_nil)]

theorem readFraction_append {fraction : Option (List Char)} (hfraction : ∀ ds ∈ fraction, AreDigits ds)
    {rest : List Char} (hrest : ∀ c ∈ rest.head?, isAsciiDigit c = false ∧ c ≠ '.') :
    readFraction ((fraction.map ('.' :: ·)).getD [] ++ rest) = some (fraction, rest) := by
  cases fraction with
  | some ds =>
    have hds := hfraction ds rfl
    obtain ⟨htake, hdrop⟩ := takeWhile_run hds.digits fun c hc => (hrest c hc).1
    show (if ((ds ++ rest).takeWhile isAsciiDigit).isEmpty then none
      else some (some ((ds ++ rest).takeWhile isAsciiDigit), (ds ++ rest).dropWhile isAsciiDigit)) = _
    rw [htake, hdrop, if_neg (by simpa using hds.ne_nil)]
  | none =>
    show readFraction rest = _
    unfold readFraction
    split
    · exact absurd rfl (hrest _ rfl).2
    · rfl

-- Digits start with neither sign.
theorem head?_digits_append_ne {ds : List Char} (hds : AreDigits ds) {c : Char} (hc : isAsciiDigit c = false)
    (rest : List Char) : (ds ++ rest).head? ≠ some c := by
  cases ds with
  | nil => exact absurd rfl hds.ne_nil
  | cons d ds =>
    rintro ⟨⟩
    rw [hds.digits c List.mem_cons_self] at hc
    cases hc

theorem readExponent_append {exponent : Option Int} {rest : List Char} (hrest : EndsWord rest) :
    readExponent ((exponent.map fun e => 'e' :: exponentText e).getD [] ++ rest) =
      some (exponent, rest) := by
  cases exponent with
  | some e =>
    have hdigits := areDigits_toDigits e.natAbs
    obtain ⟨htake, hdrop⟩ := takeWhile_run hdigits.digits fun c hc =>
      isAsciiDigit_of_not_isPlainPart (hrest c hc).1
    have hne : (Nat.toDigits 10 e.natAbs).isEmpty = false := List.isEmpty_eq_false_iff.mpr hdigits.ne_nil
    by_cases he : e < 0
    · have htext : exponentText e = '-' :: Nat.toDigits 10 e.natAbs := if_pos he
      show readExponent ('e' :: (exponentText e ++ rest)) = _
      rw [htext]
      unfold readExponent
      simp only [List.cons_append, List.head?_cons, List.drop_one, List.tail_cons, beq_self_eq_true,
        Bool.true_or, if_true, htake, hdrop, hne, ofDigits_toDigits]
      rw [if_neg Bool.false_ne_true, show -(e.natAbs : Int) = e by omega]
    · have htext : exponentText e = Nat.toDigits 10 e.natAbs := if_neg he
      -- a positive exponent is written without a sign
      have hminus : ((Nat.toDigits 10 e.natAbs ++ rest).head? == some '-') = false :=
        beq_eq_false_iff_ne.mpr (head?_digits_append_ne hdigits (by decide) rest)
      have hplus : ((Nat.toDigits 10 e.natAbs ++ rest).head? == some '+') = false :=
        beq_eq_false_iff_ne.mpr (head?_digits_append_ne hdigits (by decide) rest)
      show readExponent ('e' :: (exponentText e ++ rest)) = _
      rw [htext]
      unfold readExponent
      simp only [hminus, hplus, beq_self_eq_true, Bool.true_or, Bool.or_false, if_true,
        Bool.false_eq_true, if_false, htake, hdrop, hne, ofDigits_toDigits]
      rw [show (e.natAbs : Int) = e by omega]
  | none =>
    show readExponent rest = _
    cases rest with
    | nil => rfl
    | cons c cs =>
      -- what stands behind a number does not start with a letter
      have hletter : (c == 'e' || c == 'E') = false := by
        rw [Bool.eq_false_iff]
        intro hletter
        obtain ⟨hplain, -⟩ := hrest c rfl
        rcases Bool.or_eq_true_iff.mp hletter with he | he
        · rw [beq_iff_eq.mp he] at hplain
          cases hplain
        · rw [beq_iff_eq.mp he] at hplain
          cases hplain
      unfold readExponent
      dsimp only
      rw [hletter, if_neg Bool.false_ne_true]

theorem readNumber_of_parts {cs ds rest more tail : List Char} {fraction : Option (List Char)}
    {exponent : Option Int} (negative : Bool) (hsign : cs.head? ≠ some '-')
    (hwhole : readWhole cs = some (ds, rest)) (hfraction : readFraction rest = some (fraction, more))
    (hexponent : readExponent more = some (exponent, tail)) :
    readNumber (signed negative cs) = (numberOf negative ds fraction exponent).map fun j => (j, tail) := by
  have hnegative : ((signed negative cs).head? == some '-') = negative := by
    cases negative with
    | true => rfl
    | false => exact beq_eq_false_iff_ne.mpr hsign
  have hdrop : (if negative then (signed negative cs).drop 1 else signed negative cs) = cs := by
    cases negative <;> rfl
  unfold readNumber
  dsimp only
  rw [hnegative, hdrop, hwhole]
  dsimp only [Option.bind_eq_bind, Option.bind_some]
  rw [hfraction]
  dsimp only [Option.bind_some]
  rw [hexponent, Option.bind_some]
  cases numberOf negative ds fraction exponent <;> rfl

/-- A number is read back part by part. -/
theorem readNumber_chars {s : Spelling} (hs : s.IsStrict) {rest : List Char} (hrest : EndsWord rest) :
    readNumber (s.chars ++ rest) = s.value.map fun j => (j, rest) := by
  have hexponent : ∀ c ∈ ((s.exponent.map fun e => 'e' :: exponentText e).getD [] ++ rest).head?,
      isAsciiDigit c = false ∧ c ≠ '.' := by
    cases s.exponent with
    | some e =>
      intro c hc
      cases hc
      decide
    | none => exact fun c hc => ⟨isAsciiDigit_of_not_isPlainPart (hrest c hc).1, (hrest c hc).2⟩
  have hfraction : ∀ c ∈ ((s.fraction.map ('.' :: ·)).getD [] ++
      ((s.exponent.map fun e => 'e' :: exponentText e).getD [] ++ rest)).head?,
      isAsciiDigit c = false := by
    cases s.fraction with
    | some ds =>
      intro c hc
      cases hc
      decide
    | none => exact fun c hc => (hexponent c hc).1
  have hchars : s.chars ++ rest = signed s.negative (s.whole ++ ((s.fraction.map ('.' :: ·)).getD [] ++
      ((s.exponent.map fun e => 'e' :: exponentText e).getD [] ++ rest))) := by
    unfold Spelling.chars signed
    cases s.negative <;> simp
  rw [hchars]
  exact readNumber_of_parts s.negative (head?_digits_append_ne hs.whole (by decide) _)
    (readWhole_append hs.whole hs.zero hfraction) (readFraction_append hs.fraction hexponent)
    (readExponent_append hrest)

/-! ## Integers -/

/-- The integers that are read as such: with a sign within 64 bits, and up to 64 bits without one. -/
def IsInteger (n : Int) : Prop := -(2 ^ 63) ≤ n ∧ n < 2 ^ 64

theorem exists_spelling_integer (n : Int) (hn : IsInteger n) :
    ∃ s : Spelling, s.IsStrict ∧ (toString n).toList = s.chars ∧ s.value = some (.integer n) := by
  refine ⟨⟨decide (n < 0), Nat.toDigits 10 n.natAbs, none, none⟩,
    ⟨areDigits_toDigits _, fun hzero => ?_, fun ds hds => by cases hds⟩, ?_, ?_⟩
  · rw [eq_zero_of_head?_toDigits hzero]
    rfl
  · cases n with
    | ofNat k =>
      show (Nat.repr k).toList = _
      simp [Spelling.chars, signed, Nat.repr]
    | negSucc k =>
      show ("-" ++ Nat.repr (k + 1)).toList = _
      simp [Spelling.chars, signed, Nat.repr]
  · obtain ⟨hlow, hhigh⟩ := hn
    show numberOf (decide (n < 0)) (Nat.toDigits 10 n.natAbs) none none = _
    unfold numberOf
    rw [ofDigits_toDigits]
    by_cases hneg : n < 0
    · have hfits : (decide (n.natAbs ≤ Nat.pow 2 63) && n.natAbs != 0) = true := by
        have hle : n.natAbs ≤ 9223372036854775808 := by omega
        have hne : n.natAbs ≠ 0 := by omega
        simpa [hne] using hle
      simp only [decide_eq_true hneg, Option.isNone_none, Bool.and_self, if_true, hfits]
      rw [show -(n.natAbs : Int) = n by omega]
    · have hfits : decide (n.natAbs < Nat.pow 2 64) = true := by
        have hlt : n.natAbs < 18446744073709551616 := by omega
        exact decide_eq_true hlt
      simp only [decide_eq_false hneg, Option.isNone_none, Bool.and_self, Bool.false_eq_true, if_false,
        if_true, hfits]
      rw [show (n.natAbs : Int) = n by omega]

/-! ## Doubles -/

/-- A spelling of a decimal, apart from the sign. The digits with the exponent make up the decimal, and a
point or an exponent tells it from an integer. -/
structure Spelling.Spells (s : Spelling) (d : Shortest) (text : List Char) : Prop where
  strict : s.IsStrict
  chars : s.chars = signed s.negative text
  means : (ofDigits 10 (s.whole ++ s.fractionDigits) : ℚ) *
      10 ^ (s.exponent.getD 0 - s.fractionDigits.length) =
    d.digits * 10 ^ (d.point - digitCount d.digits)
  parts : (s.fraction.isSome || s.exponent.isSome) = true

/-- A spelling of a decimal is read as the double that the decimal is near to. -/
theorem Spelling.Spells.value {s : Spelling} {d : Shortest} {text : List Char} (h : s.Spells d text)
    {m : Nat} {e : Int} (hm : IsNormal m e) (hnear : d.IsNear m e) :
    s.value = some (.real ⟨s.negative, .finite m e⟩) := by
  have hdecimal : Magnitude.ofDecimal (ofDigits 10 (s.whole ++ s.fractionDigits))
      (s.exponent.getD 0 - s.fractionDigits.length) = .finite m e := by
    apply Decimal.ofDecimal_eq_of_near hm
    rw [h.means]
    exact hnear.near
  have hnone : (s.fraction.isNone && s.exponent.isNone) = false := by
    rw [← Bool.not_eq_true', Bool.not_and, Option.not_isNone, Option.not_isNone]
    exact h.parts
  unfold Spelling.value numberOf
  dsimp only
  rw [hnone, Bool.false_and, if_neg Bool.false_ne_true]
  unfold fractionDigits at hdecimal
  rw [hdecimal]

section

variable {d : Shortest}

theorem length_text (d : Shortest) : d.text.length = digitCount d.digits := rfl

theorem areDigits_text (d : Shortest) : AreDigits d.text := areDigits_toDigits d.digits

theorem ofDigits_text (d : Shortest) : ofDigits 10 d.text = d.digits := ofDigits_toDigits d.digits

-- A number below one.
theorem spells_below_one (negative : Bool) (hpoint : d.point ≤ 0) :
    Spelling.Spells ⟨negative, ['0'], some (zeros (-d.point).toNat ++ d.text), none⟩ d
      (positional d.text d.point) := by
  have hzeros : ∀ c ∈ zeros (-d.point).toNat, isAsciiDigit c = true := fun c => isAsciiDigit_of_mem_zeros
  refine ⟨⟨⟨List.cons_ne_nil _ _, List.forall_mem_singleton.mpr rfl⟩, fun _ => rfl, ?_⟩, ?_, ?_, rfl⟩
  · rintro ds ⟨⟩
    exact (areDigits_text d).append hzeros
  · rw [positional, if_pos hpoint]
    exact congrArg (signed negative) (by simp)
  · have hvalue : ofDigits 10 (['0'] ++ (zeros (-d.point).toNat ++ d.text)) = d.digits := by
      rw [ofDigits_append, ofDigits_append, ofDigits_zeros, ofDigits_text]
      simp [ofDigits, digitValue?]
    have hlength : ((zeros (-d.point).toNat ++ d.text).length : Int) = digitCount d.digits - d.point := by
      rw [List.length_append, length_text, zeros, List.length_replicate]
      omega
    show (ofDigits 10 (['0'] ++ (zeros (-d.point).toNat ++ d.text)) : ℚ) *
      10 ^ (0 - ((zeros (-d.point).toNat ++ d.text).length : Int)) = _
    rw [hvalue, hlength, zero_sub, neg_sub]

-- A number with its point inside of the digits.
theorem spells_inside (negative : Bool) (hd : 0 < d.digits) (hpoint : 0 < d.point)
    (hlength : d.point.toNat < d.text.length) :
    Spelling.Spells ⟨negative, d.text.take d.point.toNat, some (d.text.drop d.point.toNat), none⟩ d
      (positional d.text d.point) := by
  have hmem : ∀ c ∈ d.text, isAsciiDigit c = true := (areDigits_text d).digits
  refine ⟨⟨⟨?_, fun c hc => hmem c (List.mem_of_mem_take hc)⟩, fun hzero => ?_, ?_⟩, ?_, ?_, rfl⟩
  · apply List.ne_nil_of_length_pos
    rw [List.length_take]
    omega
  · rw [List.head?_take, if_neg (by omega)] at hzero
    exact absurd (eq_zero_of_head?_toDigits hzero) hd.ne'
  · rintro ds ⟨⟩
    refine ⟨?_, fun c hc => hmem c (List.mem_of_mem_drop hc)⟩
    apply List.ne_nil_of_length_pos
    rw [List.length_drop]
    omega
  · rw [positional, if_neg (by omega), if_neg (by omega)]
    exact congrArg (signed negative) (by simp)
  · have hdrop : ((d.text.drop d.point.toNat).length : Int) = digitCount d.digits - d.point := by
      rw [List.length_drop, length_text]
      rw [length_text] at hlength
      omega
    show (ofDigits 10 (d.text.take d.point.toNat ++ d.text.drop d.point.toNat) : ℚ) *
      10 ^ (0 - ((d.text.drop d.point.toNat).length : Int)) = _
    rw [List.take_append_drop, ofDigits_text, hdrop, zero_sub, neg_sub]

-- A whole number.
theorem spells_whole (negative : Bool) (hd : 0 < d.digits) (hpoint : 0 < d.point)
    (hlength : d.text.length ≤ d.point.toNat) :
    Spelling.Spells ⟨negative, d.text ++ zeros (d.point.toNat - d.text.length), some ['0'], none⟩ d
      (positional d.text d.point ++ ['.', '0']) := by
  refine ⟨⟨⟨?_, fun c hc => ?_⟩, fun hzero => ?_, ?_⟩, ?_, ?_, rfl⟩
  · exact List.append_ne_nil_of_left_ne_nil (areDigits_text d).ne_nil _
  · rcases List.mem_append.mp hc with hc | hc
    · exact (areDigits_text d).digits c hc
    · exact isAsciiDigit_of_mem_zeros hc
  · rw [List.head?_append_of_ne_nil _ (areDigits_text d).ne_nil] at hzero
    exact absurd (eq_zero_of_head?_toDigits hzero) hd.ne'
  · rintro ds ⟨⟩
    exact ⟨List.cons_ne_nil _ _, List.forall_mem_singleton.mpr rfl⟩
  · rw [positional, if_neg (by omega), if_pos hlength]
    exact congrArg (signed negative) (by simp)
  · obtain ⟨j, hj⟩ : ∃ j, d.point.toNat - d.text.length = j := ⟨_, rfl⟩
    have hvalue : ofDigits 10 (d.text ++ zeros j ++ ['0']) = d.digits * 10 ^ (j + 1) := by
      rw [ofDigits_append, ofDigits_append, ofDigits_zeros, ofDigits_text, zeros, List.length_replicate,
        pow_succ]
      simp [ofDigits, digitValue?]
      ring
    have hexponent : d.point - (digitCount d.digits : Int) = ((j + 1 : Nat) : Int) + -1 := by
      rw [← length_text]
      omega
    rw [hj]
    show (ofDigits 10 (d.text ++ zeros j ++ ['0']) : ℚ) * 10 ^ (0 - ((['0'].length : Nat) : Int)) = _
    rw [hvalue, hexponent, zpow_add₀ (by norm_num), zpow_natCast]
    push_cast
    simp
    ring

-- A number with an exponent.
theorem exists_spells_exponent (negative : Bool) :
    ∃ s : Spelling, s.negative = negative ∧
      s.Spells d (mantissa d.text ++ 'e' :: exponentText (d.point - 1)) := by
  have hdigits := areDigits_text d
  have hlength := length_text d
  have hvalue := ofDigits_text d
  obtain ⟨text, htext⟩ : ∃ text, d.text = text := ⟨_, rfl⟩
  rw [htext] at hdigits hlength hvalue ⊢
  cases text with
  | nil => exact absurd rfl hdigits.ne_nil
  | cons c rest =>
    have hone : AreDigits [c] :=
      ⟨List.cons_ne_nil _ _, List.forall_mem_singleton.mpr (hdigits.digits c List.mem_cons_self)⟩
    have hzero : [c].head? = some '0' → [c] = ['0'] := by
      rintro ⟨⟩
      rfl
    have hpower : (d.point - 1 : Int) - rest.length = d.point - digitCount d.digits := by
      rw [← hlength, List.length_cons]
      omega
    cases rest with
    | nil =>
      refine ⟨⟨negative, [c], none, some (d.point - 1)⟩, rfl, ⟨hone, hzero, fun ds hds => by cases hds⟩,
        rfl, ?_, rfl⟩
      show (ofDigits 10 [c] : ℚ) * 10 ^ (d.point - 1 - (([] : List Char).length : Int)) = _
      rw [hvalue, hpower]
    | cons b rest =>
      refine ⟨⟨negative, [c], some (b :: rest), some (d.point - 1)⟩, rfl, ⟨hone, hzero, ?_⟩, rfl, ?_, rfl⟩
      · rintro ds ⟨⟩
        exact ⟨List.cons_ne_nil _ _, fun a ha => hdigits.digits a (List.mem_cons_of_mem c ha)⟩
      · show (ofDigits 10 (c :: b :: rest) : ℚ) * 10 ^ (d.point - 1 - ((b :: rest).length : Int)) = _
        rw [hvalue, hpower]

/-- The shortest decimal of a double is spelled in one of four ways, by where its point is. -/
theorem exists_spells_json {m : Nat} {e : Int} (hm : 0 < m) (hd : 0 < (Shortest.of m e).digits)
    (negative : Bool) :
    ∃ s : Spelling, s.negative = negative ∧
      s.Spells (Shortest.of m e) (Magnitude.finite m e).json := by
  obtain ⟨d, hshortest⟩ : ∃ d, Shortest.of m e = d := ⟨_, rfl⟩
  have hjson : (Magnitude.finite m e).json =
      if -5 < d.point && d.point ≤ 0 then positional d.text d.point
      else if 0 < d.point && d.point ≤ 16 then
        if (positional d.text d.point).contains '.' then positional d.text d.point
        else positional d.text d.point ++ ['.', '0']
      else mantissa d.text ++ 'e' :: exponentText (d.point - 1) := by
    obtain ⟨k, rfl⟩ := Nat.exists_eq_succ_of_ne_zero hm.ne'
    rw [← hshortest]
    rfl
  rw [hshortest] at hd ⊢
  rw [hjson]
  have hdigit (c : Char) (hc : isAsciiDigit c = true) : c ≠ '.' := by
    rintro rfl
    exact absurd hc (by decide)
  split_ifs with hsmall hmiddle hdot
  · simp only [Bool.and_eq_true, decide_eq_true_eq] at hsmall
    exact ⟨_, rfl, spells_below_one negative hsmall.2⟩
  · simp only [Bool.and_eq_true, decide_eq_true_eq] at hmiddle
    by_cases hlength : d.point.toNat < d.text.length
    · exact ⟨_, rfl, spells_inside negative hd hmiddle.1 hlength⟩
    · -- without a point in it, this is no case
      rw [positional, if_neg (by omega), if_pos (not_lt.mp hlength)] at hdot
      have hmem := List.contains_iff_mem.mp hdot
      rcases List.mem_append.mp hmem with hmem | hmem
      · exact absurd rfl (hdigit _ ((areDigits_text d).digits _ hmem))
      · exact absurd rfl (hdigit _ (isAsciiDigit_of_mem_zeros hmem))
  · simp only [Bool.and_eq_true, decide_eq_true_eq] at hmiddle
    by_cases hlength : d.text.length ≤ d.point.toNat
    · exact ⟨_, rfl, spells_whole negative hd hmiddle.1 hlength⟩
    · rw [positional, if_neg (by omega), if_neg hlength] at hdot
      exact absurd (List.contains_iff_mem.mpr (List.mem_append_right _ List.mem_cons_self)) hdot
  · exact exists_spells_exponent negative

end

/-- The finite doubles in their one form. -/
def IsReal (x : Binary64) : Prop :=
  x.magnitude = .finite 0 Binary64.minExponent ∨ ∃ m e, IsNormal m e ∧ x.magnitude = .finite m e

theorem exists_spelling_real {x : Binary64} (hx : IsReal x) :
    ∃ s : Spelling, s.IsStrict ∧ x.json.toList = s.chars ∧ s.value = some (.real x) := by
  obtain ⟨negative, magnitude⟩ := x
  have hjson : (Binary64.mk negative magnitude).json.toList = signed negative magnitude.json :=
    String.toList_ofList
  rw [hjson]
  rcases hx with rfl | ⟨m, e, hm, rfl⟩
  · have hzero : AreDigits ['0'] := ⟨List.cons_ne_nil _ _, List.forall_mem_singleton.mpr rfl⟩
    refine ⟨⟨negative, ['0'], some ['0'], none⟩, ⟨hzero, fun _ => rfl, ?_⟩, rfl, ?_⟩
    · rintro ds ⟨⟩
      exact hzero
    · cases negative <;> rfl
  · have hnear := Decimal.isNear_of hm
    obtain ⟨s, rfl, hspells⟩ := exists_spells_json hm.pos hnear.pos negative
    exact ⟨s, hspells.strict, hspells.chars.symm, hspells.value hm hnear⟩

end Json

end TemplateCompiler
