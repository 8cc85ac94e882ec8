import TemplateCompiler.Proofs.Decimal.Integers
import TemplateCompiler.Proofs.Json.Numbers
import TemplateCompiler.Render.Lowering

/-!
# Integers that are folded

A number that is written as a constant becomes text when the template is compiled, in a placeholder as well as
in an attribute of an element. For integers of 64 bits the text is their numeral; beyond them it is the one of
the nearest such integer, for all that are less than `10 ^ 21` away from zero (`text_of_integer`).
-/

namespace TemplateCompiler

/-! ## Numbers as constants -/

namespace Script

open Decimal (Binary64)

/-- The expression is a number, maybe in parentheses or behind minus signs, and this is its value. -/
inductive Expr.IsNumeral : Expr → Binary64 → Prop where
  | number (x : Binary64) : IsNumeral (.number x) x
  | paren {e : Expr} {x : Binary64} : IsNumeral e x → IsNumeral (.paren e) x
  | minus {e : Expr} {x : Binary64} : IsNumeral e x → IsNumeral (.unary "-" e) x.neg

theorem Expr.literal?_eq_number_iff {e : Expr} {x : Binary64} :
    e.literal? = some (.number x) ↔ e.IsNumeral x := by
  constructor
  · intro h
    fun_induction Expr.literal? e generalizing x with
    | case2 y =>
      cases h
      exact .number y
    | case7 chunk =>
      obtain ⟨units, -, heq⟩ := Option.map_eq_some_iff.mp h
      cases heq
    | case8 inner ih => exact .paren (ih h)
    | case9 op operand hop ih =>
      obtain ⟨value, hvalue, hneg⟩ := Option.bind_eq_some_iff.mp h
      cases value with
      | number y =>
        cases hneg
        rw [beq_iff_eq.mp hop]
        exact .minus (ih hvalue)
      | string text | boolean b | null | undefined => cases hneg
    | _ => cases h
  · intro h
    induction h with
    | number x => rfl
    | paren _ ih => exact ih
    | minus _ ih =>
      rw [Expr.literal?, if_pos (beq_self_eq_true _), ih]
      rfl

/-- The text is a number, maybe in parentheses or behind minus signs, and this is its value. -/
def IsNumeral (code : String) (x : Binary64) : Prop := ∃ e, parseExpression code = some e ∧ e.IsNumeral x

/-- These are all constants that are numbers. -/
theorem literal?_eq_number_iff {code : String} {x : Binary64} :
    literal? code = some (.number x) ↔ IsNumeral code x := by
  show (parseExpression code).bind Expr.literal? = _ ↔ _
  rw [Option.bind_eq_some_iff]
  simp only [Expr.literal?_eq_number_iff]
  rfl

end Script

/-! ## Texts without markup -/

namespace Text

theorem flatMap_eq_self {f : Char → List Char} {cs : List Char} (h : ∀ c ∈ cs, f c = [c]) :
    cs.flatMap f = cs := by
  induction cs with
  | nil => rfl
  | cons c cs ih =>
    rw [List.flatMap_cons, h c List.mem_cons_self, ih fun d hd => h d (List.mem_cons_of_mem c hd)]
    rfl

/-- The integer that a numeral writes: digits, maybe behind a minus sign. -/
def integerOf (numeral : String) : ℤ :=
  if numeral.toList.head? = some '-' then -ofDigits 10 numeral.toList.tail else ofDigits 10 numeral.toList

/-- The numeral of an integer. -/
theorem toList_repr (n : ℤ) :
    n.repr.toList = if 0 ≤ n then Nat.toDigits 10 n.natAbs else '-' :: Nat.toDigits 10 n.natAbs := by
  have hdigits (k : Nat) : k.repr.toList = Nat.toDigits 10 k := by rw [Nat.repr, String.toList_ofList]
  rw [Int.repr_eq_if]
  split
  · have hnonneg : n.toNat = n.natAbs := by omega
    rw [hdigits, hnonneg]
  · have hneg : (-n).toNat = n.natAbs := by omega
    rw [String.toList_append, hdigits, hneg]
    rfl

theorem integerOf_repr (n : ℤ) : integerOf n.repr = n := by
  rw [integerOf, toList_repr]
  split
  · have hhead : (Nat.toDigits 10 n.natAbs).head? ≠ some '-' := fun h =>
      absurd (isAsciiDigit_of_mem_toDigits (List.mem_of_mem_head? h)) (by decide)
    rw [if_neg hhead, ofDigits_toDigits]
    omega
  · rw [List.head?_cons, if_pos rfl, List.tail_cons, ofDigits_toDigits]
    omega

theorem repr_inj {n m : ℤ} : n.repr = m.repr ↔ n = m := by
  refine ⟨fun h => ?_, congrArg Int.repr⟩
  rw [← integerOf_repr n, h, integerOf_repr]

theorem repr_ne_empty (n : ℤ) : n.repr ≠ "" := by
  rw [Ne, ← String.toList_eq_nil_iff, toList_repr]
  split
  · exact Nat.toDigits_ne_nil
  · exact List.cons_ne_nil _ _

theorem mem_toList_repr {n : ℤ} {c : Char} (h : c ∈ n.repr.toList) : c = '-' ∨ isAsciiDigit c = true := by
  rw [toList_repr] at h
  split at h
  · exact .inr (isAsciiDigit_of_mem_toDigits h)
  · exact (List.mem_cons.mp h).imp_right isAsciiDigit_of_mem_toDigits

-- Neither digits nor a minus sign are escaped.
theorem escape_repr (n : ℤ) : escapeText n.repr = n.repr ∧ escapeAttribute n.repr = n.repr := by
  have hplain (c : Char) (h : c ∈ n.repr.toList) : c ∉ ['&', '<', '>', '\x22'] := by
    have hc := mem_toList_repr h
    intro hmem
    simp only [List.mem_cons, List.not_mem_nil, or_false] at hmem
    rcases hmem with rfl | rfl | rfl | rfl <;> exact absurd hc (by decide)
  constructor
  · rw [← String.toList_inj, toList_escapeText]
    refine flatMap_eq_self fun c hc => ?_
    have hne := hplain c hc
    simp_all [escapeTextChar]
  · rw [← String.toList_inj, toList_escapeAttribute]
    refine flatMap_eq_self fun c hc => ?_
    have hne := hplain c hc
    simp_all [escapeAttributeChar]

end Text

namespace Render

open Script (IsNumeral Literal literal?)
open Decimal (Binary64 nearestInt64)

/-! ## Folding -/

/-- The attribute of an element with a value that is written as it is. -/
def plainAttribute (name value : String) : String := " " ++ name ++ "=\"" ++ value ++ "\""

theorem plainAttribute_ne_empty (name value : String) : plainAttribute name value ≠ "" := by
  rw [Ne, ← String.toList_eq_nil_iff, plainAttribute, String.toList_append]
  exact List.append_ne_nil_of_right_ne_nil _ (by decide)

/-- A number less than `10 ^ 21` away from zero that is an integer is folded to the numeral of the nearest
integer of 64 bits, in placeholders, in attributes and in constant elements, whether they escape or not. So the
text has the value of the number just if that is an integer of 64 bits, and the texts of different numbers are
different unless both are beyond the same end of that range. -/
theorem text_of_integer {code : String} {x : Binary64} {n : ℤ} (hcode : IsNumeral code x)
    (hx : x.IsInteger n) (hn : |n| < 10 ^ 21) :
    let text := (Literal.number x).text
    text = (nearestInt64 n).repr ∧ Text.integerOf text = nearestInt64 n ∧
    (Text.integerOf text = n ↔ -2 ^ 63 ≤ n ∧ n < 2 ^ 63) ∧
    (∀ env escape, lowerPlaceholder env code escape =
      pure (if env.isHtml then [.write text] else [.code (.addText text)])) ∧
    (∀ env location name, lowerAttribute env location ⟨name, code⟩ =
      pure [.write (plainAttribute name text)]) ∧
    (∀ preserveComments escape, (Leaf.placeholder code escape).markup preserveComments = text) ∧
    (∀ name, (Attribute.mk name code).markup = plainAttribute name text) ∧
    ∀ other y m, IsNumeral other y → y.IsInteger m → |m| < 10 ^ 21 →
      ((Literal.number y).text = text ↔
        m = n ∨ (2 ^ 63 - 1 ≤ m ∧ 2 ^ 63 - 1 ≤ n) ∨ (m ≤ -2 ^ 63 ∧ n ≤ -2 ^ 63)) := by
  intro text
  have htext : text = (nearestInt64 n).repr := hx.markup hn
  have hliteral : literal? code = some (.number x) := Script.literal?_eq_number_iff.mpr hcode
  have hvalue : Text.integerOf text = nearestInt64 n := by rw [htext, Text.integerOf_repr]
  obtain ⟨hescapeText, hescapeAttribute⟩ := Text.escape_repr (nearestInt64 n)
  rw [← htext] at hescapeText hescapeAttribute
  have hne : text.isEmpty = false := by
    rw [String.isEmpty_eq_false_iff, htext]
    exact Text.repr_ne_empty _
  have hmarkup (escape : Bool) : textMarkup escape text = text := by
    cases escape with
    | false => rfl
    | true => exact hescapeText
  have hattribute (name : String) : (Literal.number x).attributeMarkup name = plainAttribute name text := by
    show plainAttribute name (Text.escapeAttribute text) = _
    rw [hescapeAttribute]
  refine ⟨htext, hvalue, ?_, ?_, ?_, ?_, ?_, ?_⟩
  · rw [hvalue]
    exact Decimal.nearestInt64_eq_self_iff n
  · intro env escape
    unfold lowerPlaceholder
    rw [hliteral]
    show pure (lowerConstant env escape text) = _
    rw [lowerConstant, hne, hmarkup]
    rfl
  · intro env location name
    unfold lowerAttribute
    rw [hliteral]
    have hfull : (plainAttribute name text).isEmpty = false := by
      rw [String.isEmpty_eq_false_iff]
      exact plainAttribute_ne_empty name text
    show pure (if ((Literal.number x).attributeMarkup name).isEmpty then [] else _) = _
    rw [hattribute, hfull]
    rfl
  · intro preserveComments escape
    rw [Leaf.markup.eq_def]
    dsimp only
    rw [hliteral]
    exact hmarkup escape
  · intro name
    unfold Attribute.markup
    rw [hliteral]
    exact hattribute name
  · intro other y m hother hy hm
    have htext' : (Literal.number y).text = (nearestInt64 m).repr := hy.markup hm
    rw [htext, htext', Text.repr_inj]
    exact Decimal.nearestInt64_eq_iff m n

/-- The smallest integer of 64 bits still keeps its value, here with the nearest double to what is written. -/
theorem text_of_integer_smallest :
    IsNumeral "-(9223372036854775807)" ⟨true, .finite (2 ^ 52) 11⟩ ∧
      Binary64.IsInteger ⟨true, .finite (2 ^ 52) 11⟩ (-2 ^ 63) ∧ |(-2 ^ 63 : ℤ)| < 10 ^ 21 ∧
      (Leaf.placeholder "-(9223372036854775807)" true).markup false = "-9223372036854775808" := by
  have hcode : IsNumeral "-(9223372036854775807)" ⟨true, .finite (2 ^ 52) 11⟩ :=
    Script.literal?_eq_number_iff.mp (by decide +kernel)
  have hx : Binary64.IsInteger ⟨true, .finite (2 ^ 52) 11⟩ (-2 ^ 63) := by
    norm_num [Binary64.IsInteger, Binary64.exact, Decimal.finiteValue]
  have hn : |(-2 ^ 63 : ℤ)| < 10 ^ 21 := by decide
  obtain ⟨htext, -, -, -, -, hmarkup, -⟩ := text_of_integer hcode hx hn
  refine ⟨hcode, hx, hn, ?_⟩
  rw [hmarkup, htext]
  decide

/-- Beyond that range integers lose their value: `10 ^ 20` and `2 * 10 ^ 20` have the same text. -/
theorem exists_integer_clamped :
    ∃ x y : Binary64, IsNumeral "1e20" x ∧ x.IsInteger (10 ^ 20) ∧ |(10 ^ 20 : ℤ)| < 10 ^ 21 ∧
      IsNumeral "2e20" y ∧ y.IsInteger (2 * 10 ^ 20) ∧ |(2 * 10 ^ 20 : ℤ)| < 10 ^ 21 ∧
      (Leaf.placeholder "1e20" true).markup false = "9223372036854775807" ∧
      (Leaf.placeholder "2e20" true).markup false = "9223372036854775807" ∧
      (Attribute.mk "width" "1e20").markup = (Attribute.mk "width" "2e20").markup := by
  refine ⟨⟨false, .finite 6103515625000000 14⟩, ⟨false, .finite 6103515625000000 15⟩,
    Script.literal?_eq_number_iff.mp (by decide +kernel), ?_, by decide,
    Script.literal?_eq_number_iff.mp (by decide +kernel), ?_, by decide,
    by decide +kernel, by decide +kernel, by decide +kernel⟩
  all_goals norm_num [Binary64.IsInteger, Binary64.exact, Decimal.finiteValue]

end Render

end TemplateCompiler
