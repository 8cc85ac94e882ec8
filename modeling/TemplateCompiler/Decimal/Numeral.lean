import TemplateCompiler.Decimal.Shortest
import TemplateCompiler.Text.Digits

/-!
# Numerals

The written forms of doubles: the form in markup (`markup`), the form of script numbers (`script`),
the shorter spelling that printed script prefers (`compact`) and the form in JSON text (`json`).
All start from the shortest decimal and differ in where they place the point and the exponent.
-/

namespace TemplateCompiler.Decimal

/-- A run of zeros. -/
def zeros (n : Nat) : List Char := List.replicate n '0'

/-- A signed exponent without a plus sign. -/
def exponentText (e : Int) : List Char :=
  if e < 0 then '-' :: Nat.toDigits 10 e.natAbs else Nat.toDigits 10 e.natAbs

/-- Digits with the point at `point`, without an exponent: `0.001`, `1.5`, `1000`. -/
def positional (digits : List Char) (point : Int) : List Char :=
  if point ≤ 0 then '0' :: '.' :: (zeros (-point).toNat ++ digits)
  else if digits.length ≤ point.toNat then digits ++ zeros (point.toNat - digits.length)
  else digits.take point.toNat ++ '.' :: digits.drop point.toNat

/-- Digits with the point behind the first, as the mantissa of an exponent: `1`, `1.5`. -/
def mantissa : List Char → List Char
  | [] => []
  | [d] => [d]
  | d :: rest => d :: '.' :: rest

/-- The positional form of a magnitude without a bound on its length. -/
def Magnitude.positional : Magnitude → List Char
  | .infinite => "inf".toList
  | .finite 0 _ => ['0']
  | .finite m e => let s := Shortest.of m e; Decimal.positional s.text s.point

/-- The sign in front of a numeral. -/
def signed (negative : Bool) (cs : List Char) : List Char :=
  if negative then '-' :: cs else cs

/-- The greatest 64-bit signed integer. -/
def maxInteger : Nat := Nat.pow 2 63 - 1

/-- A whole number as a 64-bit signed integer; beyond its range the nearest end is taken. -/
def clampInteger (negative : Bool) (n : Nat) : Int :=
  if negative then -(min n (maxInteger + 1) : Nat) else (min n maxInteger : Nat)

/-- A whole number below `10 ^ 21` passes through a 64-bit integer, which also drops the sign of
zero. All else is written without an exponent, however long that is. -/
def Binary64.markup (x : Binary64) : String :=
  match x.magnitude.whole? with
  | some n =>
    if n < Nat.pow 10 21 then toString (clampInteger x.negative n)
    else String.ofList (signed x.negative x.magnitude.positional)
  | none => String.ofList (signed x.negative x.magnitude.positional)

/-- Script numbers are positional from `1e-6` up to `1e21`; outside they have an exponent, with a
plus sign if it is not negative. -/
def Magnitude.script : Magnitude → List Char
  | .infinite => "Infinity".toList
  | .finite 0 _ => ['0']
  | .finite m e =>
    let s := Shortest.of m e
    if -6 < s.point && s.point ≤ 21 then Decimal.positional s.text s.point
    else
      mantissa s.text ++ 'e' :: ((if s.point - 1 < 0 then [] else ['+']) ++
        exponentText (s.point - 1))

/-- JSON numbers are positional from `1e-5` up to `1e16` and then always have a point; outside they
have an exponent. -/
def Magnitude.json : Magnitude → List Char
  | .infinite => "null".toList
  | .finite 0 _ => "0.0".toList
  | .finite m e =>
    let s := Shortest.of m e
    if -5 < s.point && s.point ≤ 0 then Decimal.positional s.text s.point
    else if 0 < s.point && s.point ≤ 16 then
      let cs := Decimal.positional s.text s.point
      if cs.contains '.' then cs else cs ++ ['.', '0']
    else mantissa s.text ++ 'e' :: exponentText (s.point - 1)

/-- The JSON text of a double. -/
def Binary64.json (x : Binary64) : String :=
  String.ofList (signed x.negative x.magnitude.json)

/-- Text without its first occurrence of a plus sign. -/
def dropPlus (cs : List Char) : List Char :=
  cs.takeWhile (· != '+') ++ (cs.dropWhile (· != '+')).drop 1

/-- Replaces a candidate by a spelling that is shorter. -/
def orShorter (candidate spelling : List Char) : List Char :=
  if spelling.length < candidate.length then spelling else candidate

/-- The spelling of a small fraction with an exponent: `.0001` as `1e-4`. -/
def fractionWithExponent (cs : List Char) : List Char :=
  let digits := (cs.drop 1).dropWhile (· == '0')
  digits ++ 'e' :: '-' :: Nat.toDigits 10 (cs.length - 1)

/-- The spelling of trailing zeros as an exponent: `1000` as `1e3`. -/
def zerosAsExponent (cs : List Char) : List Char :=
  let count := (cs.reverse.takeWhile (· == '0')).length
  cs.take (cs.length - count) ++ 'e' :: Nat.toDigits 10 count

/-- The spelling of `1.2e101` without a point: `12e100`. -/
def withoutPoint (cs : List Char) : List Char :=
  let whole := cs.takeWhile (· != '.')
  let rest := cs.dropWhile (· != '.')
  let fraction := (rest.drop 1).takeWhile (· != 'e')
  match rest.dropWhile (· != 'e') with
  | _ :: exponent =>
    let negative := exponent.head? == some '-'
    let size := Text.ofDigits 10 (if negative then exponent.drop 1 else exponent)
    let value : Int := (if negative then -(size : Int) else size) - fraction.length
    whole ++ fraction ++ 'e' :: exponentText value
  | [] => cs

/-- The short spelling of a magnitude in printed script. Whole numbers below a thousand are written
out; a leading zero and the plus of an exponent are left off. Larger whole numbers turn hexadecimal if
that is shorter, and only otherwise zeros at the end turn into an exponent. -/
def Magnitude.compact (x : Magnitude) : List Char :=
  match x.whole? with
  | some n =>
    let written := dropPlus x.script
    let hex := '0' :: 'x' :: Nat.toDigits 16 n
    if n < 1000 then Nat.toDigits 10 n
    else if hex.length < written.length then hex
    else if written.contains '.' then orShorter written (withoutPoint written)
    else if written.getLast? == some '0' then orShorter written (zerosAsExponent written)
    else written
  | none =>
    let written := x.script
    let written :=
      match written with
      | '0' :: '.' :: rest => '.' :: rest
      | cs => dropPlus cs
    let short :=
      match written with
      | '.' :: '0' :: _ => orShorter written (fractionWithExponent written)
      | cs => cs
    if short.contains '.' && short.contains 'e' then orShorter short (withoutPoint short)
    else short

example : (Binary64.mk false (.ofDecimal 1 21)).markup = "1000000000000000000000" := by
  decide +kernel

example : (Binary64.mk true (.ofDecimal 1 (-7))).markup = "-0.0000001" := by decide +kernel

example : (Binary64.mk false (.ofDecimal 1 20)).markup = "9223372036854775807" := by
  decide +kernel

example : String.ofList (Magnitude.ofDecimal 1 6).compact = "1e6" := by decide +kernel

example : String.ofList (Magnitude.ofDecimal 5 (-1)).compact = ".5" := by decide +kernel

example : (Binary64.mk false (.ofDecimal 15 (-1))).json = "1.5" := by decide +kernel

end TemplateCompiler.Decimal
