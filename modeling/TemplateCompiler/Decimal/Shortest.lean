import TemplateCompiler.Decimal.Binary64

/-!
# Shortest decimals

The decimal with the fewest digits among those that read back as a given double, the nearest one if
several have that many. `Shortest` is the answer: the digits and the place of the decimal point.
-/

namespace TemplateCompiler.Decimal

/-- The number `0.d₁d₂… * 10 ^ point` with the digits `d₁d₂…` of `digits`. -/
structure Shortest where
  digits : Nat
  point : Int
deriving DecidableEq, Repr

/-- The decimals that read back as a magnitude form an interval, given here by its ends and the
value itself over one denominator. The ends belong to it when the significand is even. -/
structure Basin where
  low : Nat
  value : Nat
  high : Nat
  denominator : Nat
  closed : Bool

/-- The interval of a finite magnitude. Below a power of two the spacing halves. -/
def Basin.of (m : Nat) (e : Int) : Basin :=
  let gap := if m = Nat.pow 2 52 && Binary64.minExponent < e then 1 else 2
  let (unit, d) := Magnitude.ratio 1 (e - 2)
  { low := (4 * m - gap) * unit, value := 4 * m * unit, high := (4 * m + 2) * unit,
    denominator := d, closed := m % 2 = 0 }

/-- A ratio lies in the interval. -/
def Basin.holds (b : Basin) (n d : Nat) : Bool :=
  let low := b.low * d
  let high := b.high * d
  let x := n * b.denominator
  if b.closed then low ≤ x && x ≤ high else low < x && x < high

/-- `10 ^ e` as a ratio. -/
def powerOfTen (e : Int) : Nat × Nat :=
  if 0 ≤ e then (Nat.pow 10 e.toNat, 1) else (1, Nat.pow 10 (-e).toNat)

/-- The place of the decimal point of a value: the least `k` with `value < 10 ^ k`. The binary order
of magnitude fixes it but for three candidates. -/
def Basin.point (b : Basin) (m : Nat) (e : Int) : Int :=
  let start := ((Nat.log2 m : Int) + e) * 30103 / 100000
  let below (k : Int) : Bool := let (p, q) := powerOfTen k; b.value * q < p * b.denominator
  if below start then start else if below (start + 1) then start + 1 else start + 2

/-- Of the two neighbours of the value on a decimal grid, the nearer one that lies in the interval.
The grid has the spacing `p / q`. -/
def Basin.onGrid (b : Basin) (p q : Nat) : Option Nat :=
  let n := b.value * q
  let d := p * b.denominator
  let floor := n / d
  let fits (x : Nat) : Bool := b.holds (x * p) q
  let nearerAbove : Bool := d < 2 * (n % d) || (d == 2 * (n % d) && floor % 2 == 1)
  match fits floor, fits (floor + 1) with
  | true, true => some (if nearerAbove then floor + 1 else floor)
  | true, false => some floor
  | false, true => some (floor + 1)
  | false, false => none

/-- Tries grids of `count`, `count + 1`, … digits, at most `tries` of them. -/
def Basin.search (b : Basin) (point : Int) : (tries count : Nat) → Shortest
  | 0, count =>
    let (p, q) := powerOfTen (point - count)
    ⟨b.value * q / (p * b.denominator), point⟩
  | tries + 1, count =>
    let (p, q) := powerOfTen (point - count)
    match b.onGrid p q with
    -- the neighbour above may be the next power of ten, one place longer
    | some x => if x = Nat.pow 10 count then ⟨1, point + 1⟩ else ⟨x, point⟩
    | none => b.search point tries (count + 1)

/-- The shortest decimal of a finite magnitude other than zero: seventeen digits always suffice. -/
def Shortest.of (m : Nat) (e : Int) : Shortest :=
  let b := Basin.of m e
  b.search (b.point m e) 17 1

/-- The digits of a shortest decimal as text; it never ends in a zero. -/
def Shortest.text (s : Shortest) : List Char := Nat.toDigits 10 s.digits

end TemplateCompiler.Decimal
