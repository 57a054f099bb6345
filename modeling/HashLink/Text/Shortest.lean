/-!
# The shortest decimal of a float

Every finite float stands for an interval: the reals that round to it. Its decimal is the one with
the fewest digits in that interval, and of those the nearest; a tie goes up. All arithmetic is exact:
a float is `m * 2 ^ q`, the interval has ends at quarters of `m`, and a decimal `d * 10 ^ s` is compared
by multiplying out.

The text is positional from 1e-4 up to 1e16, with at least one digit on both sides of the point, and
scientific outside that range.
-/

namespace HashLink

/-- A positive number `digits * 10 ^ exponent`. -/
structure Decimal where
  digits : Nat
  exponent : Int
  deriving DecidableEq, Repr

/-- The nonnegative fraction `num / den`. -/
structure Ratio where
  num : Nat
  den : Nat

namespace Ratio

/-- `base ^ e`, for a positive base. -/
def pow (base : Nat) (e : Int) : Ratio := ⟨base.pow e.toNat, base.pow (-e).toNat⟩

/-- A multiple of a fraction. -/
def scale (n : Nat) (r : Ratio) : Ratio := ⟨n * r.num, r.den⟩

/-- The order of fractions. -/
def le (a b : Ratio) : Bool := a.num * b.den ≤ b.num * a.den

/-- How often `b` goes into `a`. -/
def quotient (a b : Ratio) : Nat := a.num * b.den / (a.den * b.num)

end Ratio

namespace Shortest

/-- The reals that round to a float, and the float itself; all in units of `unit`. -/
structure Interval where
  unit : Ratio
  low : Nat
  value : Nat
  high : Nat
  /-- Whether the ends round to the float too. -/
  closed : Bool

/-- The interval of the positive finite float with the given exponent field and fraction field. -/
def interval (exponent fraction : Nat) : Interval :=
  let m := if exponent = 0 then fraction else 0x10000000000000 + fraction
  let q : Int := (if exponent = 0 then 1 else exponent) - 1075
  let below := if fraction = 0 ∧ 1 < exponent then 1 else 2
  ⟨Ratio.pow 2 (q - 2), 4 * m - below, 4 * m, 4 * m + 2, m % 2 = 0⟩

/-- Whether a decimal rounds to the float. -/
def Interval.contains (i : Interval) (d : Decimal) : Bool :=
  let x := Ratio.scale d.digits (Ratio.pow 10 d.exponent)
  let low := Ratio.scale i.low i.unit
  let high := Ratio.scale i.high i.unit
  if i.closed then low.le x && x.le high else !x.le low && !high.le x

/-- The largest power of ten that is not above the float, as an exponent. -/
def Interval.magnitude (i : Interval) : Int :=
  let v := Ratio.scale i.value i.unit
  if Ratio.le ⟨1, 1⟩ v then
    (Nat.toDigits 10 (v.num / v.den)).length - 1
  else
    -((List.range 325).find? fun j => Ratio.le ⟨1, Nat.pow 10 j⟩ v).getD 0

/-- The decimal with `n` digits that rounds to the float, the nearer one if there are two. -/
def Interval.ofDigits? (i : Interval) (n : Nat) : Option Decimal :=
  let s := i.magnitude - n + 1
  let step := Ratio.pow 10 s
  let v := Ratio.scale i.value i.unit
  let d := v.quotient step
  let down : Decimal := ⟨d, s⟩
  let up : Decimal := ⟨d + 1, s⟩
  -- The upper neighbour is at least as near when twice the float reaches the sum of both.
  let upIsNear := (Ratio.scale (2 * d + 1) step).le (Ratio.scale 2 v)
  match i.contains down, i.contains up with
  | true, true => some (if upIsNear then up else down)
  | true, false => some down
  | false, true => some up
  | false, false => none

/-- The shortest decimal that rounds to the float; 17 digits are always enough. -/
def Interval.shortest (i : Interval) : Decimal :=
  ((List.range 17).findSome? fun n => i.ofDigits? (n + 1)).getD ⟨0, 0⟩

end Shortest

/-- The same number with its digits as text, without zeros at the end, and the exponent of the
first digit. -/
def Decimal.normal (d : Decimal) : List Char × Int :=
  let digits := Nat.toDigits 10 d.digits
  let kept := (digits.reverse.dropWhile (· == '0')).reverse
  (kept, d.exponent + digits.length - 1)

/-- The text of a positive decimal. -/
def Decimal.text (d : Decimal) : String :=
  let (digits, exponent) := d.normal
  let zeros (n : Nat) := List.replicate n '0'
  let chars :=
    if 0 ≤ exponent ∧ exponent < 16 then
      let whole := exponent.toNat + 1
      let fraction := digits.drop whole
      digits.take whole ++ zeros (whole - digits.length) ++ '.' ::
        (if fraction.isEmpty then ['0'] else fraction)
    else if -4 ≤ exponent ∧ exponent < 0 then
      '0' :: '.' :: zeros (-exponent - 1).toNat ++ digits
    else
      digits.take 1 ++ (if digits.length = 1 then [] else '.' :: digits.drop 1) ++
        'e' :: (toString exponent).toList
  String.ofList chars

/-- The text of a float given by its bit pattern. -/
def floatText (bits : UInt64) : String :=
  let n := bits.toNat
  let sign := if n / 0x8000000000000000 = 1 then "-" else ""
  let exponent := n / 0x10000000000000 % 0x800
  let fraction := n % 0x10000000000000
  if exponent = 0x7FF then
    if fraction = 0 then sign ++ "inf" else "NaN"
  else if exponent = 0 ∧ fraction = 0 then
    sign ++ "0.0"
  else
    sign ++ (Shortest.interval exponent fraction).shortest.text

end HashLink
