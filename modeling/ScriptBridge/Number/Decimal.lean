import ScriptBridge.Number.Binary64

/-!
# Decimal text of numbers

`Number.shortest` finds the fewest decimal digits that read back as the same word: for one,
two, … seventeen digits it tries the value's two neighbours on that decimal grid, and the first
grid with a neighbour inside the rounding interval wins. `Number.display` writes those digits
positionally, however large or small the number is, and `Number.format` is the machine's own
text of a number.
-/

namespace ScriptBridge

/-- A decimal: `digits` counts multiples of `10 ^ exponent`. -/
structure Decimal where
  digits : Nat
  exponent : Int
deriving DecidableEq, Repr

namespace Decimal

/-- `10 ^ k` as a quotient of naturals. -/
def power (k : Int) : Nat × Nat :=
  if 0 ≤ k then (Nat.pow 10 k.toNat, 1) else (1, Nat.pow 10 (-k).toNat)

/-- The last digit made nonzero, up to `fuel` places. -/
def stripZeros : Nat → Decimal → Decimal
  | 0, d => d
  | fuel + 1, d =>
    if d.digits != 0 && d.digits % 10 == 0 then
      stripZeros fuel ⟨d.digits / 10, d.exponent + 1⟩
    else d

/-- Positional text: no exponent mark, and no point for an integer. -/
def positional (d : Decimal) : String :=
  let text := toString d.digits
  if 0 ≤ d.exponent then text ++ String.ofList (List.replicate d.exponent.toNat '0')
  else
    let places := (-d.exponent).toNat
    let padded := String.ofList (List.replicate (places + 1 - text.length) '0') ++ text
    let chars := padded.toList
    let whole := chars.length - places
    String.ofList (chars.take whole ++ '.' :: chars.drop whole)

end Decimal

namespace Number

/-- The interval of reals that round to a positive finite word, with the word itself, all in
quarters of the word's unit: lower end, value, upper end. Below a power of two the gap is half as
wide, unless the word is the least normal one. -/
def quarters (x : Number) : Nat × Nat × Nat :=
  let m := x.significand
  let below := if m == leadingWeight && 1 < x.exponentField then 1 else 2
  (4 * m - below, 4 * m, 4 * m + 2)

/-- A quarter of the word's unit, as a quotient of naturals. -/
def quarterUnit (x : Number) : Nat × Nat :=
  if 1076 ≤ x.shift then (Nat.pow 2 (x.shift - 1076), 1) else (1, Nat.pow 2 (1076 - x.shift))

/-- The exponent of the leading decimal digit of a positive quotient. -/
def leadingExponent (num den : Nat) : Int :=
  let whole := (toString (num / den)).length
  let places := (toString ((den + num - 1) / num - 1)).length
  if den ≤ num then (whole : Int) - 1 else -(places : Int)

/-- The neighbour of a positive word on the grid of multiples of `10 ^ k`, if one lies in the
word's interval: the nearer of the two, the upper one when they are equally near. The ends of
the interval belong to it exactly when the significand is even. -/
def onGrid? (x : Number) (k : Int) : Option Nat :=
  let (lo, v, hi) := x.quarters
  let (un, ud) := x.quarterUnit
  let (gn, gd) := Decimal.power k
  let scale (n : Nat) : Nat := n * un * gd
  let step := ud * gn
  let inside (c : Nat) : Bool :=
    if x.significand % 2 == 0 then scale lo ≤ c * step && c * step ≤ scale hi
    else scale lo < c * step && c * step < scale hi
  let d := scale v / step
  let below := inside d
  let above := inside (d + 1)
  if below && above then
    if scale v - d * step < (d + 1) * step - scale v then some d else some (d + 1)
  else if below then some d
  else if above then some (d + 1)
  else none

/-- Tries grids from `count` digits on, `fuel` of them. -/
def firstGrid (x : Number) (leading : Int) (count : Nat) : Nat → Option Decimal
  | 0 => none
  | fuel + 1 =>
    let k := leading - count + 1
    match x.onGrid? k with
    | some d => some ⟨d, k⟩
    | none => firstGrid x leading (count + 1) fuel

/-- The shortest decimal that reads back as the given positive finite word; zero is `0`. -/
def shortest (x : Number) : Decimal :=
  if x.magnitude == 0 then ⟨0, 0⟩
  else
    let (un, ud) := x.quarterUnit
    let leading := leadingExponent (4 * x.significand * un) ud
    match firstGrid x leading 1 17 with
    | some d => d.stripZeros 17
    | none => ⟨0, 0⟩

/-- Positional text of any number. -/
def display (x : Number) : String :=
  if x.isNaN then "NaN"
  else
    let sign := if x.negative then "-" else ""
    if x.isInfinite then sign ++ "inf" else sign ++ x.shortest.positional

/-- The first integer that is not written as one, `10 ^ 15`. -/
def integerLimit : Nat := 1000000000000000

/-- The machine's text of a number: integers below `integerLimit` are written as integers, so that
both zeros are `0`, and every other number in its shortest positional form. -/
def format (x : Number) : String :=
  match x.toInt? with
  | some n => if n.natAbs < integerLimit then toString n else x.display
  | none => x.display

end Number

end ScriptBridge
