/-!
# Binary64 numbers

The numbers of the machine are IEEE 754 binary64 words. A finite word stands for an integer
multiple of `2 ^ -1074`, and `Number.scaled` is that integer, so order, integrality and every
conversion are questions about `Int`. The one rounding function, `Number.ofScaledRatio`, takes
an exact quotient to the nearest word, ties to the even significand; reading numerals,
converting integers and arithmetic all go through it.
-/

namespace ScriptBridge

/-- A binary64 number, given by its 64 bits. -/
structure Number where
  bits : UInt64
deriving DecidableEq, Inhabited, Repr

namespace Number

/-! ## Fields of a word -/

/-- The weight of the sign bit, `2 ^ 63`. -/
def signWeight : Nat := 0x8000000000000000

/-- The weight of the lowest exponent bit, `2 ^ 52`; in a significand, that of the leading bit. -/
def leadingWeight : Nat := 0x10000000000000

/-- The sign bit. -/
def negative (x : Number) : Bool := x.bits.toNat / signWeight == 1

/-- The eleven exponent bits. -/
def exponentField (x : Number) : Nat := x.bits.toNat / leadingWeight % 2048

/-- The fifty-two fraction bits. -/
def fraction (x : Number) : Nat := x.bits.toNat % leadingWeight

def isFinite (x : Number) : Bool := x.exponentField != 2047

def isNaN (x : Number) : Bool := x.exponentField == 2047 && x.fraction != 0

def isInfinite (x : Number) : Bool := x.exponentField == 2047 && x.fraction == 0

/-- The significand of a finite word; the leading one is implied unless the word is subnormal. -/
def significand (x : Number) : Nat :=
  if x.exponentField == 0 then x.fraction else leadingWeight + x.fraction

/-- The significand counts multiples of `2 ^ (shift - 1074)`. -/
def shift (x : Number) : Nat := x.exponentField - 1

/-- The absolute value of a finite word in units of `2 ^ -1074`. -/
def magnitude (x : Number) : Nat := x.significand * Nat.pow 2 x.shift

/-- The value of a finite word in units of `2 ^ -1074`. -/
def scaled (x : Number) : Int := if x.negative then -(x.magnitude : Int) else x.magnitude

/-- One in units of `2 ^ -1074`. -/
def unit : Nat := Nat.pow 2 1074

/-! ## Building words -/

/-- The word with the given sign and the low sixty-three bits of `magnitudeBits`. -/
def ofSignAndBits (negative : Bool) (magnitudeBits : Nat) : Number :=
  ⟨UInt64.ofNat ((if negative then signWeight else 0) + magnitudeBits % signWeight)⟩

def zero : Number := ⟨0⟩

def nan : Number := ⟨0x7FF8000000000000⟩

def infinity (negative : Bool) : Number := ofSignAndBits negative 0x7FF0000000000000

/-- The quotient rounded to the nearest integer, a half to the even neighbour. -/
def roundDiv (num den : Nat) : Nat :=
  let q := num / den
  let r := num % den
  if 2 * r < den then q
  else if den < 2 * r then q + 1
  else q + q % 2

/-- Number of binary digits; zero has none. -/
def bitLength (n : Nat) : Nat := if n == 0 then 0 else n.log2 + 1

/-- The word nearest to `num / den` units of `2 ^ -1074`, ties to the even significand. A carry
out of the significand moves into the exponent by itself, since the fields lie side by side. -/
def ofScaledRatio (negative : Bool) (num den : Nat) : Number :=
  let p := bitLength (num / den) - 53
  let m := roundDiv num (den * Nat.pow 2 p)
  ofSignAndBits negative (min (p * leadingWeight + m) 0x7FF0000000000000)

/-- The word nearest to the quotient `num / den`. -/
def ofRatio (negative : Bool) (num den : Nat) : Number :=
  ofScaledRatio negative (num * unit) den

/-- The word nearest to an integer; zero is positive. -/
def ofInt (n : Int) : Number := ofRatio (n < 0) n.natAbs 1

def ofNat (n : Nat) : Number := ofInt n

/-! ## Order and integrality -/

/-- A position on the extended line: the scaled value, with the infinities beyond every finite
word. Nothing is said about words that are no number. -/
def position (x : Number) : Int :=
  let beyond : Int := Nat.pow 2 2098
  if x.isInfinite then (if x.negative then -beyond else beyond) else x.scaled

/-- Numeric equality: the two zeros are equal and a NaN equals nothing. -/
def eq (x y : Number) : Bool := !x.isNaN && !y.isNaN && x.position == y.position

/-- The integer a word stands for, if it stands for one. -/
def toInt? (x : Number) : Option Int :=
  if x.isFinite && x.magnitude % unit == 0 then some (x.scaled / unit) else none

/-- The value cut toward zero and brought into `lo ..= hi`; a NaN gives zero. -/
def clamp (x : Number) (lo hi : Int) : Int :=
  if x.isNaN then 0
  else if x.isInfinite then (if x.negative then lo else hi)
  else max lo (min hi (x.scaled.tdiv unit))

/-! ## Conversions between precisions -/

/-- The nearest number with twenty-four significant bits and the exponent range of binary32,
ties to even. -/
def toSingle (x : Number) : Number :=
  if !x.isFinite then x
  else
    let p := max (bitLength x.magnitude - 24) (1074 - 149)
    let rounded := roundDiv x.magnitude (Nat.pow 2 p) * Nat.pow 2 p
    if rounded < Nat.pow 2 128 * unit then ofScaledRatio x.negative rounded 1
    else infinity x.negative

/-! ## Arithmetic: the exact result, rounded once -/

def neg (x : Number) : Number := ofSignAndBits (!x.negative) x.bits.toNat

def add (x y : Number) : Number :=
  if x.isNaN || y.isNaN then nan
  else if x.isInfinite then
    if y.isInfinite && x.negative != y.negative then nan else x
  else if y.isInfinite then y
  else
    let s := x.scaled + y.scaled
    if s == 0 then ofSignAndBits (x.negative && y.negative) 0
    else ofScaledRatio (s < 0) s.natAbs 1

def sub (x y : Number) : Number := x.add y.neg

def mul (x y : Number) : Number :=
  let negative := x.negative != y.negative
  if x.isNaN || y.isNaN then nan
  else if x.isInfinite || y.isInfinite then
    if x.eq zero || y.eq zero then nan else infinity negative
  else ofScaledRatio negative (x.magnitude * y.magnitude) unit

def div (x y : Number) : Number :=
  let negative := x.negative != y.negative
  if x.isNaN || y.isNaN then nan
  else if x.isInfinite then
    if y.isInfinite then nan else infinity negative
  else if y.isInfinite then ofSignAndBits negative 0
  else if y.eq zero then
    if x.eq zero then nan else infinity negative
  else ofScaledRatio negative (x.magnitude * unit) y.magnitude

end Number

end ScriptBridge
