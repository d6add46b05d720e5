import ScriptBridge.Number.Binary64
import ScriptBridge.Text.Blank

/-!
# Numerals

Which texts the machine reads as numbers. A hexadecimal numeral is an optional `-`, `0x` or
`0X`, and an integer below `2 ^ 64`; every other numeral is a decimal literal with an optional
sign, fraction and exponent, or one of the words for infinity and NaN. `Numeral.number?` trims
blank characters first.
-/

namespace ScriptBridge.Numeral

/-! ## Digits -/

def digitValue? (radix : Nat) (c : Char) : Option Nat :=
  let n := c.toNat
  let v :=
    if 0x30 ≤ n && n ≤ 0x39 then some (n - 0x30)
    else if 0x61 ≤ n && n ≤ 0x7A then some (n - 0x61 + 10)
    else if 0x41 ≤ n && n ≤ 0x5A then some (n - 0x41 + 10)
    else none
  v.filter (· < radix)

/-- The value of a run of digits, most significant first; `none` if some character is none. -/
def digitsValue? (radix : Nat) (cs : List Char) : Option Nat :=
  cs.foldlM (fun n c => (digitValue? radix c).map (radix * n + ·)) 0

/-- The value of a run of digits if it is below a bound. -/
def digitsValueBelow? (radix bound : Nat) (cs : List Char) : Option Nat :=
  cs.foldlM (fun n c => ((digitValue? radix c).map (radix * n + ·)).filter (· < bound)) 0

def isDecimalDigit (c : Char) : Bool := (digitValue? 10 c).isSome

/-- The leading decimal digits and the rest. -/
def spanDigits (cs : List Char) : List Char × List Char :=
  (cs.takeWhile isDecimalDigit, cs.dropWhile isDecimalDigit)

/-! ## Hexadecimal numerals -/

/-- An integer below `2 ^ 64` in hexadecimal digits. A `+` may stand before them. -/
def hexadecimal? (cs : List Char) : Option Nat :=
  let digits := if cs.head? == some '+' then cs.tail else cs
  if digits.isEmpty then none else digitsValueBelow? 16 0x10000000000000000 digits

/-- The text behind `0x` or `0X`. -/
def afterHexMark? : List Char → Option (List Char)
  | '0' :: 'x' :: rest => some rest
  | '0' :: 'X' :: rest => some rest
  | _ => none

/-! ## Decimal numerals -/

/-- An optional sign (true for `-`) and what follows it. -/
def splitSign : List Char → Bool × List Char
  | '-' :: rest => (true, rest)
  | '+' :: rest => (false, rest)
  | cs => (false, cs)

/-- The value of an exponent's digits. Digits behind a value of `0x10000` or more do not count. -/
def exponentValue? (cs : List Char) : Option Nat :=
  cs.foldlM (fun n c => (digitValue? 10 c).map fun v => if n < 0x10000 then 10 * n + v else n) 0

/-- The exponent part of a decimal literal: nothing, or `e` or `E` with an integer. -/
def exponent? : List Char → Option Int
  | [] => some 0
  | c :: rest =>
    if c == 'e' || c == 'E' then
      let (negative, digits) := splitSign rest
      if digits.isEmpty then none
      else (exponentValue? digits).map fun n => if negative then -(n : Int) else n
    else none

/-- Beyond these powers of ten a literal is zero or infinite, whatever its digits say. -/
def ofDigits (negative : Bool) (digits : Nat) (count : Nat) (exponent : Int) : Number :=
  if digits == 0 then Number.ofSignAndBits negative 0
  else if exponent + count < -400 then Number.ofSignAndBits negative 0
  else if 400 < exponent then Number.infinity negative
  else if 0 ≤ exponent then Number.ofRatio negative (digits * Nat.pow 10 exponent.toNat) 1
  else Number.ofRatio negative digits (Nat.pow 10 (-exponent).toNat)

/-- The digits of a numeral without leading zeros, and how many were left off at their end. No
point halfway between two doubles has as many as 800 digits, so behind these one digit tells
whether any that follow differ from zero. -/
def significant (cs : List Char) : List Char × Nat :=
  let cs := cs.dropWhile (· == '0')
  match cs.drop 800 with
  | [] => (cs, 0)
  | rest => (cs.take 800 ++ [if rest.all (· == '0') then '0' else '1'], rest.length - 1)

/-- An unsigned decimal literal: at least one digit before or after the point. -/
def decimal? (negative : Bool) (cs : List Char) : Option Number :=
  let (whole, rest) := spanDigits cs
  let (places, rest) :=
    match rest with
    | '.' :: rest => spanDigits rest
    | rest => ([], rest)
  if whole.isEmpty && places.isEmpty then none
  else do
    let (kept, dropped) := significant (whole ++ places)
    let digits ← digitsValue? 10 kept
    let e ← exponent? rest
    return ofDigits negative digits kept.length (e - places.length + dropped)

/-- The words for infinity and NaN, in any case of letters. -/
def named? (negative : Bool) (cs : List Char) : Option Number :=
  let word := cs.map Char.toLower
  if word == "inf".toList || word == "infinity".toList then some (Number.infinity negative)
  else if word == "nan".toList then
    some (if negative then Number.nan.neg else Number.nan)
  else none

/-- A literal with an optional sign. -/
def literal? (cs : List Char) : Option Number :=
  let (negative, rest) := splitSign cs
  (named? negative rest).orElse fun _ => decimal? negative rest

/-! ## Numerals -/

/-- The number a text without surrounding blanks stands for. -/
def ofChars? (cs : List Char) : Option Number :=
  let negative := cs.head? == some '-'
  let unsigned := if negative then cs.tail else cs
  match afterHexMark? unsigned with
  | some digits =>
    (hexadecimal? digits).map fun n =>
      if negative then (Number.ofNat n).neg else Number.ofNat n
  | none => literal? cs

/-- The number a text stands for; blank characters around it do not count. -/
def number? (s : String) : Option Number := ofChars? (Text.trimChars s.toList)

end ScriptBridge.Numeral
