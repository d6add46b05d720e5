import Mathlib
import ScriptBridge.Number.Numeral

/-!
# Which texts are numbers

The reader of numerals takes a text apart from the left: a sign, a mark of hexadecimal digits, runs
of digits. Here the texts it accepts are described from the other side, by how they are put
together.

1. Digits are read as `Nat.ofDigitChars` and `hexValue` say (`digitsValue?_ten`,
   `digitsValueBelow?_sixteen`), and a sign is told from what stands behind it
   (`splitSign_append`).
2. The reader of each part accepts what the predicate of that part says
   (`hexadecimal?_isSome_iff`, `exponent?_isSome_iff`, `decimal?_isSome_iff`).
3. No decimal numeral and no word has a mark in it (`afterHexMark?_eq_none`), so that the parts do
   not get into each other's way.

The main statement is `number?_isSome_iff`. A text is a number when, without the blank characters
around it, it is a hexadecimal or a decimal numeral. Two kinds of text are let in beside them: the
words for infinity and NaN, which have no digit at all, and hexadecimal numerals with a second sign
behind the mark.
-/

namespace ScriptBridge.Numeral

/-! ## Digits -/

/-- The hexadecimal digits, each at the place of its value. -/
def hexDigits : List Char :=
  ['0', '1', '2', '3', '4', '5', '6', '7', '8', '9', 'a', 'b', 'c', 'd', 'e', 'f']

/-- A hexadecimal digit, in either case of letters. -/
def isHexDigit (c : Char) : Bool := hexDigits.contains c.toLower

def hexDigitValue (c : Char) : Nat := hexDigits.idxOf c.toLower

/-- The value of hexadecimal digits, most significant first. -/
def hexValue (cs : List Char) : Nat := cs.foldl (fun n c => 16 * n + hexDigitValue c) 0

theorem toNat_lt_of_isHexDigit {c : Char} (h : isHexDigit c = true) : c.toNat < 128 := by
  have hall : ∀ d ∈ hexDigits, d.toNat < 128 := by simp [hexDigits]
  have hlower := hall c.toLower (List.contains_iff_mem.mp h)
  by_cases hupper : c.isUpper = true
  · simp only [Char.isUpper, decide_eq_true_eq, ge_iff_le, UInt32.le_iff_toNat_le] at hupper
    exact Nat.lt_of_le_of_lt hupper.2 (by decide)
  · rw [Char.isUpper, decide_eq_true_eq] at hupper
    rwa [Char.toLower, dif_neg hupper] at hlower

theorem toNat_lt_of_isDigit {c : Char} (h : c.isDigit = true) : c.toNat < 128 := by
  simp only [Char.isDigit, Bool.and_eq_true, decide_eq_true_eq, ge_iff_le,
    UInt32.le_iff_toNat_le] at h
  exact Nat.lt_of_le_of_lt h.2 (by decide)

/-- No digit of any radix lies beyond the characters of seven bits. -/
theorem digitValue?_of_large (radix : Nat) {c : Char} (h : 128 ≤ c.toNat) :
    digitValue? radix c = none := by
  have h₁ : ¬ c.toNat ≤ 0x39 := by omega
  have h₂ : ¬ c.toNat ≤ 0x7A := by omega
  have h₃ : ¬ c.toNat ≤ 0x5A := by omega
  simp [digitValue?, h₁, h₂, h₃]

/-- What holds of the characters of seven bits holds of all, if it does of those beyond. -/
theorem forall_char {p : Char → Prop} (hsmall : ∀ n < 128, p (Char.ofNat n))
    (hlarge : ∀ c : Char, 128 ≤ c.toNat → p c) (c : Char) : p c := by
  by_cases h : c.toNat < 128
  · have hc := hsmall c.toNat h
    rwa [Char.ofNat_toNat] at hc
  · exact hlarge c (by omega)

theorem digitValue?_ten (c : Char) :
    digitValue? 10 c = if c.isDigit then some (c.toNat - '0'.toNat) else none := by
  refine forall_char (p := fun c =>
    digitValue? 10 c = if c.isDigit then some (c.toNat - '0'.toNat) else none) (by decide) ?_ c
  intro c hc
  have hdigit : ¬ c.isDigit = true := fun h => by
    have := toNat_lt_of_isDigit h
    omega
  rw [digitValue?_of_large 10 hc, if_neg hdigit]

theorem digitValue?_sixteen (c : Char) :
    digitValue? 16 c = if isHexDigit c then some (hexDigitValue c) else none := by
  refine forall_char (p := fun c =>
    digitValue? 16 c = if isHexDigit c then some (hexDigitValue c) else none)
    (by decide +kernel) ?_ c
  intro c hc
  have hdigit : ¬ isHexDigit c = true := fun h => by
    have := toNat_lt_of_isHexDigit h
    omega
  rw [digitValue?_of_large 16 hc, if_neg hdigit]

theorem isDecimalDigit_eq : isDecimalDigit = Char.isDigit := by
  funext c
  unfold isDecimalDigit
  rw [digitValue?_ten]
  cases c.isDigit <;> rfl

/-! ## Runs of digits -/

section

variable {radix : Nat} {p : Char → Bool} {value : Char → Nat}

/-- A run of digits is read digit by digit, whatever stands before it. -/
theorem foldlM_digits
    (hdigit : ∀ c, digitValue? radix c = if p c then some (value c) else none)
    (cs : List Char) (n : Nat) :
    cs.foldlM (fun n c => (digitValue? radix c).map (radix * n + ·)) n =
      if cs.all p then some (cs.foldl (fun n c => radix * n + value c) n) else none := by
  induction cs generalizing n with
  | nil => rfl
  | cons c rest ih =>
    rw [List.foldlM_cons, hdigit c, List.all_cons, List.foldl_cons]
    cases hc : p c
    · rfl
    · exact ih (radix * n + value c)

theorem le_foldl_digits (hradix : 0 < radix) (cs : List Char) (n : Nat) :
    n ≤ cs.foldl (fun n c => radix * n + value c) n := by
  induction cs generalizing n with
  | nil => exact Nat.le_refl n
  | cons c rest ih =>
    calc n ≤ radix * n := Nat.le_mul_of_pos_left n hradix
      _ ≤ radix * n + value c := Nat.le_add_right _ _
      _ ≤ _ := ih _

/-- Digits only make a value greater, so that a bound may be looked at after the last one. -/
theorem foldlM_digitsBelow (hradix : 0 < radix)
    (hdigit : ∀ c, digitValue? radix c = if p c then some (value c) else none) {bound : Nat}
    (cs : List Char) {n : Nat} (hn : n < bound) :
    cs.foldlM (fun n c => ((digitValue? radix c).map (radix * n + ·)).filter (· < bound)) n =
      if cs.all p ∧ cs.foldl (fun n c => radix * n + value c) n < bound
      then some (cs.foldl (fun n c => radix * n + value c) n) else none := by
  induction cs generalizing n with
  | nil => simp [hn]
  | cons c rest ih =>
    rw [List.foldlM_cons, hdigit c, List.all_cons, List.foldl_cons]
    cases hc : p c
    · simp
    · by_cases hlt : radix * n + value c < bound
      · simp only [if_true, Option.map_some, Option.filter_some, hlt, decide_true, Bool.true_and]
        exact ih hlt
      · -- The value is beyond the bound already, and stays there.
        have hge : radix * n + value c ≤
            rest.foldl (fun n c => radix * n + value c) (radix * n + value c) :=
          le_foldl_digits hradix rest _
        have hbeyond : ¬ rest.foldl (fun n c => radix * n + value c) (radix * n + value c) <
            bound := by omega
        simp [Option.filter_some, hlt, hbeyond]

end

theorem digitsValue?_ten (cs : List Char) :
    digitsValue? 10 cs =
      if cs.all Char.isDigit then some (Nat.ofDigitChars 10 cs 0) else none := by
  rw [Nat.ofDigitChars_eq_foldl]
  exact foldlM_digits digitValue?_ten cs 0

theorem digitsValueBelow?_sixteen {bound : Nat} (hbound : 0 < bound) (cs : List Char) :
    digitsValueBelow? 16 bound cs =
      if cs.all isHexDigit ∧ hexValue cs < bound then some (hexValue cs) else none :=
  foldlM_digitsBelow (by decide) digitValue?_sixteen cs hbound

/-- The digits of an exponent are all looked at, those that do not count as well. -/
theorem exponentValue?_isSome (cs : List Char) :
    (exponentValue? cs).isSome ↔ ∀ c ∈ cs, c.isDigit = true := by
  have hfrom (n : Nat) : (cs.foldlM (fun n c =>
      (digitValue? 10 c).map fun v => if n < 0x10000 then 10 * n + v else n) n).isSome ↔
        ∀ c ∈ cs, c.isDigit = true := by
    induction cs generalizing n with
    | nil => simp
    | cons c rest ih =>
      rw [List.foldlM_cons, digitValue?_ten]
      cases hc : c.isDigit
      · simp [hc]
      · simpa [hc] using ih _
  exact hfrom 0

/-! ## Leading parts -/

/-- The leading digits end where something else begins. -/
theorem spanDigits_append {digits rest : List Char} (hdigits : ∀ c ∈ digits, c.isDigit = true)
    (hrest : ∀ c ∈ rest.head?, c.isDigit = false) :
    spanDigits (digits ++ rest) = (digits, rest) := by
  unfold spanDigits
  rw [isDecimalDigit_eq]
  have hstop : rest.takeWhile Char.isDigit = [] ∧ rest.dropWhile Char.isDigit = rest := by
    cases rest with
    | nil => simp
    | cons c tail => simp [hrest c rfl]
  rw [List.takeWhile_append_of_pos hdigits, List.dropWhile_append_of_pos hdigits, hstop.1,
    hstop.2, List.append_nil]

theorem exists_spanDigits (cs : List Char) : ∃ digits rest, cs = digits ++ rest ∧
    (∀ c ∈ digits, c.isDigit = true) ∧ ∀ c ∈ rest.head?, c.isDigit = false := by
  refine ⟨cs.takeWhile Char.isDigit, cs.dropWhile Char.isDigit,
    List.takeWhile_append_dropWhile.symm, fun c hc => List.mem_takeWhile_imp hc, fun c hc => ?_⟩
  have hhead := List.head?_dropWhile_not Char.isDigit cs
  rw [Option.mem_def.mp hc] at hhead
  simpa using hhead

/-- A sign, or none. -/
def IsSign (sign : List Char) : Prop := sign = [] ∨ sign = ['+'] ∨ sign = ['-']

theorem splitSign_append {sign rest : List Char} (hsign : IsSign sign)
    (hrest : ∀ c ∈ rest.head?, c ≠ '+' ∧ c ≠ '-') :
    splitSign (sign ++ rest) = (sign == ['-'], rest) := by
  rcases hsign with rfl | rfl | rfl
  · -- Without a sign the text must not begin with one.
    cases rest with
    | nil => rfl
    | cons c tail =>
      obtain ⟨hplus, hminus⟩ := hrest c rfl
      unfold splitSign
      split
      · next heq => exact absurd (List.cons.inj heq).1 hminus
      · next heq => exact absurd (List.cons.inj heq).1 hplus
      · rfl
  · rfl
  · rfl

theorem exists_sign (cs : List Char) : ∃ sign, IsSign sign ∧ cs = sign ++ (splitSign cs).2 := by
  unfold splitSign
  split
  · exact ⟨['-'], .inr (.inr rfl), rfl⟩
  · exact ⟨['+'], .inr (.inl rfl), rfl⟩
  · exact ⟨[], .inl rfl, rfl⟩

theorem toLower_of_isDigit {c : Char} (h : c.isDigit = true) : c.toLower = c := by
  have hupper : ¬ (c.val ≥ 'A'.val ∧ c.val ≤ 'Z'.val) := fun hle => by
    simp only [Char.isDigit, Bool.and_eq_true, decide_eq_true_eq, ge_iff_le,
      UInt32.le_iff_toNat_le] at h hle
    exact absurd (Nat.le_trans hle.1 h.2) (by decide)
  rw [Char.toLower, dif_neg hupper]

theorem ne_sign_of_isDigit {c : Char} (h : c.isDigit = true) : c ≠ '+' ∧ c ≠ '-' := by
  constructor <;> rintro rfl <;> revert h <;> decide

/-! ## Hexadecimal numerals -/

/-- At least one hexadecimal digit, of a value below `2 ^ 64`. -/
structure IsHexInteger (cs : List Char) : Prop where
  nonempty : cs ≠ []
  digits : cs.all isHexDigit = true
  small : hexValue cs < 2 ^ 64

/-- A hexadecimal numeral. Between the mark and the digits stands `lead`, which should be empty. -/
def IsHexadecimal (lead cs : List Char) : Prop :=
  ∃ sign mark digits, (sign = [] ∨ sign = ['-']) ∧ (mark = 'x' ∨ mark = 'X') ∧
    IsHexInteger digits ∧ cs = sign ++ '0' :: mark :: (lead ++ digits)

theorem digitsValueBelow?_isSome (digits : List Char) :
    (¬ digits.isEmpty ∧ (digitsValueBelow? 16 0x10000000000000000 digits).isSome) ↔
      IsHexInteger digits := by
  rw [digitsValueBelow?_sixteen (by decide)]
  constructor
  · rintro ⟨hne, hsome⟩
    split at hsome
    · next h => exact ⟨by simpa using hne, h.1, h.2⟩
    · cases hsome
  · intro h
    rw [if_pos ⟨h.digits, h.small⟩]
    exact ⟨by simpa using h.nonempty, rfl⟩

/-- Behind the mark a `+` may stand before the digits. -/
theorem hexadecimal?_isSome_iff (cs : List Char) :
    (hexadecimal? cs).isSome ↔
      IsHexInteger cs ∨ ∃ digits, IsHexInteger digits ∧ cs = '+' :: digits := by
  have hread (digits : List Char) : (if digits.isEmpty then none
      else digitsValueBelow? 16 0x10000000000000000 digits).isSome ↔ IsHexInteger digits := by
    rw [← digitsValueBelow?_isSome]
    by_cases hempty : digits.isEmpty <;> simp [hempty]
  unfold hexadecimal?
  by_cases hplus : cs.head? = some '+'
  · obtain ⟨tail, rfl⟩ := List.head?_eq_some_iff.mp hplus
    -- The `+` is no digit, so that a text that begins with it is read in one way only.
    have hnot : ¬ IsHexInteger ('+' :: tail) := fun h => by
      have hdigit := h.digits
      rw [List.all_cons, Bool.and_eq_true] at hdigit
      exact absurd hdigit.1 (by decide +kernel)
    simp only [List.head?_cons, beq_self_eq_true, if_true, List.tail_cons, hread, hnot, false_or,
      List.cons.injEq, true_and]
    exact ⟨fun h => ⟨tail, h, rfl⟩, fun ⟨digits, h, heq⟩ => heq ▸ h⟩
  · have hbeq : (cs.head? == some '+') = false := by simpa using hplus
    simp only [hbeq, Bool.false_eq_true, if_false, hread]
    refine ⟨.inl, fun h => ?_⟩
    rcases h with h | ⟨digits, -, rfl⟩
    · exact h
    · exact absurd rfl hplus

/-! ## Decimal numerals -/

/-- Digits, at least one, with or without a point before, among or behind them. -/
inductive IsMantissa : List Char → Prop
  | whole {digits : List Char} (hne : digits ≠ []) (hdigits : ∀ c ∈ digits, c.isDigit = true) :
    IsMantissa digits
  | point {whole places : List Char} (hne : whole ++ places ≠ [])
    (hdigits : ∀ c ∈ whole ++ places, c.isDigit = true) : IsMantissa (whole ++ '.' :: places)

/-- Nothing, or `e` or `E` with an integer. -/
inductive IsExponent : List Char → Prop
  | absent : IsExponent []
  | present {mark : Char} {sign digits : List Char} (hmark : mark = 'e' ∨ mark = 'E')
    (hsign : IsSign sign) (hne : digits ≠ []) (hdigits : ∀ c ∈ digits, c.isDigit = true) :
    IsExponent (mark :: (sign ++ digits))

/-- A decimal literal with an optional sign. -/
def IsDecimal (cs : List Char) : Prop :=
  ∃ sign mantissa exponent, IsSign sign ∧ IsMantissa mantissa ∧ IsExponent exponent ∧
    cs = sign ++ (mantissa ++ exponent)

theorem exponent?_isSome_iff (cs : List Char) : (exponent? cs).isSome ↔ IsExponent cs := by
  cases cs with
  | nil => exact iff_of_true rfl .absent
  | cons c rest =>
    have hread : (exponent? (c :: rest)).isSome ↔ (c = 'e' ∨ c = 'E') ∧
        (splitSign rest).2 ≠ [] ∧ ∀ d ∈ (splitSign rest).2, d.isDigit = true := by
      have hvalue (o : Option Nat) (f : Nat → Int) :
          (o.bind fun n => some (f n)).isSome = o.isSome := by
        cases o <;> rfl
      rw [← exponentValue?_isSome]
      by_cases hmark : c = 'e' ∨ c = 'E'
      · by_cases hempty : (splitSign rest).2 = []
        · simp [exponent?, hmark, hempty]
        · simp [exponent?, hmark, hempty, hvalue]
      · simp [exponent?, hmark]
    rw [hread]
    constructor
    · rintro ⟨hmark, hne, hdigits⟩
      obtain ⟨sign, hsign, hrest⟩ := exists_sign rest
      rw [hrest]
      exact .present hmark hsign hne hdigits
    · intro h
      cases h with
      | present hmark hsign hne hdigits =>
        rw [splitSign_append hsign fun d hd =>
          ne_sign_of_isDigit (hdigits d (List.mem_of_mem_head? hd))]
        exact ⟨hmark, hne, hdigits⟩

/-- What is kept of digits are digits. -/
theorem isDigit_of_mem_significant {cs : List Char} (h : ∀ c ∈ cs, c.isDigit = true) :
    ∀ c ∈ (significant cs).1, c.isDigit = true := by
  have hkept (c : Char) (hc : c ∈ cs.dropWhile (· == '0')) : c.isDigit = true :=
    h c ((List.dropWhile_suffix _).mem hc)
  -- Beyond the digits that are kept stands one more digit, which tells of the others.
  unfold significant
  dsimp only
  split
  · exact hkept
  · intro c hc
    rcases List.mem_append.mp hc with hc | hc
    · exact hkept c (List.mem_of_mem_take hc)
    · rw [List.mem_singleton] at hc
      subst hc
      split <;> decide

/-- The digits behind a point, if there is one, and the rest. -/
def splitPoint : List Char → List Char × List Char
  | '.' :: rest => spanDigits rest
  | rest => ([], rest)

/-- What the digits before and behind the point and the text of an exponent are read as. -/
def ofParts? (negative : Bool) (whole places exponent : List Char) : Option Number :=
  let kept := significant (whole ++ places)
  (digitsValue? 10 kept.1).bind fun digits =>
    (exponent? exponent).map fun e =>
      ofDigits negative digits kept.1.length (e - places.length + kept.2)

/-- The reader of decimal literals, in the parts it takes a text to. -/
theorem decimal?_eq (negative : Bool) (cs : List Char) :
    decimal? negative cs =
      if (spanDigits cs).1.isEmpty && (splitPoint (spanDigits cs).2).1.isEmpty then none
      else ofParts? negative (spanDigits cs).1 (splitPoint (spanDigits cs).2).1
        (splitPoint (spanDigits cs).2).2 := by
  unfold decimal? ofParts? splitPoint
  simp only [Option.map_eq_bind]
  rfl

theorem ofParts?_isSome_iff (negative : Bool) {whole places : List Char}
    (hdigits : ∀ c ∈ whole ++ places, c.isDigit = true) (exponent : List Char) :
    (ofParts? negative whole places exponent).isSome ↔ IsExponent exponent := by
  have hkept : (significant (whole ++ places)).1.all Char.isDigit = true :=
    List.all_eq_true.mpr (isDigit_of_mem_significant hdigits)
  rw [← exponent?_isSome_iff]
  unfold ofParts?
  dsimp only
  rw [digitsValue?_ten, if_pos hkept]
  cases exponent? exponent <;> rfl

theorem splitPoint_of_ne {cs : List Char} (h : ∀ c ∈ cs.head?, c ≠ '.') :
    splitPoint cs = ([], cs) := by
  unfold splitPoint
  split
  · exact absurd rfl (h '.' rfl)
  · rfl

theorem exists_splitPoint (cs : List Char) : ∃ places rest, splitPoint cs = (places, rest) ∧
    (∀ c ∈ places, c.isDigit = true) ∧
      (cs = '.' :: (places ++ rest) ∨ cs = rest ∧ places = []) := by
  by_cases hpoint : cs.head? = some '.'
  · obtain ⟨tail, rfl⟩ := List.head?_eq_some_iff.mp hpoint
    obtain ⟨places, rest, rfl, hplaces, hrest⟩ := exists_spanDigits tail
    exact ⟨places, rest, spanDigits_append hplaces hrest, hplaces, .inl rfl⟩
  · refine ⟨[], cs, splitPoint_of_ne fun c hc he => hpoint ?_, by simp, .inr ⟨rfl, rfl⟩⟩
    rw [Option.mem_def.mp hc, he]

/-- A literal without a point. -/
theorem decimal?_whole (negative : Bool) {whole rest : List Char} (hne : whole ≠ [])
    (hdigits : ∀ c ∈ whole, c.isDigit = true)
    (hrest : ∀ c ∈ rest.head?, c.isDigit = false ∧ c ≠ '.') :
    decimal? negative (whole ++ rest) = ofParts? negative whole [] rest := by
  have hspan := spanDigits_append hdigits fun c hc => (hrest c hc).1
  have hpoint := splitPoint_of_ne fun c hc => (hrest c hc).2
  rw [decimal?_eq, hspan, hpoint]
  simp [hne]

/-- A literal with a point. -/
theorem decimal?_point (negative : Bool) {whole places rest : List Char}
    (hne : whole ++ places ≠ []) (hdigits : ∀ c ∈ whole ++ places, c.isDigit = true)
    (hrest : ∀ c ∈ rest.head?, c.isDigit = false) :
    decimal? negative (whole ++ '.' :: (places ++ rest)) = ofParts? negative whole places rest := by
  have hwhole (c : Char) (hc : c ∈ whole) := hdigits c (List.mem_append_left _ hc)
  have hplaces (c : Char) (hc : c ∈ places) := hdigits c (List.mem_append_right _ hc)
  have hspan : spanDigits (whole ++ '.' :: (places ++ rest)) = (whole, '.' :: (places ++ rest)) :=
    spanDigits_append hwhole fun c hc => by
      obtain rfl := Option.some.inj hc
      decide
  have hpoint : splitPoint ('.' :: (places ++ rest)) = (places, rest) :=
    spanDigits_append hplaces hrest
  have hempty : ¬ (whole = [] ∧ places = []) := fun h => hne (by rw [h.1, h.2]; rfl)
  rw [decimal?_eq, hspan, hpoint]
  simp [hempty]

/-- The text behind a mantissa goes on with no digit and no point. -/
theorem IsExponent.head {exponent : List Char} (h : IsExponent exponent) :
    ∀ c ∈ exponent.head?, c.isDigit = false ∧ c ≠ '.' := by
  intro c hc
  cases h with
  | absent => cases hc
  | present hmark =>
    obtain rfl := Option.some.inj hc
    rcases hmark with rfl | rfl <;> decide

/-- The reader of decimal literals accepts a mantissa with an exponent, and nothing else. -/
theorem decimal?_isSome_iff (negative : Bool) (cs : List Char) :
    (decimal? negative cs).isSome ↔
      ∃ mantissa exponent, IsMantissa mantissa ∧ IsExponent exponent ∧
        cs = mantissa ++ exponent := by
  constructor
  · -- The text is cut where the reader cuts it; what is left behind the places is the exponent.
    intro h
    obtain ⟨whole, rest, rfl, hwhole, hrest⟩ := exists_spanDigits cs
    obtain ⟨places, exponent, hpoint, hplaces, hsplit⟩ := exists_splitPoint rest
    have hdigits : ∀ c ∈ whole ++ places, c.isDigit = true := fun c hc =>
      (List.mem_append.mp hc).elim (hwhole c) (hplaces c)
    rw [decimal?_eq, spanDigits_append hwhole hrest, hpoint] at h
    split at h
    · cases h
    · next hempty =>
      have hne : whole ++ places ≠ [] := by simpa using hempty
      have hexponent := (ofParts?_isSome_iff negative hdigits exponent).mp h
      rcases hsplit with rfl | ⟨rfl, rfl⟩
      · exact ⟨whole ++ '.' :: places, exponent, .point hne hdigits, hexponent, by simp⟩
      · rw [List.append_nil] at hne hdigits
        exact ⟨whole, rest, .whole hne hdigits, hexponent, rfl⟩
  · rintro ⟨mantissa, exponent, hmantissa, hexponent, rfl⟩
    cases hmantissa with
    | whole hne hdigits =>
      rw [decimal?_whole negative hne hdigits hexponent.head]
      exact (ofParts?_isSome_iff negative (by simpa using hdigits) exponent).mpr hexponent
    | point hne hdigits =>
      rw [List.append_assoc, List.cons_append,
        decimal?_point negative hne hdigits fun c hc => (hexponent.head c hc).1]
      exact (ofParts?_isSome_iff negative hdigits exponent).mpr hexponent

/-! ## Literals -/

/-- The words for infinity and NaN. -/
def words : List (List Char) := ["inf".toList, "infinity".toList, "nan".toList]

/-- A word in any case of letters, with an optional sign. -/
def IsWord (cs : List Char) : Prop :=
  ∃ sign word, IsSign sign ∧ word.map Char.toLower ∈ words ∧ cs = sign ++ word

theorem named?_isSome_iff (negative : Bool) (cs : List Char) :
    (named? negative cs).isSome ↔ cs.map Char.toLower ∈ words := by
  unfold named? words
  dsimp only
  rw [List.mem_cons, List.mem_cons, List.mem_singleton]
  split
  · next hinf =>
    rw [Bool.or_eq_true, beq_iff_eq, beq_iff_eq] at hinf
    exact iff_of_true rfl (hinf.imp_right .inl)
  · next hinf =>
    rw [Bool.or_eq_true, beq_iff_eq, beq_iff_eq, not_or] at hinf
    split
    · next hnan => exact iff_of_true rfl (.inr (.inr (beq_iff_eq.mp hnan)))
    · next hnan =>
      rw [beq_iff_eq] at hnan
      exact iff_of_false Bool.false_ne_true fun h =>
        h.elim hinf.1 fun h => h.elim hinf.2 hnan

/-- What holds of the characters of all words. -/
theorem forall_mem_word {p : Char → Bool} (hall : words.all (·.all p) = true) {word : List Char}
    (hword : word.map Char.toLower ∈ words) : ∀ c ∈ word, p c.toLower = true := fun _ hc =>
  List.all_eq_true.mp (List.all_eq_true.mp hall _ hword) _ (List.mem_map_of_mem hc)

theorem ne_sign_of_mem_word {word : List Char} (hword : word.map Char.toLower ∈ words) :
    ∀ c ∈ word, c ≠ '+' ∧ c ≠ '-' := by
  intro c hc
  have hlower := forall_mem_word (p := Char.isLower) (by decide) hword c hc
  constructor <;> rintro rfl <;> revert hlower <;> decide

theorem IsMantissa.head {mantissa : List Char} (h : IsMantissa mantissa) :
    ∃ c rest, mantissa = c :: rest ∧ (c.isDigit = true ∨ c = '.') := by
  cases h with
  | whole hne hdigits =>
    obtain ⟨c, rest, rfl⟩ := List.exists_cons_of_ne_nil hne
    exact ⟨c, rest, rfl, .inl (hdigits c List.mem_cons_self)⟩
  | @point whole places hne hdigits =>
    cases whole with
    | nil => exact ⟨'.', places, rfl, .inr rfl⟩
    | cons c rest => exact ⟨c, rest ++ '.' :: places, rfl, .inl (hdigits c List.mem_cons_self)⟩

/-- Behind its sign a literal begins with no other one. -/
theorem literal?_isSome_iff (cs : List Char) :
    (literal? cs).isSome ↔ IsWord cs ∨ IsDecimal cs := by
  have hread : (literal? cs).isSome ↔ (named? (splitSign cs).1 (splitSign cs).2).isSome ∨
      (decimal? (splitSign cs).1 (splitSign cs).2).isSome := by
    have hparts : literal? cs = (named? (splitSign cs).1 (splitSign cs).2).orElse fun _ =>
        decimal? (splitSign cs).1 (splitSign cs).2 := rfl
    rw [hparts]
    cases named? (splitSign cs).1 (splitSign cs).2 with
    | none => simp
    | some x => simp
  rw [hread, named?_isSome_iff, decimal?_isSome_iff]
  constructor
  · obtain ⟨sign, hsign, hcs⟩ := exists_sign cs
    rintro (hword | ⟨mantissa, exponent, hmantissa, hexponent, hrest⟩)
    · exact .inl ⟨sign, _, hsign, hword, hcs⟩
    · rw [hrest] at hcs
      exact .inr ⟨sign, mantissa, exponent, hsign, hmantissa, hexponent, hcs⟩
  · rintro (⟨sign, word, hsign, hword, rfl⟩ |
      ⟨sign, mantissa, exponent, hsign, hmantissa, hexponent, rfl⟩)
    · rw [splitSign_append hsign fun c hc =>
        ne_sign_of_mem_word hword c (List.mem_of_mem_head? hc)]
      exact .inl hword
    · have hhead : ∀ c ∈ (mantissa ++ exponent).head?, c ≠ '+' ∧ c ≠ '-' := by
        obtain ⟨c, rest, rfl, hc⟩ := hmantissa.head
        intro d hd
        obtain rfl := Option.some.inj hd
        rcases hc with hc | rfl
        · exact ne_sign_of_isDigit hc
        · decide
      rw [splitSign_append hsign hhead]
      exact .inr ⟨mantissa, exponent, hmantissa, hexponent, rfl⟩

/-! ## The mark -/

/-- A character of a literal, in lower case, is not the letter of the mark. -/
def Unmarked (cs : List Char) : Prop := ∀ c ∈ cs, c.toLower ≠ 'x'

theorem Unmarked.append {cs ds : List Char} (hcs : Unmarked cs) (hds : Unmarked ds) :
    Unmarked (cs ++ ds) := fun c hc => (List.mem_append.mp hc).elim (hcs c) (hds c)

theorem Unmarked.cons {c : Char} {cs : List Char} (hc : c.toLower ≠ 'x') (hcs : Unmarked cs) :
    Unmarked (c :: cs) := by
  intro d hd
  rcases List.mem_cons.mp hd with rfl | hd
  · exact hc
  · exact hcs d hd

theorem IsSign.unmarked {sign : List Char} (h : IsSign sign) : Unmarked sign := by
  rcases h with rfl | rfl | rfl <;> simp [Unmarked]

theorem unmarked_of_isDigit {cs : List Char} (h : ∀ c ∈ cs, c.isDigit = true) : Unmarked cs := by
  intro c hc hx
  have hdigit := h c hc
  rw [← toLower_of_isDigit hdigit, hx] at hdigit
  exact absurd hdigit (by decide)

theorem IsWord.unmarked {cs : List Char} (h : IsWord cs) : Unmarked cs := by
  obtain ⟨sign, word, hsign, hword, rfl⟩ := h
  refine hsign.unmarked.append fun c hc => ?_
  have hletter := forall_mem_word (p := (· != 'x')) (by decide) hword c hc
  simpa using hletter

theorem IsMantissa.unmarked {cs : List Char} (h : IsMantissa cs) : Unmarked cs := by
  cases h with
  | whole _ hdigits => exact unmarked_of_isDigit hdigits
  | point _ hdigits =>
    have hall := unmarked_of_isDigit hdigits
    exact Unmarked.append (fun c hc => hall c (List.mem_append_left _ hc))
      (.cons (by decide) fun c hc => hall c (List.mem_append_right _ hc))

theorem IsExponent.unmarked {cs : List Char} (h : IsExponent cs) : Unmarked cs := by
  cases h with
  | absent => simp [Unmarked]
  | present hmark hsign _ hdigits =>
    refine .cons ?_ (hsign.unmarked.append (unmarked_of_isDigit hdigits))
    rcases hmark with rfl | rfl <;> decide

theorem IsDecimal.unmarked {cs : List Char} (h : IsDecimal cs) : Unmarked cs := by
  obtain ⟨sign, mantissa, exponent, hsign, hmantissa, hexponent, rfl⟩ := h
  exact hsign.unmarked.append (hmantissa.unmarked.append hexponent.unmarked)

/-- The text without a `-` at its head. -/
def unsigned (cs : List Char) : List Char := if cs.head? == some '-' then cs.tail else cs

theorem Unmarked.unsigned {cs : List Char} (h : Unmarked cs) : Unmarked (unsigned cs) := by
  unfold Numeral.unsigned
  split
  · exact fun c hc => h c (List.mem_of_mem_tail hc)
  · exact h

theorem afterHexMark?_eq_some_iff (cs rest : List Char) :
    afterHexMark? cs = some rest ↔
      ∃ mark, (mark = 'x' ∨ mark = 'X') ∧ cs = '0' :: mark :: rest := by
  constructor
  · intro h
    unfold afterHexMark? at h
    split at h
    · exact ⟨'x', .inl rfl, by rw [Option.some.inj h]⟩
    · exact ⟨'X', .inr rfl, by rw [Option.some.inj h]⟩
    · cases h
  · rintro ⟨mark, rfl | rfl, rfl⟩
    · rfl
    · rfl

theorem afterHexMark?_eq_none {cs : List Char} (h : Unmarked cs) : afterHexMark? cs = none := by
  cases hrest : afterHexMark? cs with
  | none => rfl
  | some rest =>
    obtain ⟨mark, hmark, rfl⟩ := (afterHexMark?_eq_some_iff cs rest).mp hrest
    have hlower : mark.toLower = 'x' := by
      rcases hmark with rfl | rfl <;> decide
    exact absurd hlower (h mark (by simp))

/-- A hexadecimal numeral is what has its digits behind the mark. -/
theorem isHexadecimal_iff (lead cs : List Char) :
    IsHexadecimal lead cs ↔
      ∃ digits, afterHexMark? (unsigned cs) = some (lead ++ digits) ∧ IsHexInteger digits := by
  constructor
  · rintro ⟨sign, mark, digits, hsign, hmark, hdigits, rfl⟩
    refine ⟨digits, (afterHexMark?_eq_some_iff _ _).mpr ⟨mark, hmark, ?_⟩, hdigits⟩
    rcases hsign with rfl | rfl
    · rfl
    · rfl
  · rintro ⟨digits, hrest, hdigits⟩
    obtain ⟨mark, hmark, hcs⟩ := (afterHexMark?_eq_some_iff _ _).mp hrest
    by_cases hneg : cs.head? = some '-'
    · obtain ⟨tail, rfl⟩ := List.head?_eq_some_iff.mp hneg
      have htail : tail = '0' :: mark :: (lead ++ digits) := hcs
      exact ⟨['-'], mark, digits, .inr rfl, hmark, hdigits, by rw [htail]; rfl⟩
    · have hbeq : (cs.head? == some '-') = false := by simpa using hneg
      rw [unsigned, hbeq] at hcs
      exact ⟨[], mark, digits, .inl rfl, hmark, hdigits, hcs⟩

/-! ## Numerals -/

/-- The reader of numerals, told by what stands behind the `-`. -/
theorem ofChars?_eq (cs : List Char) :
    ofChars? cs =
      match afterHexMark? (unsigned cs) with
      | some digits => (hexadecimal? digits).map fun n =>
          if cs.head? == some '-' then (Number.ofNat n).neg else Number.ofNat n
      | none => literal? cs := rfl

/-- A text without surrounding blanks is a number when it is a hexadecimal or a decimal numeral;
or, beside these, a hexadecimal numeral with a `+` behind its mark, or a word. -/
theorem ofChars?_isSome_iff (cs : List Char) :
    (ofChars? cs).isSome ↔
      IsHexadecimal [] cs ∨ IsDecimal cs ∨ IsHexadecimal ['+'] cs ∨ IsWord cs := by
  rw [ofChars?_eq]
  cases hmark : afterHexMark? (unsigned cs) with
  | none =>
    -- Without a mark no hexadecimal numeral is possible, whatever stands behind one.
    have hhex (lead : List Char) : ¬ IsHexadecimal lead cs := fun h => by
      obtain ⟨digits, hsome, -⟩ := (isHexadecimal_iff lead cs).mp h
      rw [hmark] at hsome
      cases hsome
    simp only [literal?_isSome_iff, hhex, false_or]
    exact or_comm
  | some rest =>
    -- With a mark the literals are out, for none of their characters is its letter.
    have hword : ¬ IsWord cs := fun h => by
      rw [afterHexMark?_eq_none h.unmarked.unsigned] at hmark
      cases hmark
    have hdecimal : ¬ IsDecimal cs := fun h => by
      rw [afterHexMark?_eq_none h.unmarked.unsigned] at hmark
      cases hmark
    simp only [Option.isSome_map, hexadecimal?_isSome_iff, isHexadecimal_iff, hmark, hword,
      hdecimal, false_or, or_false, Option.some.injEq, List.nil_append, List.singleton_append]
    refine or_congr ⟨fun h => ⟨rest, rfl, h⟩, ?_⟩ ⟨?_, ?_⟩
    · rintro ⟨digits, rfl, h⟩
      exact h
    · rintro ⟨digits, h, rfl⟩
      exact ⟨digits, rfl, h⟩
    · rintro ⟨digits, rfl, h⟩
      exact ⟨digits, h, rfl⟩

/-- The texts that are numbers, by what stands between the blank characters around them. -/
theorem number?_isSome_iff (s : String) :
    (number? s).isSome ↔ IsHexadecimal [] (Text.trimChars s.toList) ∨
      IsDecimal (Text.trimChars s.toList) ∨ IsHexadecimal ['+'] (Text.trimChars s.toList) ∨
      IsWord (Text.trimChars s.toList) :=
  ofChars?_isSome_iff _

example : (["nan", "-Infinity", "0x+10", "0x", "1e", "."].map fun s => (number? s).isSome) =
    [true, true, true, false, false, false] := by decide +kernel

end ScriptBridge.Numeral
