import ScriptBridge.Proofs.Number.Equality
import ScriptBridge.Proofs.Number.Grammar
import ScriptBridge.Proofs.Text.Trimmed
import ScriptBridge.Vm.Value

/-!
# Integers as text

Integers are written by one function and read by another. That the two agree takes three steps.

1. Digits without anything around them are read as the integer they make up
   (`decimal?_digits`): the zeros that are left off in front do not count, and no digit is left
   off behind.
2. The digits of an integer are taken neither for a word nor for a hexadecimal numeral, and its
   sign is read once (`ofChars?_integer`); nothing is trimmed (`trimChars_integer`).
3. Hence the text of an integer is read as the number nearest to it (`number?_toString`), which
   below `integerLimit` is the number that was written (`integral_survives_text`).
-/

namespace ScriptBridge

namespace Numeral

/-! ## Digits -/

theorem ofDigitChars_dropZeros (ds : List Char) :
    Nat.ofDigitChars 10 (ds.dropWhile (· == '0')) 0 = Nat.ofDigitChars 10 ds 0 := by
  induction ds with
  | nil => rfl
  | cons c rest ih =>
    by_cases hc : c = '0'
    · subst hc
      rw [Nat.ofDigitChars_cons]
      exact ih
    · simp [hc]

/-- Up to eight hundred digits are all kept, but for zeros in front. -/
theorem significant_short {ds : List Char} (h : ds.length ≤ 800) :
    significant ds = (ds.dropWhile (· == '0'), 0) := by
  have hle := (List.dropWhile_suffix (· == '0') (l := ds)).length_le
  have hdrop : (ds.dropWhile (· == '0')).drop 800 = [] :=
    List.drop_eq_nil_of_le (Nat.le_trans hle h)
  unfold significant
  dsimp only
  rw [hdrop]

theorem ofRatio_zero (negative : Bool) :
    Number.ofRatio negative 0 1 = Number.ofSignAndBits negative 0 := by
  have hnum : Number.ofRatio negative 0 1 = Number.ofScaledRatio negative 0 1 := by
    unfold Number.ofRatio
    rw [Nat.zero_mul]
  rw [hnum]
  cases negative
  · decide
  · decide

/-- Digits behind which nothing stands, without a power of ten. -/
theorem ofDigits_whole (negative : Bool) (digits count : Nat) :
    ofDigits negative digits count 0 = Number.ofRatio negative digits 1 := by
  unfold ofDigits
  by_cases hzero : digits = 0
  · rw [hzero, ofRatio_zero]
    rfl
  · have hsmall : ¬ (0 + (count : Int) < -400) := by omega
    have hlarge : ¬ (400 < (0 : Int)) := by omega
    rw [beq_eq_false_iff_ne.mpr hzero, if_neg Bool.false_ne_true, if_neg hsmall, if_neg hlarge,
      if_pos (Int.le_refl 0)]
    exact congrArg (Number.ofRatio negative · 1) (Nat.mul_one digits)

/-- Digits are read as the integer they make up. -/
theorem decimal?_digits (negative : Bool) {ds : List Char} (hne : ds ≠ [])
    (hdigits : ∀ c ∈ ds, c.isDigit = true) (hlength : ds.length ≤ 800) :
    decimal? negative ds = some (Number.ofRatio negative (Nat.ofDigitChars 10 ds 0) 1) := by
  have hparts : decimal? negative ds = ofParts? negative ds [] [] := by
    have hwhole : decimal? negative (ds ++ []) = ofParts? negative ds [] [] :=
      decimal?_whole negative hne hdigits (by simp)
    rwa [List.append_nil] at hwhole
  have hkept : (ds.dropWhile (· == '0')).all Char.isDigit = true :=
    List.all_eq_true.mpr fun c hc => hdigits c ((List.dropWhile_suffix _).mem hc)
  rw [hparts]
  unfold ofParts?
  dsimp only
  rw [List.append_nil, significant_short hlength, digitsValue?_ten, if_pos hkept,
    ofDigitChars_dropZeros]
  exact congrArg some (ofDigits_whole negative _ _)

/-- What has a digit in it is no word. -/
theorem named?_of_digit (negative : Bool) {cs : List Char} {c : Char} (hc : c ∈ cs)
    (hdigit : c.isDigit = true) : named? negative cs = none := by
  rw [← Option.not_isSome_iff_eq_none, named?_isSome_iff]
  intro hword
  have hletter := forall_mem_word (p := fun d => !d.isDigit) (by decide) hword c hc
  rw [toLower_of_isDigit hdigit, hdigit] at hletter
  cases hletter

/-! ## Integers -/

/-- The sign an integer is written with. -/
def signOf (n : Int) : List Char := if n < 0 then ['-'] else []

theorem toList_toString (n : Int) :
    (toString n).toList = signOf n ++ Nat.toDigits 10 n.natAbs := by
  rw [Int.toString_eq_repr, Int.repr_eq_if, signOf]
  by_cases hn : n < 0
  · rw [if_neg (by omega), if_pos hn, String.toList_append, Nat.toList_repr,
      show (-n).toNat = n.natAbs by omega]
    rfl
  · rw [if_pos (by omega), if_neg hn, Nat.toList_repr, show n.toNat = n.natAbs by omega]
    rfl

theorem isDigit_of_mem_digits {n : Nat} : ∀ c ∈ Nat.toDigits 10 n, c.isDigit = true :=
  fun _ hc => Nat.isDigit_of_mem_toDigits (by decide) (by decide) hc

theorem isSign_signOf (n : Int) : IsSign (signOf n) := by
  unfold signOf
  split
  · exact .inr (.inr rfl)
  · exact .inl rfl

/-- Neither the mark nor a word gets in the way of the digits, and the sign is read once. -/
theorem ofChars?_integer {n : Int} (hlength : (Nat.toDigits 10 n.natAbs).length ≤ 800) :
    ofChars? (signOf n ++ Nat.toDigits 10 n.natAbs) = some (Number.ofInt n) := by
  obtain ⟨c, rest, hdigits⟩ :=
    List.exists_cons_of_ne_nil (Nat.toDigits_ne_nil (n := n.natAbs) (b := 10))
  have hmark : afterHexMark? (unsigned (signOf n ++ Nat.toDigits 10 n.natAbs)) = none :=
    afterHexMark?_eq_none
      ((isSign_signOf n).unmarked.append (unmarked_of_isDigit isDigit_of_mem_digits)).unsigned
  have hsplit : splitSign (signOf n ++ Nat.toDigits 10 n.natAbs) =
      (decide (n < 0), Nat.toDigits 10 n.natAbs) := by
    rw [splitSign_append (isSign_signOf n) fun c hc =>
      ne_sign_of_isDigit (isDigit_of_mem_digits c (List.mem_of_mem_head? hc))]
    unfold signOf
    by_cases hneg : n < 0
    · simp [hneg]
    · simp [hneg]
  have hword : named? (decide (n < 0)) (Nat.toDigits 10 n.natAbs) = none := by
    have hc : c ∈ Nat.toDigits 10 n.natAbs := hdigits ▸ List.mem_cons_self
    exact named?_of_digit _ hc (isDigit_of_mem_digits c hc)
  -- All ways but that of a decimal literal are closed, and its sign is off already.
  rw [ofChars?_eq, hmark]
  dsimp only
  unfold literal?
  rw [hsplit]
  dsimp only
  rw [hword, decimal?_digits _ Nat.toDigits_ne_nil isDigit_of_mem_digits hlength,
    Nat.ofDigitChars_ten_toDigits]
  rfl

theorem isBlank_of_isDigit {c : Char} (h : c.isDigit = true) : Text.isBlank c = false := by
  have hrange : 48 ≤ c.toNat ∧ c.toNat ≤ 57 := by
    simpa [Char.isDigit, UInt32.le_iff_toNat_le] using h
  unfold Text.isBlank
  simp only [Bool.or_eq_false_iff, Bool.and_eq_false_iff, decide_eq_false_iff_not,
    beq_eq_false_iff_ne]
  omega

theorem trimChars_integer (n : Int) :
    Text.trimChars (signOf n ++ Nat.toDigits 10 n.natAbs) =
      signOf n ++ Nat.toDigits 10 n.natAbs := by
  have hall : ∀ c ∈ signOf n ++ Nat.toDigits 10 n.natAbs, Text.isBlank c = false := by
    intro c hc
    rcases List.mem_append.mp hc with hc | hc
    · rcases isSign_signOf n with h | h | h
      · simp [h] at hc
      · rw [h, List.mem_singleton] at hc
        subst hc
        decide
      · rw [h, List.mem_singleton] at hc
        subst hc
        decide
    · exact isBlank_of_isDigit (isDigit_of_mem_digits c hc)
  exact Text.trimChars_eq_self.mpr
    ⟨fun c hc => hall c (List.mem_of_mem_head? hc), fun c hc => hall c (List.mem_of_getLast? hc)⟩

/-- The text of an integer is read as the number nearest to the integer. -/
theorem number?_toString {n : Int} (hlength : (Nat.toDigits 10 n.natAbs).length ≤ 800) :
    number? (toString n) = some (Number.ofInt n) := by
  unfold number?
  rw [toList_toString, trimChars_integer]
  exact ofChars?_integer hlength

end Numeral

namespace Number

/-! ## Numbers that are written as integers -/

theorem format_of_toInt? {x : Number} {n : Int} (hx : x.toInt? = some n)
    (hn : n.natAbs < integerLimit) : x.format = toString n := by
  unfold format
  rw [hx]
  exact if_pos hn

/-- Below the limit an integral number is read back from its text: a number equal to it, and the
same word unless it is a zero, of which the text has no sign. -/
theorem integral_survives_text {x : Number} {n : Int} (hx : x.toInt? = some n)
    (hn : n.natAbs < integerLimit) :
    ∃ y, Numeral.number? x.format = some y ∧ y.eq x = true ∧ y.toInt? = some n ∧ (n ≠ 0 → y = x) ∧
      ((Value.number x).toText?.bind fun s => (Value.text s).toNumber?) = some y := by
  have hread : Numeral.number? x.format = some (ofInt n) := by
    have hlength : (Nat.toDigits 10 n.natAbs).length ≤ 15 :=
      (Nat.length_toDigits_le_iff (by decide) (by decide)).mpr hn
    rw [format_of_toInt? hx hn]
    exact Numeral.number?_toString (Nat.le_trans hlength (by decide))
  have hint : (ofInt n).toInt? = some n :=
    toInt?_ofInt (Nat.le_trans (Nat.le_of_lt hn) (by decide))
  have heq := ofInt_eq_of_toInt? hx
  refine ⟨ofInt n, hread, heq, hint, fun hzero => ?_, hread⟩
  -- Equal numbers are the same word unless both are zeros.
  rcases (eq_iff (isNaN_of_isFinite (toInt?_eq_some.mp hint).1)).mp heq with h | ⟨h, -⟩
  · exact h
  · rw [hint] at h
    exact absurd (Option.some.inj h) hzero

/-- The least integer of fifteen digits. -/
theorem integral_survives_text_least :
    toInt? ⟨0xC30C6BF52633FFF8⟩ = some (-999999999999999) ∧
      format ⟨0xC30C6BF52633FFF8⟩ = "-999999999999999" ∧
      Numeral.number? "-999999999999999" = some ⟨0xC30C6BF52633FFF8⟩ := by
  have hint : toInt? ⟨0xC30C6BF52633FFF8⟩ = some (-999999999999999) := by decide +kernel
  have hformat := format_of_toInt? hint (by decide)
  obtain ⟨y, hread, -, -, hsame, -⟩ := integral_survives_text hint (by decide)
  rw [hformat, hsame (by decide)] at hread
  exact ⟨hint, hformat, hread⟩

end Number

end ScriptBridge
