import ScriptBridge.Proofs.Number.Single

/-!
# Numbers that are equal

Two numbers that are equal are the same word, the two zeros apart: a finite word is told by its
sign and its magnitude, and every finite word lies below the infinities.
-/

namespace ScriptBridge

namespace Number

/-! ## Positions -/

/-- Finite magnitudes are below every power of two from the two thousand and ninety-eighth on. -/
theorem magnitude_lt {x : Number} (h : x.isFinite = true) {c : Nat} (hc : 2098 ≤ c) :
    x.magnitude < 2 ^ c := by
  have hfraction : x.fraction < leadingWeight := Nat.mod_lt _ (by decide)
  have hfield : x.exponentField < 2048 := Nat.mod_lt _ (by decide)
  have hne : x.exponentField ≠ 2047 := bne_iff_ne.mp h
  have hsignificand : x.significand < 2 ^ 53 := by
    unfold significand leadingWeight at *
    split <;> omega
  have hshift : 53 + x.shift ≤ c := by
    unfold shift
    omega
  unfold magnitude
  rw [show Nat.pow 2 x.shift = 2 ^ x.shift from Nat.pow_eq]
  calc x.significand * 2 ^ x.shift < 2 ^ 53 * 2 ^ x.shift :=
        Nat.mul_lt_mul_of_pos_right hsignificand (Nat.pow_pos (by decide))
    _ = 2 ^ (53 + x.shift) := (Nat.pow_add 2 53 x.shift).symm
    _ ≤ 2 ^ c := Nat.pow_le_pow_right (by decide) hshift

/-- The infinities lie beyond every finite word. -/
theorem exists_beyond : ∃ beyond : Nat, (∀ x : Number, x.isFinite = true → x.magnitude < beyond) ∧
    ∀ x : Number, x.isInfinite = true →
      x.position = if x.negative then -(beyond : Int) else beyond := by
  -- The exponent is a variable, so that no step of the proof computes the power.
  have hposition (c : Nat) (hc : c = 2098) (x : Number) (h : x.isInfinite = true) :
      x.position = if x.negative then -((2 ^ c : Nat) : Int) else ((2 ^ c : Nat) : Int) := by
    unfold position
    rw [h, if_pos rfl, ← hc, show Nat.pow 2 c = 2 ^ c from Nat.pow_eq]
  obtain ⟨c, hc⟩ : ∃ c : Nat, c = 2098 := ⟨_, rfl⟩
  exact ⟨2 ^ c, fun x h => magnitude_lt h (Nat.le_of_eq hc.symm), hposition c hc⟩

theorem isInfinite_of_not_isFinite {x : Number} (hnan : x.isNaN = false)
    (h : x.isFinite = false) : x.isInfinite = true := by
  unfold isFinite at h
  unfold isNaN at hnan
  unfold isInfinite
  rw [bne_eq_false_iff_eq.mp h] at hnan ⊢
  exact beq_iff_eq.mpr (bne_eq_false_iff_eq.mp hnan)

/-! ## Words -/

/-- A finite word other than a zero is told by what it stands for. -/
theorem eq_of_scaled_eq {x y : Number} (hx : x.isFinite = true) (hy : y.isFinite = true)
    (h : x.scaled = y.scaled) (hzero : x.scaled ≠ 0) : x = y := by
  have hmagnitude : x.magnitude = y.magnitude := by
    rw [← natAbs_scaled, ← natAbs_scaled, h]
  have hpositive : 0 < y.magnitude := by
    rw [← natAbs_scaled, ← h]
    exact Int.natAbs_pos.mpr hzero
  have hnegative : x.negative = y.negative := by
    unfold scaled at h
    rw [hmagnitude] at h
    cases hnx : x.negative <;> cases hny : y.negative <;>
      simp only [hnx, hny, Bool.false_eq_true, if_true, if_false] at h ⊢ <;> omega
  rw [← ofScaledRatio_magnitude hx, ← ofScaledRatio_magnitude hy, hnegative, hmagnitude]

/-- An infinity is told by its position. -/
theorem eq_of_isInfinite {x y : Number} (hx : x.isInfinite = true) (hy : y.isInfinite = true)
    (h : x.position = y.position) : x = y := by
  obtain ⟨beyond, hfinite, hinfinite⟩ := exists_beyond
  have hpositive : 0 < beyond := Nat.zero_lt_of_lt (hfinite zero (by decide))
  have hnegative : x.negative = y.negative := by
    rw [hinfinite x hx, hinfinite y hy] at h
    cases hnx : x.negative <;> cases hny : y.negative <;>
      simp only [hnx, hny, Bool.false_eq_true, if_true, if_false] at h ⊢ <;> omega
  unfold isInfinite at hx hy
  simp only [Bool.and_eq_true, beq_iff_eq] at hx hy
  rw [← ofSignAndBits_fields x, ← ofSignAndBits_fields y, hnegative, hx.1, hx.2, hy.1, hy.2]

/-- Finite words and infinities have different positions. -/
theorem position_ne {x y : Number} (hx : x.isFinite = true) (hy : y.isInfinite = true) :
    x.position ≠ y.position := by
  obtain ⟨beyond, hfinite, hinfinite⟩ := exists_beyond
  have hlt := hfinite x hx
  rw [position_of_isFinite hx, hinfinite y hy]
  rw [← natAbs_scaled] at hlt
  split <;> omega

/-! ## Equality -/

theorem eq_self {x : Number} (h : x.isNaN = false) : x.eq x = true := eq_eq_true.mpr ⟨h, h, rfl⟩

theorem toInt?_eq_zero {x : Number} : x.toInt? = some 0 ↔ x.isFinite = true ∧ x.scaled = 0 := by
  rw [toInt?_eq_some, Int.zero_mul]

/-- Numbers that are equal are the same word, or both are zero. -/
theorem eq_iff {x y : Number} (hx : x.isNaN = false) :
    x.eq y = true ↔ x = y ∨ x.toInt? = some 0 ∧ y.toInt? = some 0 := by
  constructor
  · intro h
    obtain ⟨-, hy, hposition⟩ := eq_eq_true.mp h
    cases hfx : x.isFinite <;> cases hfy : y.isFinite
    · exact .inl (eq_of_isInfinite (isInfinite_of_not_isFinite hx hfx)
        (isInfinite_of_not_isFinite hy hfy) hposition)
    · exact absurd hposition.symm (position_ne hfy (isInfinite_of_not_isFinite hx hfx))
    · exact absurd hposition (position_ne hfx (isInfinite_of_not_isFinite hy hfy))
    · rw [position_of_isFinite hfx, position_of_isFinite hfy] at hposition
      by_cases hzero : x.scaled = 0
      · exact .inr ⟨toInt?_eq_zero.mpr ⟨hfx, hzero⟩,
          toInt?_eq_zero.mpr ⟨hfy, hposition.symm.trans hzero⟩⟩
      · exact .inl (eq_of_scaled_eq hfx hfy hposition hzero)
  · rintro (rfl | ⟨hzx, hzy⟩)
    · exact eq_self hx
    · obtain ⟨hfx, hzx⟩ := toInt?_eq_zero.mp hzx
      obtain ⟨hfy, hzy⟩ := toInt?_eq_zero.mp hzy
      refine eq_eq_true.mpr ⟨hx, isNaN_of_isFinite hfy, ?_⟩
      rw [position_of_isFinite hfx, position_of_isFinite hfy, hzx, hzy]

/-- An integer that a number stands for is a multiple of a power of two by at most fifty-three
bits, which an odd integer of more bits is not. -/
theorem toInt?_ne_of_odd {x : Number} {n : Int} (hodd : n % 2 = 1) (hlarge : 2 ^ 53 < n.natAbs) :
    x.toInt? ≠ some n := by
  intro h
  have hmagnitude := magnitude_of_toInt? h
  have hunit : unit ≤ x.magnitude := by
    rw [hmagnitude]
    exact Nat.le_mul_of_pos_left unit (Nat.zero_lt_of_lt hlarge)
  obtain ⟨m, p, -, hlo, hhi, hm⟩ := exists_leading (toInt?_eq_some.mp h).1 hunit
  have hcoprime : Nat.Coprime n.natAbs (2 ^ p) :=
    Nat.Coprime.pow_right p (Nat.coprime_two_right.mpr (by grind))
  have hdvd : n.natAbs ∣ m := by
    refine hcoprime.dvd_of_dvd_mul_right ?_
    rw [← hm, hmagnitude]
    exact Nat.dvd_mul_right _ _
  have hle := Nat.le_of_dvd (Nat.lt_of_lt_of_le (by decide) hlo) hdvd
  unfold leadingWeight at hhi
  omega

end Number

end ScriptBridge
