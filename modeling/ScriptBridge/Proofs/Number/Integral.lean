import Mathlib
import ScriptBridge.Number.Binary64

/-!
# Integers as numbers

Every integer of at most fifty-three bits is a number exactly: the number nearest to it stands for
the integer itself.
-/

namespace ScriptBridge

namespace Number

/-- Dividing by a divisor needs no rounding. -/
theorem roundDiv_mul (m : Nat) {d : Nat} (hd : 0 < d) : roundDiv (m * d) d = m := by
  unfold roundDiv
  rw [Nat.mul_mod_left, Nat.mul_div_cancel m hd]
  exact if_pos (by omega)

/-- The fields of a word that is built from a biased exponent and a significand with its leading
bit. -/
theorem fields_ofSignAndBits (negative : Bool) {p m : Nat} (hp : p ≤ 2045)
    (hlo : leadingWeight ≤ m) (hhi : m < 2 * leadingWeight) :
    let x := ofSignAndBits negative (p * leadingWeight + m)
    x.negative = negative ∧ x.exponentField = p + 1 ∧ x.fraction = m - leadingWeight := by
  have hsize : p * leadingWeight + m < signWeight := by
    unfold signWeight leadingWeight at *
    omega
  have hbits : (ofSignAndBits negative (p * leadingWeight + m)).bits.toNat =
      (if negative then signWeight else 0) + (p * leadingWeight + m) := by
    have hword : (if negative then signWeight else 0) + (p * leadingWeight + m) < 2 ^ 64 := by
      unfold signWeight at *
      cases negative
      · simp only [Bool.false_eq_true, if_false]
        omega
      · simp only [if_true]
        omega
    unfold ofSignAndBits
    rw [Nat.mod_eq_of_lt hsize, UInt64.toNat_ofNat', Nat.mod_eq_of_lt hword]
  unfold Number.negative exponentField fraction
  simp only [hbits]
  unfold signWeight leadingWeight at *
  cases negative
  · simp only [Bool.false_eq_true, if_false]
    refine ⟨?_, by omega, by omega⟩
    rw [beq_eq_false_iff_ne]
    omega
  · simp only [if_true]
    refine ⟨?_, by omega, by omega⟩
    rw [beq_iff_eq]
    omega

/-- The binary digits of a significand with its leading bit, shifted. -/
theorem bitLength_shifted {m p : Nat} (hlo : leadingWeight ≤ m) (hhi : m < 2 * leadingWeight) :
    bitLength (m * 2 ^ p) = p + 53 := by
  have hpow : 0 < 2 ^ p := Nat.pow_pos (by decide)
  have hpos : m * 2 ^ p ≠ 0 := by
    have hm : 0 < m := Nat.lt_of_lt_of_le (by decide) hlo
    exact Nat.ne_of_gt (Nat.mul_pos hm hpow)
  have hlog : (m * 2 ^ p).log2 = p + 52 := by
    refine (Nat.log2_eq_iff hpos).mpr ⟨?_, ?_⟩
    · rw [Nat.add_comm, Nat.pow_add]
      exact Nat.mul_le_mul_right _ hlo
    · rw [show p + 52 + 1 = 53 + p by omega, Nat.pow_add]
      exact Nat.mul_lt_mul_of_pos_right hhi hpow
  unfold bitLength
  rw [if_neg (by simpa using hpos), hlog]

/-- The word of a quotient that needs no rounding. -/
theorem ofScaledRatio_leading (negative : Bool) {m p : Nat} (hp : p ≤ 2045)
    (hlo : leadingWeight ≤ m) (hhi : m < 2 * leadingWeight) :
    ofScaledRatio negative (m * 2 ^ p) 1 = ofSignAndBits negative (p * leadingWeight + m) := by
  have hmin : min (p * leadingWeight + m) 0x7FF0000000000000 = p * leadingWeight + m := by
    refine Nat.min_eq_left ?_
    unfold leadingWeight at *
    omega
  unfold ofScaledRatio
  rw [Nat.div_one, bitLength_shifted hlo hhi, Nat.add_sub_cancel]
  show ofSignAndBits negative
    (min (p * leadingWeight + roundDiv (m * 2 ^ p) (1 * 2 ^ p)) 0x7FF0000000000000) = _
  rw [Nat.one_mul, roundDiv_mul m (Nat.pow_pos (by decide)), hmin]

/-- A quotient that needs no rounding. -/
theorem magnitude_ofScaledRatio (negative : Bool) {m p : Nat} (hp : p ≤ 2045)
    (hlo : leadingWeight ≤ m) (hhi : m < 2 * leadingWeight) :
    let x := ofScaledRatio negative (m * 2 ^ p) 1
    x.negative = negative ∧ x.isFinite = true ∧ x.magnitude = m * 2 ^ p := by
  obtain ⟨hnegative, hexponent, hfraction⟩ := fields_ofSignAndBits negative hp hlo hhi
  rw [ofScaledRatio_leading negative hp hlo hhi]
  refine ⟨hnegative, ?_, ?_⟩
  · unfold isFinite
    rw [hexponent, bne_iff_ne]
    omega
  · unfold magnitude significand shift
    rw [hexponent, hfraction, if_neg (by simp), Nat.add_sub_cancel' hlo, Nat.add_sub_cancel]
    rfl

/-- The unit, without its exponent as a literal. -/
theorem exists_unit : ∃ k, k = 1074 ∧ unit = 2 ^ k := by
  have hunit (k : Nat) (hk : k = 1074) : unit = 2 ^ k := by
    unfold unit
    rw [← hk]
    exact Nat.pow_eq
  exact ⟨1074, rfl, hunit 1074 rfl⟩

theorem unit_pos : 0 < unit := by
  obtain ⟨k, -, hk⟩ := exists_unit
  rw [hk]
  exact Nat.pow_pos (by decide)

/-- A positive integer of at most fifty-three bits, as a significand with its leading bit. -/
theorem exists_significand {n : Nat} (hpos : 0 < n) (h : n ≤ 2 ^ 53) :
    ∃ m p, p ≤ 2045 ∧ leadingWeight ≤ m ∧ m < 2 * leadingWeight ∧ n * unit = m * 2 ^ p := by
  obtain ⟨k, hk, hunit⟩ := exists_unit
  rw [hunit]
  clear hunit
  by_cases hn : n = 2 ^ 53
  · refine ⟨2 ^ 52, k + 1, by omega, by decide, by decide, ?_⟩
    rw [hn, ← Nat.pow_add, ← Nat.pow_add]
    congr 1
    omega
  · have hlt : n < 2 ^ 53 := Nat.lt_of_le_of_ne h hn
    have hlog : n.log2 < 53 := (Nat.log2_lt (Nat.ne_of_gt hpos)).mpr hlt
    have hlo : 2 ^ n.log2 ≤ n := Nat.log2_self_le (Nat.ne_of_gt hpos)
    have hhi : n < 2 ^ (n.log2 + 1) := Nat.lt_log2_self
    refine ⟨n * 2 ^ (52 - n.log2), n.log2 + (k - 52), by omega, ?_, ?_, ?_⟩
    · calc leadingWeight = 2 ^ n.log2 * 2 ^ (52 - n.log2) := by
            rw [← Nat.pow_add, Nat.add_sub_cancel' (by omega)]
            rfl
        _ ≤ n * 2 ^ (52 - n.log2) := Nat.mul_le_mul_right _ hlo
    · calc n * 2 ^ (52 - n.log2) < 2 ^ (n.log2 + 1) * 2 ^ (52 - n.log2) :=
            Nat.mul_lt_mul_of_pos_right hhi (Nat.pow_pos (by decide))
        _ = 2 * leadingWeight := by
            rw [← Nat.pow_add, show n.log2 + 1 + (52 - n.log2) = 53 by omega]
            rfl
    · rw [Nat.mul_assoc, ← Nat.pow_add]
      congr 2
      omega

/-- The number nearest to an integer that a significand with its leading bit makes up, in units. -/
theorem scaled_ofInt_of_leading {n : Int} {m p : Nat} (hp : p ≤ 2045) (hlo : leadingWeight ≤ m)
    (hhi : m < 2 * leadingWeight) (hm : n.natAbs * unit = m * 2 ^ p) :
    (ofInt n).isFinite = true ∧ (ofInt n).magnitude = n.natAbs * unit ∧
      (ofInt n).scaled = n * (unit : Int) := by
  obtain ⟨hnegative, hfinite, hmagnitude⟩ := magnitude_ofScaledRatio (n < 0) hp hlo hhi
  have hword : ofInt n = ofScaledRatio (n < 0) (m * 2 ^ p) 1 := by
    unfold ofInt ofRatio
    exact congrArg (ofScaledRatio (n < 0) · 1) hm
  rw [← hword] at hnegative hfinite hmagnitude
  rw [← hm] at hmagnitude
  refine ⟨hfinite, hmagnitude, ?_⟩
  unfold scaled
  rw [hmagnitude, hnegative]
  simp only [decide_eq_true_eq]
  split <;> rename_i hneg
  · rw [Int.natCast_mul, ← Int.neg_mul, Int.ofNat_natAbs_of_nonpos (Int.le_of_lt hneg),
      Int.neg_neg]
  · rw [Int.natCast_mul, Int.natAbs_of_nonneg (Int.not_lt.mp hneg)]

/-- The number nearest to an integer of at most fifty-three bits, in units. -/
theorem scaled_ofInt {n : Int} (h : n.natAbs ≤ 2 ^ 53) :
    (ofInt n).isFinite = true ∧ (ofInt n).magnitude = n.natAbs * unit ∧
      (ofInt n).scaled = n * (unit : Int) := by
  by_cases hn : n = 0
  · subst hn
    have hzero : (ofInt 0).isFinite = true ∧ (ofInt 0).magnitude = 0 := by decide +kernel
    refine ⟨hzero.1, ?_, ?_⟩
    · rw [hzero.2, Int.natAbs_zero, Nat.zero_mul]
    · unfold scaled
      rw [hzero.2, Int.zero_mul]
      split <;> rfl
  · obtain ⟨m, p, hp, hlo, hhi, hm⟩ := exists_significand (Int.natAbs_pos.mpr hn) h
    exact scaled_ofInt_of_leading hp hlo hhi hm

theorem natCast_unit_ne_zero : (unit : Int) ≠ 0 :=
  Int.natCast_ne_zero.mpr (Nat.ne_of_gt unit_pos)

/-- An integer of at most fifty-three bits and the number nearest to it. -/
theorem toInt?_ofInt {n : Int} (h : n.natAbs ≤ 2 ^ 53) : (ofInt n).toInt? = some n := by
  obtain ⟨hfinite, hmagnitude, hscaled⟩ := scaled_ofInt h
  unfold toInt?
  rw [hfinite, hmagnitude, Nat.mul_mod_left, hscaled, Int.mul_ediv_cancel n natCast_unit_ne_zero,
    beq_self_eq_true, Bool.and_self, if_pos rfl]

/-- Nothing is cut off an integer that lies between the bounds. -/
theorem clamp_ofInt {n lo hi : Int} (h : n.natAbs ≤ 2 ^ 53) (hlo : lo ≤ n) (hhi : n ≤ hi) :
    (ofInt n).clamp lo hi = n := by
  obtain ⟨hfinite, -, hscaled⟩ := scaled_ofInt h
  have hexponent : ((ofInt n).exponentField == 2047) = false := by
    unfold isFinite at hfinite
    rw [bne_iff_ne] at hfinite
    rw [beq_eq_false_iff_ne]
    exact hfinite
  have hnan : (ofInt n).isNaN = false := by
    unfold isNaN
    rw [hexponent, Bool.false_and]
  have hinfinite : (ofInt n).isInfinite = false := by
    unfold isInfinite
    rw [hexponent, Bool.false_and]
  unfold clamp
  rw [hnan, hinfinite, hscaled, Int.mul_tdiv_cancel n natCast_unit_ne_zero]
  rw [if_neg Bool.false_ne_true, if_neg Bool.false_ne_true, Int.min_eq_right hhi,
    Int.max_eq_right hlo]

theorem isNaN_of_isFinite {x : Number} (h : x.isFinite = true) : x.isNaN = false := by
  unfold isFinite at h
  unfold isNaN
  rw [beq_eq_false_iff_ne.mpr (bne_iff_ne.mp h), Bool.false_and]

theorem position_of_isFinite {x : Number} (h : x.isFinite = true) : x.position = x.scaled := by
  unfold isFinite at h
  unfold position isInfinite
  rw [beq_eq_false_iff_ne.mpr (bne_iff_ne.mp h), Bool.false_and]
  rfl

theorem toInt?_eq_some {x : Number} {n : Int} :
    x.toInt? = some n ↔ x.isFinite = true ∧ x.scaled = n * (unit : Int) := by
  have hdvd : x.magnitude % unit = 0 ↔ (unit : Int) ∣ x.scaled := by
    rw [← Nat.dvd_iff_mod_eq_zero, ← Int.natCast_dvd_natCast]
    unfold scaled
    split
    · rw [Int.dvd_neg]
    · exact Iff.rfl
  unfold toInt?
  by_cases hfinite : x.isFinite = true
  · by_cases hmod : x.magnitude % unit = 0
    · rw [hfinite, hmod, beq_self_eq_true, Bool.and_self, if_pos rfl, Option.some.injEq,
        Int.ediv_eq_iff_eq_mul_left natCast_unit_ne_zero (hdvd.mp hmod)]
      exact (and_iff_right rfl).symm
    · rw [beq_eq_false_iff_ne.mpr hmod, Bool.and_false, if_neg Bool.false_ne_true]
      refine iff_of_false nofun fun h => hmod (hdvd.mpr ?_)
      rw [h.2]
      exact Int.dvd_mul_left n unit
  · rw [Bool.eq_false_iff.mpr hfinite, Bool.false_and, if_neg Bool.false_ne_true]
    exact iff_of_false nofun fun h => Bool.false_ne_true h.1

/-- A finite number of at least one has a significand with its leading bit. -/
theorem exists_leading {x : Number} (hfinite : x.isFinite = true) (h : unit ≤ x.magnitude) :
    ∃ m p, p ≤ 2045 ∧ leadingWeight ≤ m ∧ m < 2 * leadingWeight ∧ x.magnitude = m * 2 ^ p := by
  have hfraction : x.fraction < leadingWeight := Nat.mod_lt _ (by decide)
  have hfield : x.exponentField < 2048 := Nat.mod_lt _ (by decide)
  have hne : x.exponentField ≠ 2047 := bne_iff_ne.mp hfinite
  have hexponent : x.exponentField ≠ 0 := by
    intro hzero
    have hmagnitude : x.magnitude = x.fraction := by
      unfold magnitude significand shift
      rw [hzero]
      exact Nat.mul_one _
    obtain ⟨k, hk, hunit⟩ := exists_unit
    have hlarge : leadingWeight ≤ unit := by
      rw [hunit]
      exact Nat.pow_le_pow_right (n := 2) (by decide) (show 52 ≤ k by omega)
    omega
  refine ⟨leadingWeight + x.fraction, x.exponentField - 1, by omega, Nat.le_add_right _ _, by omega,
    ?_⟩
  unfold magnitude significand shift
  rw [beq_eq_false_iff_ne.mpr hexponent, if_neg Bool.false_ne_true]
  exact congrArg _ Nat.pow_eq

/-! ## Numbers of one integer -/

theorem natAbs_scaled (x : Number) : x.scaled.natAbs = x.magnitude := by
  unfold scaled
  split
  · rw [Int.natAbs_neg, Int.natAbs_natCast]
  · exact Int.natAbs_natCast _

theorem magnitude_of_toInt? {x : Number} {n : Int} (h : x.toInt? = some n) :
    x.magnitude = n.natAbs * unit := by
  rw [← natAbs_scaled, (toInt?_eq_some.mp h).2, Int.natAbs_mul, Int.natAbs_natCast]

theorem eq_eq_true {x y : Number} :
    x.eq y = true ↔ x.isNaN = false ∧ y.isNaN = false ∧ x.position = y.position := by
  unfold eq
  simp only [Bool.and_eq_true, Bool.not_eq_true', beq_iff_eq, and_assoc]

/-- Numbers that stand for the same integer are equal. -/
theorem eq_of_toInt? {x y : Number} {n : Int} (hx : x.toInt? = some n) (hy : y.toInt? = some n) :
    x.eq y = true := by
  obtain ⟨hfx, hsx⟩ := toInt?_eq_some.mp hx
  obtain ⟨hfy, hsy⟩ := toInt?_eq_some.mp hy
  refine eq_eq_true.mpr ⟨isNaN_of_isFinite hfx, isNaN_of_isFinite hfy, ?_⟩
  rw [position_of_isFinite hfx, position_of_isFinite hfy, hsx, hsy]

/-- The number nearest to the integer a number stands for is equal to that number. -/
theorem ofInt_eq_of_toInt? {x : Number} {n : Int} (h : x.toInt? = some n) :
    (ofInt n).eq x = true := by
  have hmagnitude := magnitude_of_toInt? h
  have hnearest : (ofInt n).isFinite = true ∧ (ofInt n).scaled = n * (unit : Int) := by
    by_cases hn : n = 0
    · subst hn
      exact ⟨(scaled_ofInt (n := 0) (by decide)).1, (scaled_ofInt (n := 0) (by decide)).2.2⟩
    · have hunit : unit ≤ x.magnitude := by
        rw [hmagnitude]
        exact Nat.le_mul_of_pos_left unit (Int.natAbs_pos.mpr hn)
      obtain ⟨m, p, hp, hlo, hhi, hm⟩ := exists_leading (toInt?_eq_some.mp h).1 hunit
      have hnearest := scaled_ofInt_of_leading hp hlo hhi (hmagnitude.symm.trans hm)
      exact ⟨hnearest.1, hnearest.2.2⟩
  exact eq_of_toInt? (toInt?_eq_some.mpr hnearest) h

end Number

end ScriptBridge
