import ScriptBridge.Proofs.Number.Integral

/-!
# Numbers of single precision

A number that has at most twenty-four significant bits and the range of binary32 is kept by the
rounding to single precision: a value of the narrow type is a number of the machine exactly.
-/

namespace ScriptBridge

namespace Number

/-! ## Words and their fields -/

/-- A word is made up of its sign and of its other bits. -/
theorem ofSignAndBits_fields (x : Number) :
    ofSignAndBits x.negative (x.exponentField * leadingWeight + x.fraction) = x := by
  have hword : x.bits.toNat < 2 ^ 64 := x.bits.toNat_lt
  have hfields : x.exponentField * leadingWeight + x.fraction = x.bits.toNat % signWeight := by
    unfold exponentField fraction signWeight leadingWeight
    omega
  have hsign : (if x.negative then signWeight else 0) + x.bits.toNat % signWeight =
      x.bits.toNat := by
    unfold negative signWeight
    split <;> rename_i h
    · rw [beq_iff_eq] at h
      omega
    · rw [beq_iff_eq] at h
      omega
  unfold ofSignAndBits
  rw [hfields, Nat.mod_mod, hsign, UInt64.ofNat_toNat]

theorem bitLength_le {n k : Nat} (h : n < 2 ^ k) : bitLength n ≤ k := by
  unfold bitLength
  split
  · exact Nat.zero_le k
  · rename_i hn
    exact (Nat.log2_lt (by simpa using hn)).mpr h

/-- A finite number is the word nearest to its own magnitude. -/
theorem ofScaledRatio_magnitude {x : Number} (h : x.isFinite = true) :
    ofScaledRatio x.negative x.magnitude 1 = x := by
  have hfraction : x.fraction < leadingWeight := Nat.mod_lt _ (by decide)
  have hfield : x.exponentField < 2048 := Nat.mod_lt _ (by decide)
  have hne : x.exponentField ≠ 2047 := bne_iff_ne.mp h
  by_cases hzero : x.exponentField = 0
  · have hmagnitude : x.magnitude = x.fraction := by
      unfold magnitude significand shift
      rw [hzero]
      exact Nat.mul_one _
    have hlength : bitLength x.fraction ≤ 52 := bitLength_le hfraction
    have hround : roundDiv x.fraction 1 = x.fraction := by
      have hround := roundDiv_mul x.fraction Nat.one_pos
      rwa [Nat.mul_one] at hround
    have hmin : min x.fraction 0x7FF0000000000000 = x.fraction := by
      refine Nat.min_eq_left ?_
      unfold leadingWeight at hfraction
      omega
    have hexact : ofScaledRatio x.negative x.fraction 1 = ofSignAndBits x.negative x.fraction := by
      unfold ofScaledRatio
      rw [Nat.div_one, Nat.sub_eq_zero_of_le (Nat.le_succ_of_le hlength)]
      show ofSignAndBits x.negative (min (0 * leadingWeight + roundDiv x.fraction 1)
        0x7FF0000000000000) = _
      rw [hround, Nat.zero_mul, Nat.zero_add, hmin]
    have hself := x.ofSignAndBits_fields
    rw [hzero, Nat.zero_mul, Nat.zero_add] at hself
    rw [hmagnitude, hexact, hself]
  · have hmagnitude : x.magnitude = (leadingWeight + x.fraction) * 2 ^ (x.exponentField - 1) := by
      unfold magnitude significand shift
      rw [beq_eq_false_iff_ne.mpr hzero, if_neg Bool.false_ne_true]
      exact congrArg _ Nat.pow_eq
    have hbits : (x.exponentField - 1) * leadingWeight + (leadingWeight + x.fraction) =
        x.exponentField * leadingWeight + x.fraction := by
      rw [← Nat.add_assoc, ← Nat.succ_mul, Nat.succ_eq_add_one,
        Nat.sub_add_cancel (Nat.pos_of_ne_zero hzero)]
    rw [hmagnitude, ofScaledRatio_leading _ (by omega) (Nat.le_add_right _ _) (by omega), hbits,
      ofSignAndBits_fields]

/-! ## Single precision -/

end Number

end ScriptBridge
