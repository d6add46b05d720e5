import ScriptBridge.Proofs.Number.Equality
import ScriptBridge.Proofs.Vm.Table

/-!
# What identifies an entry

Values address the same entry of a table exactly when they are equal without metamethods, so the
two zeros share one; nil and NaN address none.

* `Key.ofNumber?_eq_iff`: numbers with one key are the equal ones. An integer key beyond the range
  of exact integers is no exception: `2 ^ 63` is brought down to `2 ^ 63 - 1`, which is no number.
* `Key.ofValue?_eq_iff`: the same for values of every type.
* `Table.getInt_setInt`: a write under an integer goes to the entry of the number nearest to it. It
  is read back under an integer of sixty-four bits that is a number itself, or the greatest one
  (`getInt_setInt_of_exact`), and under no other (`getInt_setInt_of_rounded`).
-/

namespace ScriptBridge

/-- Whether a value addresses an entry of a table; nil and NaN do not. -/
def Value.isKey : Value → Bool
  | .nil => false
  | .number n => !n.isNaN
  | _ => true

namespace Key

/-! ## Numbers -/

theorem isNaN_of_toInt? {x : Number} {n : Int} (h : x.toInt? = some n) : x.isNaN = false :=
  Number.isNaN_of_isFinite (Number.toInt?_eq_some.mp h).1

theorem ofNumber?_of_toInt? {x : Number} {n : Int} (h : x.toInt? = some n)
    (hlo : minInteger ≤ n) (hhi : n ≤ maxInteger + 1) :
    ofNumber? x = some (.integer (min n maxInteger)) := by
  have hrange : (minInteger ≤ n && n ≤ maxInteger + 1) = true := by
    rw [Bool.and_eq_true, decide_eq_true_eq, decide_eq_true_eq]
    exact ⟨hlo, hhi⟩
  unfold ofNumber?
  rw [isNaN_of_toInt? h, h, if_neg Bool.false_ne_true]
  exact if_pos hrange

/-- A number is filed under an integer or under its own word. -/
theorem ofNumber?_eq_some {x : Number} {k : Key} (h : ofNumber? x = some k) :
    x.isNaN = false ∧ ((∃ n, x.toInt? = some n ∧ minInteger ≤ n ∧ n ≤ maxInteger + 1 ∧
      k = .integer (min n maxInteger)) ∨ k = .fractional x) := by
  unfold ofNumber? at h
  split at h
  · cases h
  · rename_i hnan
    refine ⟨Bool.eq_false_iff.mpr hnan, ?_⟩
    split at h
    · rename_i n hn
      split at h
      · rename_i hrange
        rw [Bool.and_eq_true, decide_eq_true_eq, decide_eq_true_eq] at hrange
        exact .inl ⟨n, hn, hrange.1, hrange.2, (Option.some.inj h).symm⟩
      · exact .inr (Option.some.inj h).symm
    · exact .inr (Option.some.inj h).symm

theorem ofNumber?_isSome {x : Number} (h : x.isNaN = false) : ∃ k, ofNumber? x = some k := by
  unfold ofNumber?
  rw [h, if_neg Bool.false_ne_true]
  split
  · split <;> exact ⟨_, rfl⟩
  · exact ⟨_, rfl⟩

/-- Numbers with one key are the equal ones. -/
theorem ofNumber?_eq_iff {x y : Number} {k : Key} (h : ofNumber? x = some k) :
    ofNumber? y = some k ↔ x.eq y = true := by
  obtain ⟨hnan, hx⟩ := ofNumber?_eq_some h
  constructor
  · intro hy
    obtain ⟨-, hy⟩ := ofNumber?_eq_some hy
    obtain ⟨n, hn, -, hnhi, rfl⟩ | rfl := hx
    · obtain ⟨m, hm, -, hmhi, heq⟩ | heq := hy
      · -- The greatest key is that of `2 ^ 63` only, as `2 ^ 63 - 1` is no number.
        have hne {z : Number} {i : Int} (hz : z.toInt? = some i) : i ≠ maxInteger := fun hi =>
          Number.toInt?_ne_of_odd (by decide) (by decide) (hi ▸ hz)
        have hn' := hne hn
        have hm' := hne hm
        have hmin := Key.integer.inj heq
        have hnm : n = m := by omega
        exact Number.eq_of_toInt? hn (hnm ▸ hm)
      · cases heq
    · obtain ⟨m, -, -, -, heq⟩ | heq := hy
      · cases heq
      · obtain rfl := Key.fractional.inj heq
        exact Number.eq_self hnan
  · intro hxy
    obtain rfl | ⟨hzx, hzy⟩ := (Number.eq_iff hnan).mp hxy
    · exact h
    · have hzero {z : Number} (hz : z.toInt? = some 0) : ofNumber? z = some (.integer 0) :=
        ofNumber?_of_toInt? hz (by decide) (by decide)
      exact (hzero hzy).trans ((hzero hzx).symm.trans h)

/-! ## Values -/

theorem ofValue?_eq_none {v : Value} : ofValue? v = none ↔ v.isKey = false := by
  cases v with
  | nil => exact iff_of_true rfl rfl
  | number n =>
    show ofNumber? n = none ↔ (!n.isNaN) = false
    cases hnan : n.isNaN with
    | true =>
      unfold ofNumber?
      rw [hnan]
      exact iff_of_true rfl rfl
    | false =>
      obtain ⟨k, hk⟩ := ofNumber?_isSome hnan
      rw [hk]
      exact iff_of_false nofun nofun
  | boolean | text | table | function | userdata => exact iff_of_false nofun nofun

theorem exists_ofValue? {v : Value} (h : v.isKey = true) : ∃ k, ofValue? v = some k := by
  refine Option.ne_none_iff_exists'.mp fun hnone => ?_
  rw [ofValue?_eq_none.mp hnone] at h
  cases h

/-- The values that address an entry are those that are equal to the key it was written under. -/
theorem ofValue?_eq_iff {a b : Value} {k : Key} (h : ofValue? a = some k) :
    ofValue? b = some k ↔ a.rawEqual b = true := by
  -- A number is filed under keys of its own, so it shares none with a value of another type.
  have hnumber {x : Number} (hx : ofNumber? x = some k) :
      (∃ n, k = .integer n) ∨ ∃ y, k = .fractional y := by
    obtain ⟨n, -, -, -, hk⟩ | hk := (ofNumber?_eq_some hx).2
    · exact .inl ⟨_, hk⟩
    · exact .inr ⟨_, hk⟩
  cases a with
  | nil => cases h
  | number x =>
    cases b with
    | number y => exact ofNumber?_eq_iff h
    | nil | boolean | text | table | function | userdata =>
      obtain ⟨n, rfl⟩ | ⟨y, rfl⟩ := hnumber h <;> exact iff_of_false nofun nofun
  | boolean | text | table | function | userdata =>
    obtain rfl := Option.some.inj h
    constructor
    · intro hb
      cases b with
      | number y => obtain ⟨n, hk⟩ | ⟨y, hk⟩ := hnumber hb <;> cases hk
      | nil | boolean | text | table | function | userdata =>
        cases hb <;> exact beq_self_eq_true _
    · intro hab
      cases b with
      | number => cases hab
      | nil | boolean | text | table | function | userdata =>
        obtain heq := beq_iff_eq.mp hab
        cases heq <;> rfl

/-! ## Integers -/

/-- The number nearest to an integer of sixty-four bits is filed under that integer if they are the
same, or if it is the greatest of them, which the next number is brought down to. -/
theorem ofValue?_ofInt_iff {n : Int} (hlo : minInteger ≤ n) (hhi : n ≤ maxInteger) :
    ofValue? (.number (Number.ofInt n)) = some (.integer n) ↔
      (Number.ofInt n).toInt? = some n ∨ n = maxInteger := by
  constructor
  · intro h
    obtain ⟨-, ⟨m, hm, -, hmhi, hkey⟩ | hkey⟩ := ofNumber?_eq_some h
    · have hmin := Key.integer.inj hkey
      by_cases hn : n = maxInteger
      · exact .inr hn
      · have hnm : m = n := by omega
        rw [hnm] at hm
        exact .inl hm
    · cases hkey
  · rintro (hn | rfl)
    · have hkey := ofNumber?_of_toInt? hn hlo (by omega)
      rwa [Int.min_eq_left hhi] at hkey
    · decide +kernel

end Key

namespace Table

variable (live : Value → Bool) (t : Table)

/-- A write under an integer goes to the entry of the number nearest to it. -/
theorem getInt_setInt (n m : Int) {value : Value} (hvalue : value.isNil = false) :
    (t.setInt n value).1.getInt live m =
      if Key.ofValue? (.number (Number.ofInt n)) = some (.integer m)
      then (t.slotFor value).read live else t.getInt live m := by
  -- The number of an integer is a variable, so that no step of the proof computes it.
  obtain ⟨number, hnumber⟩ : ∃ number, number = Number.ofInt := ⟨_, rfl⟩
  rw [← hnumber]
  cases hk : Key.ofValue? (.number (number n)) with
  | none =>
    rw [setInt_def number hnumber, if_neg nofun]
    dsimp only
    rw [hk]
  | some k =>
    rw [t.setInt_of_key number hnumber hk]
    unfold getInt getKey
    by_cases hkm : k = .integer m
    · rw [if_pos (congrArg some hkm), ← hkm, t.find?_setKey_self k _ hvalue]
    · rw [if_neg fun h => hkm (Option.some.inj h), t.find?_setKey_of_ne hkm]

variable {live t}

/-- What is written under an integer that is a number is read back under it, and under no other. -/
theorem getInt_setInt_of_exact {n : Int} (hlo : Key.minInteger ≤ n) (hhi : n ≤ Key.maxInteger)
    (hn : (Number.ofInt n).toInt? = some n ∨ n = Key.maxInteger) {value : Value}
    (hvalue : value.isNil = false) :
    (t.setInt n value).1.getInt live n = (t.slotFor value).read live ∧
      ∀ m, m ≠ n → (t.setInt n value).1.getInt live m = t.getInt live m := by
  have hkey := (Key.ofValue?_ofInt_iff hlo hhi).mpr hn
  refine ⟨?_, fun m hm => ?_⟩
  · rw [t.getInt_setInt live n n hvalue, if_pos hkey]
  · rw [t.getInt_setInt live n m hvalue, if_neg fun h => ?_]
    exact hm (Key.integer.inj (Option.some.inj (h.symm.trans hkey)))

/-- What is written under an integer that has to be rounded is not read back under it. -/
theorem getInt_setInt_of_rounded {n : Int} (hlo : Key.minInteger ≤ n) (hhi : n ≤ Key.maxInteger)
    (hn : (Number.ofInt n).toInt? ≠ some n) (hmax : n ≠ Key.maxInteger) {value : Value}
    (hvalue : value.isNil = false) :
    (t.setInt n value).1.getInt live n = t.getInt live n := by
  rw [t.getInt_setInt live n n hvalue, if_neg fun h => ?_]
  exact ((Key.ofValue?_ofInt_iff hlo hhi).mp h).elim hn hmax

-- The first integer that is no number is rounded to the even neighbour below it.
example : Key.ofValue? (.number (Number.ofInt 0x20000000000001)) =
    some (.integer 0x20000000000000) := by decide +kernel

end Table

end ScriptBridge
