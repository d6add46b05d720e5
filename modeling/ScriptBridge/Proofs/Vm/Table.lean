import ScriptBridge.Proofs.Number.Integral
import ScriptBridge.Vm.Table

/-!
# Reading what was written into a table

A write changes the entry of its key only. Integers of at most fifty-three bits are keys of their
own, so a write under one of them is seen by reads under the same integer and by no others.
-/

namespace ScriptBridge

namespace Key

/-- An integer that a number holds exactly is its own key. -/
theorem ofValue?_ofInt {n : Int} (h : n.natAbs ≤ 2 ^ 53) :
    ofValue? (.number (Number.ofInt n)) = some (.integer n) := by
  have hint := Number.toInt?_ofInt h
  have hnan : (Number.ofInt n).isNaN = false := by
    unfold Number.toInt? at hint
    split at hint
    · rename_i hfinite
      unfold Number.isNaN
      have hexponent := bne_iff_ne.mp (Bool.and_eq_true_iff.mp hfinite).1
      rw [beq_false_of_ne hexponent, Bool.false_and]
    · cases hint
  show ofNumber? (Number.ofInt n) = _
  unfold ofNumber?
  rw [hnan, hint]
  have hrange : (minInteger ≤ n && n ≤ maxInteger + 1) = true := by
    unfold minInteger maxInteger
    simp only [Bool.and_eq_true, decide_eq_true_eq]
    omega
  have hmin : min n maxInteger = n := by
    unfold maxInteger
    omega
  dsimp only
  rw [if_neg Bool.false_ne_true, if_pos hrange, hmin]

end Key

namespace Table

variable (live : Value → Bool)

/-! ## Entries -/

theorem find?_cons_key (e : Entry) (k : Key) (rest : List Entry) :
    (e :: rest).find? (·.key == k) = if e.key = k then some e else rest.find? (·.key == k) := by
  rw [List.find?_cons]
  by_cases h : e.key = k
  · rw [if_pos h, beq_iff_eq.mpr h]
  · rw [if_neg h, beq_false_of_ne h]

theorem find?_putEntry_self (e : Entry) (entries : List Entry) :
    (putEntry e entries).find? (·.key == e.key) = some e := by
  induction entries with
  | nil =>
    unfold putEntry
    rw [find?_cons_key, if_pos rfl]
  | cons e' rest ih =>
    unfold putEntry
    split
    · rw [find?_cons_key, if_pos rfl]
    · rename_i hne
      rw [find?_cons_key, if_neg fun h => hne (beq_iff_eq.mpr h)]
      exact ih

theorem find?_putEntry_of_ne {e : Entry} {k : Key} (h : e.key ≠ k) (entries : List Entry) :
    (putEntry e entries).find? (·.key == k) = entries.find? (·.key == k) := by
  induction entries with
  | nil =>
    unfold putEntry
    rw [find?_cons_key, if_neg h]
  | cons e' rest ih =>
    unfold putEntry
    split
    · rename_i he
      have hne : e'.key ≠ k := fun hk => h ((beq_iff_eq.mp he).symm.trans hk)
      rw [find?_cons_key, find?_cons_key, if_neg h, if_neg hne]
    · rw [find?_cons_key, find?_cons_key, ih]

theorem eraseP_cons_key (e : Entry) (k : Key) (rest : List Entry) :
    (e :: rest).eraseP (·.key == k) =
      if e.key = k then rest else e :: rest.eraseP (·.key == k) := by
  rw [List.eraseP_cons]
  by_cases h : e.key = k
  · rw [if_pos h, beq_iff_eq.mpr h, cond_true]
  · rw [if_neg h, beq_false_of_ne h, cond_false]

theorem find?_eraseP_of_ne {k k' : Key} (h : k ≠ k') (entries : List Entry) :
    (entries.eraseP (·.key == k)).find? (·.key == k') = entries.find? (·.key == k') := by
  induction entries with
  | nil => rfl
  | cons e rest ih =>
    by_cases he : e.key = k
    · have hne : e.key ≠ k' := fun hk => h (he.symm.trans hk)
      rw [eraseP_cons_key, if_pos he, find?_cons_key, if_neg hne]
    · rw [eraseP_cons_key, if_neg he, find?_cons_key, find?_cons_key, ih]

theorem keys_putEntry (e : Entry) (entries : List Entry) :
    ∀ k ∈ (putEntry e entries).map Entry.key, k = e.key ∨ k ∈ entries.map Entry.key := by
  induction entries with
  | nil =>
    intro k hk
    exact .inl (List.mem_singleton.mp hk)
  | cons e' rest ih =>
    intro k hk
    unfold putEntry at hk
    split at hk
    · obtain hk | hk := List.mem_cons.mp hk
      · exact .inl hk
      · exact .inr (List.mem_cons_of_mem _ hk)
    · obtain rfl | hk := List.mem_cons.mp hk
      · exact .inr List.mem_cons_self
      · exact (ih k hk).imp_right (List.mem_cons_of_mem _)

theorem eq_or_mem_of_putEntry {e e' : Entry} {entries : List Entry} (h : e' ∈ putEntry e entries) :
    e' = e ∨ e' ∈ entries := by
  induction entries with
  | nil => exact .inl (List.mem_singleton.mp h)
  | cons e'' rest ih =>
    unfold putEntry at h
    split at h
    · exact (List.mem_cons.mp h).imp_right (List.mem_cons_of_mem _)
    · obtain rfl | h := List.mem_cons.mp h
      · exact .inr List.mem_cons_self
      · exact (ih h).imp_right (List.mem_cons_of_mem _)

theorem nodup_putEntry (e : Entry) {entries : List Entry} (h : (entries.map Entry.key).Nodup) :
    ((putEntry e entries).map Entry.key).Nodup := by
  induction entries with
  | nil => exact List.nodup_cons.mpr ⟨List.not_mem_nil, .nil⟩
  | cons e' rest ih =>
    rw [List.map_cons, List.nodup_cons] at h
    unfold putEntry
    split
    · rename_i he
      rw [List.map_cons, List.nodup_cons, ← beq_iff_eq.mp he]
      exact h
    · rename_i he
      rw [List.map_cons, List.nodup_cons]
      refine ⟨fun hk => ?_, ih h.2⟩
      obtain hk | hk := keys_putEntry e rest _ hk
      · exact he (beq_iff_eq.mpr hk)
      · exact h.1 hk

/-- In a list without double keys the entry of a key that was removed is gone. -/
theorem find?_eraseP_self (k : Key) {entries : List Entry}
    (h : (entries.map Entry.key).Nodup) :
    (entries.eraseP (·.key == k)).find? (·.key == k) = none := by
  induction entries with
  | nil => rfl
  | cons e rest ih =>
    rw [List.map_cons, List.nodup_cons] at h
    by_cases he : e.key = k
    · rw [eraseP_cons_key, if_pos he, List.find?_eq_none]
      intro e' he' hk
      exact h.1 (he ▸ beq_iff_eq.mp hk ▸ List.mem_map_of_mem he')
    · rw [eraseP_cons_key, if_neg he, find?_cons_key, if_neg he]
      exact ih h.2

/-! ## Writes -/

variable (t : Table)

/-- A write leaves the entries of other keys. -/
theorem find?_setKey_of_ne {k k' : Key} (h : k ≠ k') (key value : Value) :
    (t.setKey k key value).1.find? k' = t.find? k' := by
  unfold setKey find?
  dsimp only
  split
  · exact find?_eraseP_of_ne h _
  · exact find?_putEntry_of_ne h _

/-- A write of a value makes the entry of its key. -/
theorem find?_setKey_self (k : Key) (key : Value) {value : Value} (h : value.isNil = false) :
    (t.setKey k key value).1.find? k = some ⟨k, key, t.slotFor value⟩ := by
  unfold setKey find?
  dsimp only
  rw [h]
  exact find?_putEntry_self ⟨k, key, t.slotFor value⟩ _

-- The number of an integer is a variable here, so that no step of a proof computes it.
theorem setInt_def (number : Int → Number) (h : number = Number.ofInt) :
    @Table.setInt = fun t n value =>
      match Key.ofValue? (.number (number n)) with
      | some k => t.setKey k (.number (number n)) value
      | none => (t, []) := by
  subst h
  rfl

theorem setInt_of_key (number : Int → Number) (h : number = Number.ofInt) {n : Int} {k : Key}
    (hk : Key.ofValue? (.number (number n)) = some k) (value : Value) :
    t.setInt n value = t.setKey k (.number (number n)) value := by
  rw [setInt_def number h]
  dsimp only
  rw [hk]

theorem setInt_eq {n : Int} (h : n.natAbs ≤ 2 ^ 53) (value : Value) :
    t.setInt n value = t.setKey (.integer n) (.number (Number.ofInt n)) value :=
  t.setInt_of_key _ rfl (Key.ofValue?_ofInt h) value

theorem weakValues_setKey (k : Key) (key value : Value) :
    (t.setKey k key value).1.weakValues = t.weakValues := rfl

/-- A value that is there is read back from the slot it was written into. -/
theorem read_slotFor {live : Value → Bool} {v : Value} (h : live v = true) :
    (t.slotFor v).read live = v := by
  have hweak : (Slot.weak v).read live = v := if_pos h
  unfold slotFor
  cases v with
  | table _ | userdata _ =>
    dsimp only
    split
    · exact hweak
    · rfl
  | _ => rfl

/-! ## Counting -/

/-- Integers with a value have entries of their own. -/
theorem le_length_of_getInt {n : Nat} (h : ∀ i < n, (t.getInt live (i + 1)).isNil = false) :
    n ≤ t.entries.length := by
  let keys := (List.range n).map fun i : Nat => Key.integer (i + 1)
  have hnodup : keys.Nodup := by
    refine List.Nodup.map (fun i j he => ?_) List.nodup_range
    have he := Key.integer.inj he
    omega
  have hsub : keys ⊆ t.entries.map Entry.key := by
    intro k hk
    obtain ⟨i, hi, rfl⟩ := List.mem_map.mp hk
    have hvalue := h i (List.mem_range.mp hi)
    unfold getInt getKey at hvalue
    cases hfind : t.find? (.integer (i + 1)) with
    | none =>
      rw [hfind] at hvalue
      cases hvalue
    | some e =>
      have hkey : (e.key == .integer (i + 1)) = true :=
        @List.find?_some _ (fun e : Entry => e.key == .integer (i + 1)) _ _ hfind
      rw [← beq_iff_eq.mp hkey]
      exact List.mem_map_of_mem (List.mem_of_find?_eq_some hfind)
  have hlength := (List.subperm_of_subset hnodup hsub).length_le
  rwa [List.length_map, List.length_map, List.length_range] at hlength

end Table

end ScriptBridge
