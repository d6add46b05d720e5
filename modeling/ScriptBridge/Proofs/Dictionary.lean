import ScriptBridge.Dictionary

/-!
# Reading dictionaries

What a dictionary gives after a write or a removal.
-/

namespace ScriptBridge

namespace Dictionary

variable {α β : Type} [DecidableEq α] (d : Dictionary α β) (k k' : α) (v : β)

theorem get?_cons (p : α × β) :
    get? (p :: d) k = if p.1 = k then some p.2 else get? d k := by
  unfold get?
  rw [List.find?_cons]
  split
  · rename_i h
    rw [if_pos (of_decide_eq_true h)]
    rfl
  · rename_i h
    rw [if_neg (of_decide_eq_false h)]

theorem get?_insert : get? (d.insert k v) k' = if k = k' then some v else get? d k' := by
  induction d with
  | nil => exact get?_cons [] k' (k, v)
  | cons p rest ih =>
    obtain ⟨a, b⟩ := p
    unfold insert
    by_cases ha : a = k
    · rw [if_pos ha, get?_cons, get?_cons, ha]
      split <;> rfl
    · rw [if_neg ha, get?_cons, get?_cons, ih]
      by_cases hk : k = k'
      · have hak : a ≠ k' := fun h => ha (h.trans hk.symm)
        rw [if_neg hak, if_pos hk, if_pos hk]
      · rw [if_neg hk, if_neg hk]

theorem get?_erase : get? (d.erase k) k' = if k = k' then none else get? d k' := by
  unfold erase
  induction d with
  | nil =>
    split <;> rfl
  | cons p rest ih =>
    rw [List.filter_cons]
    by_cases hp : p.1 = k
    · rw [if_neg (by simp [hp]), ih, get?_cons]
      by_cases hk : k = k'
      · rw [if_pos hk, if_pos hk]
      · rw [if_neg hk, if_neg hk, if_neg (hp ▸ hk)]
    · rw [if_pos (by simp [hp]), get?_cons, ih, get?_cons]
      by_cases hk : k = k'
      · rw [if_pos hk, if_pos hk, if_neg (hk ▸ hp)]
      · rw [if_neg hk, if_neg hk]

theorem mem_of_get? {d : Dictionary α β} {k : α} {v : β} (h : get? d k = some v) :
    (k, v) ∈ d := by
  unfold get? at h
  obtain ⟨p, hp, rfl⟩ := Option.map_eq_some_iff.mp h
  have hk := List.find?_some hp
  rw [← of_decide_eq_true hk]
  exact List.mem_of_find?_eq_some hp

/-! ## Keys -/

omit [DecidableEq α] in
theorem keys_cons (p : α × β) : keys (p :: d) = p.1 :: keys d := rfl

omit [DecidableEq α] in
theorem mem_keys_of_mem {d : Dictionary α β} {k : α} {v : β} (h : (k, v) ∈ d) : k ∈ d.keys :=
  List.mem_map.mpr ⟨(k, v), h, rfl⟩

theorem get?_eq_none_iff {d : Dictionary α β} {k : α} : get? d k = none ↔ k ∉ d.keys := by
  induction d with
  | nil => simp [get?, keys]
  | cons p rest ih =>
    rw [get?_cons, keys_cons, List.mem_cons, not_or]
    by_cases hp : p.1 = k
    · simp [hp]
    · rw [if_neg hp, ih]
      simp [Ne.symm hp]

/-- In a dictionary without double keys, reading gives the pairs it has. -/
theorem get?_eq_some_iff {d : Dictionary α β} (hd : d.keys.Nodup) {k : α} {v : β} :
    get? d k = some v ↔ (k, v) ∈ d := by
  refine ⟨mem_of_get?, fun hmem => ?_⟩
  induction d with
  | nil => exact absurd hmem List.not_mem_nil
  | cons p rest ih =>
    rw [keys_cons, List.nodup_cons] at hd
    rw [get?_cons]
    rcases List.mem_cons.mp hmem with rfl | hmem
    · rw [if_pos rfl]
    · have hp : p.1 ≠ k := by
        rintro rfl
        exact hd.1 (mem_keys_of_mem hmem)
      rw [if_neg hp]
      exact ih hd.2 hmem

/-- A new key goes to the end. -/
theorem insert_of_get?_none {d : Dictionary α β} {k : α} (v : β) (h : get? d k = none) :
    d.insert k v = d ++ [(k, v)] := by
  induction d with
  | nil => rfl
  | cons p rest ih =>
    rw [get?_cons] at h
    by_cases hp : p.1 = k
    · rw [if_pos hp] at h
      exact absurd h nofun
    · rw [if_neg hp] at h
      unfold insert
      rw [if_neg hp, ih h]
      rfl

theorem mem_keys_insert {d : Dictionary α β} {k k' : α} {v : β} (h : k' ∈ (d.insert k v).keys) :
    k' = k ∨ k' ∈ d.keys := by
  by_cases hk : k' = k
  · exact .inl hk
  · by_cases hd : k' ∈ d.keys
    · exact .inr hd
    · have hget : get? (d.insert k v) k' = none := by
        rw [get?_insert, if_neg (Ne.symm hk)]
        exact get?_eq_none_iff.mpr hd
      exact absurd h (get?_eq_none_iff.mp hget)

theorem nodup_keys_insert {d : Dictionary α β} (hd : d.keys.Nodup) (k : α) (v : β) :
    (d.insert k v).keys.Nodup := by
  induction d with
  | nil => exact List.nodup_cons.mpr ⟨List.not_mem_nil, .nil⟩
  | cons p rest ih =>
    rw [keys_cons, List.nodup_cons] at hd
    unfold insert
    by_cases hp : p.1 = k
    · rw [if_pos hp, keys_cons, List.nodup_cons]
      exact ⟨hp ▸ hd.1, hd.2⟩
    · rw [if_neg hp, keys_cons, List.nodup_cons]
      refine ⟨fun hmem => ?_, ih hd.2⟩
      rcases mem_keys_insert hmem with heq | hmem
      · exact hp heq
      · exact hd.1 hmem

theorem nodup_keys_erase {d : Dictionary α β} (hd : d.keys.Nodup) (k : α) :
    (d.erase k).keys.Nodup :=
  hd.sublist (List.filter_sublist.map _)

end Dictionary

end ScriptBridge
