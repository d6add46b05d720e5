import ScriptBridge.Memory.World

/-!
# Cells by index

What reading a store gives after a cell was added, emptied or changed.
-/

namespace ScriptBridge

namespace Store

variable {α : Type} (s : Store α) (i j : Nat) (a : α)

theorem get?_eq_none {i : Nat} (h : s.next ≤ i) : s.get? i = none := by
  unfold get?
  rw [Array.getElem?_eq_none h]
  rfl

theorem lt_next {i : Nat} {a : α} (h : s.get? i = some a) : i < s.next := by
  refine Nat.lt_of_not_le fun hle => ?_
  rw [s.get?_eq_none hle] at h
  cases h

theorem contains_eq : s.contains i = (s.get? i).isSome := rfl

theorem lt_next_of_contains {i : Nat} (h : s.contains i = true) : i < s.next := by
  rw [contains_eq] at h
  obtain ⟨a, ha⟩ := Option.isSome_iff_exists.mp h
  exact s.lt_next ha

/-- The cells of a store without any hold nothing. -/
theorem not_mem_refs_empty (f : α → List Ref) (r : Ref) :
    r ∉ ((({} : Store α).get? i).map f).getD [] := by
  rw [get?_eq_none _ (Nat.zero_le i)]
  exact List.not_mem_nil

theorem get?_add : (s.add a).get? i = if i = s.next then some a else s.get? i := by
  unfold get? add next
  rw [Array.getElem?_push]
  split
  · rfl
  · rfl

theorem get?_add_next : (s.add a).get? s.next = some a := by rw [get?_add, if_pos rfl]

theorem get?_add_of_lt {i : Nat} (h : i < s.next) : (s.add a).get? i = s.get? i := by
  rw [get?_add, if_neg (Nat.ne_of_lt h)]

theorem next_add : (s.add a).next = s.next + 1 :=
  Array.size_push (some a)

theorem get?_erase : (s.erase i).get? j = if i = j then none else s.get? j := by
  unfold get? erase
  rw [Array.getElem?_setIfInBounds]
  split
  · split <;> rfl
  · rfl

theorem get?_erase_of_ne {i j : Nat} (h : i ≠ j) : (s.erase i).get? j = s.get? j := by
  rw [get?_erase, if_neg h]

theorem get?_of_erase {i j : Nat} {a : α} (h : (s.erase i).get? j = some a) :
    s.get? j = some a := by
  rw [get?_erase] at h
  split at h
  · cases h
  · exact h

theorem contains_erase {i j : Nat} (h : (s.erase i).contains j = true) :
    i ≠ j ∧ s.contains j = true := by
  rw [contains_eq, get?_erase] at h
  split at h
  · cases h
  · rename_i hne
    exact ⟨hne, h⟩

theorem get?_erase_of_not_contains (h : s.contains i = false) : (s.erase i).get? j = s.get? j := by
  rw [get?_erase]
  split
  · rename_i hi
    subst hi
    exact (Option.not_isSome_iff_eq_none.mp (Bool.eq_false_iff.mp h)).symm
  · rfl

theorem next_erase : (s.erase i).next = s.next := Array.size_setIfInBounds

theorem get?_modify (f : α → α) :
    (s.modify i f).get? j = if i = j then (s.get? j).map f else s.get? j := by
  unfold get? modify
  rw [Array.getElem?_modify]
  split
  · cases s.cells[j]? with
    | none => rfl
    | some c => rfl
  · rfl

theorem get?_modify_of_ne {i j : Nat} (f : α → α) (h : i ≠ j) :
    (s.modify i f).get? j = s.get? j := by
  rw [get?_modify, if_neg h]

theorem next_modify (f : α → α) : (s.modify i f).next = s.next := Array.size_modify

/-- A later store, in which the cells that are still there hold what they held. -/
structure SameContents (s s' : Store α) : Prop where
  next : s.next ≤ s'.next
  get? : ∀ i a, i < s.next → s'.get? i = some a → s.get? i = some a

namespace SameContents

variable {s s' s'' : Store α}

theorem refl (s : Store α) : s.SameContents s := ⟨Nat.le_refl _, fun _ _ _ h => h⟩

theorem trans (h : s.SameContents s') (h' : s'.SameContents s'') : s.SameContents s'' where
  next := Nat.le_trans h.next h'.next
  get? i a hi ha := h.get? i a hi (h'.get? i a (Nat.lt_of_lt_of_le hi h.next) ha)

end SameContents

theorem sameContents_add : s.SameContents (s.add a) where
  next := by
    rw [next_add]
    exact Nat.le_succ _
  get? i b hi h := by
    rw [get?_add_of_lt _ _ hi] at h
    exact h

theorem sameContents_erase : s.SameContents (s.erase i) where
  next := Nat.le_of_eq (s.next_erase i).symm
  get? _ _ _ h := s.get?_of_erase h

/-- A test passes somewhere exactly when a cell passes it. -/
theorem any_eq_true (p : α → Bool) : s.any p = true ↔ ∃ i a, s.get? i = some a ∧ p a = true := by
  unfold any get?
  rw [Array.any_eq_true]
  constructor
  · rintro ⟨i, hi, h⟩
    cases hc : s.cells[i] with
    | none =>
      rw [hc] at h
      cases h
    | some a =>
      rw [hc] at h
      refine ⟨i, a, ?_, h⟩
      rw [Array.getElem?_eq_getElem hi, hc]
      rfl
  · rintro ⟨i, a, h, hp⟩
    cases hc : s.cells[i]? with
    | none =>
      rw [hc] at h
      cases h
    | some c =>
      rw [hc] at h
      obtain ⟨hi, hget⟩ := Array.getElem?_eq_some_iff.mp hc
      refine ⟨i, hi, ?_⟩
      rw [hget]
      cases c with
      | none => cases h
      | some b =>
        cases h
        exact hp

theorem foldl_measure (f : α → Nat) (l : List (Option α)) (n : Nat) :
    l.foldl (fun n c => n + (c.map f).getD 0) n =
      n + l.foldl (fun n c => n + (c.map f).getD 0) 0 := by
  induction l generalizing n with
  | nil => rfl
  | cons c rest ih =>
    rw [List.foldl_cons, List.foldl_cons, ih, ih (0 + _), Nat.zero_add, Nat.add_assoc]

/-- Emptying a cell takes its measure off the sum. -/
theorem sum_erase (f : α → Nat) : (s.erase i).sum f + ((s.get? i).map f).getD 0 = s.sum f := by
  have hlist (l : List (Option α)) (i : Nat) :
      (l.set i none).foldl (fun n c => n + (c.map f).getD 0) 0 + ((l[i]?.join).map f).getD 0 =
        l.foldl (fun n c => n + (c.map f).getD 0) 0 := by
    induction l generalizing i with
    | nil => rfl
    | cons c rest ih =>
      rw [List.foldl_cons, foldl_measure f rest]
      cases i with
      | zero =>
        rw [List.set_cons_zero, List.foldl_cons, foldl_measure f rest, Nat.add_comm]
        rw [Option.map_none, Option.getD_none, Nat.zero_add, Nat.zero_add]
        rfl
      | succ i =>
        rw [List.set_cons_succ, List.foldl_cons, foldl_measure, List.getElem?_cons_succ,
          Nat.add_assoc, ih]
  unfold sum erase get?
  rw [← Array.foldl_toList, ← Array.foldl_toList, Array.toList_setIfInBounds,
    ← Array.getElem?_toList]
  exact hlist _ _

end Store

end ScriptBridge
