import Mathlib.Data.List.Infix
import ScriptBridge.Text.Blank

/-!
# Trimmed text

When trimming leaves a text alone.
-/

namespace ScriptBridge.Text

theorem dropWhile_append_cons {p : Char → Bool} {c : Char} (hc : p c = false) (l m : List Char) :
    (l ++ c :: m).dropWhile p = l.dropWhile p ++ c :: m := by
  rw [List.dropWhile_append]
  split
  · next h => simp [List.isEmpty_iff.mp h, hc]
  · rfl

theorem dropWhile_eq_self {p : Char → Bool} {l : List Char} :
    l.dropWhile p = l ↔ ∀ c ∈ l.head?, p c = false := by
  cases l with
  | nil => simp
  | cons c rest =>
    have hne : rest.dropWhile p ≠ c :: rest := fun h => by
      have := (List.dropWhile_suffix p (l := rest)).length_le
      rw [h, List.length_cons] at this
      omega
    cases hc : p c <;> simp [hc, hne]

/-- Trimmed text neither begins nor ends with a blank character. -/
theorem trimChars_eq_self {l : List Char} :
    trimChars l = l ↔
      (∀ c ∈ l.head?, isBlank c = false) ∧ ∀ c ∈ l.getLast?, isBlank c = false := by
  rw [← dropWhile_eq_self, ← List.head?_reverse, ← dropWhile_eq_self]
  constructor
  · intro h
    have hle := (List.dropWhile_suffix isBlank (l := l)).length_le
    have hle' := (List.dropWhile_suffix isBlank
      (l := (l.dropWhile isBlank).reverse)).length_le
    have hlen : (trimChars l).length = l.length := congrArg _ h
    rw [trimChars, List.length_reverse] at hlen
    rw [List.length_reverse] at hle'
    have hl : l.dropWhile isBlank = l :=
      (List.dropWhile_suffix isBlank).eq_of_length (by omega)
    rw [trimChars, hl, List.reverse_eq_iff] at h
    exact ⟨hl, h⟩
  · rintro ⟨hl, hr⟩
    rw [trimChars, hl, hr, List.reverse_reverse]

end ScriptBridge.Text
