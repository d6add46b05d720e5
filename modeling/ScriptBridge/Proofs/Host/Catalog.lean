import ScriptBridge.Bridge.Conversion
import ScriptBridge.Proofs.Dictionary

/-!
# Catalogs that grow by array classes

Each class stands under its own name, and an array class that joins a catalog has no parents, so
it changes neither what is assignable to what nor the classes that were there before.
-/

namespace ScriptBridge

/-- Each class stands under its own name. -/
def Catalog.IsKeyed (c : Catalog) : Prop := ∀ n cls, c.find? n = some cls → cls.name = n

/-- A catalog that only array classes joined. -/
inductive Catalog.Grows : Catalog → Catalog → Prop where
  | refl (c : Catalog) : Grows c c
  | array {c c' : Catalog} (h : Grows c c') (element : HostType) :
      Grows c (c'.arrayClass element).2

theorem Catalog.Grows.trans {c₁ c₂ c₃ : Catalog} (h : c₁.Grows c₂) (h' : c₂.Grows c₃) :
    c₁.Grows c₃ := by
  induction h' with
  | refl => exact h
  | array _ e ih => exact ih.array e

namespace Catalog

variable {c c' : Catalog}

/-! ## Looking up a class -/

theorem find?_register (c : Catalog) (cls : Class) (n : String) :
    (c.register cls).find? n = if cls.name = n then some cls else c.find? n :=
  Dictionary.get?_insert c.classes cls.name n cls

theorem IsKeyed.register (h : c.IsKeyed) (cls : Class) : (c.register cls).IsKeyed := by
  intro n cls' hn
  rw [find?_register] at hn
  split at hn
  · rename_i hname
    cases hn
    exact hname
  · exact h n cls' hn

theorem isKeyed_initial : initial.IsKeyed := by
  intro n cls hn
  have hmem := Dictionary.mem_of_get? hn
  unfold initial at hmem
  obtain ⟨cls', -, he⟩ := List.mem_map.mp hmem
  cases he
  rfl

theorem IsKeyed.arrayClass (h : c.IsKeyed) (e : HostType) : (c.arrayClass e).2.IsKeyed := by
  unfold Catalog.arrayClass
  cases c.find? (HostType.array e).name with
  | none => exact h.register _
  | some cls => exact h

theorem IsKeyed.grows (h : c.IsKeyed) (hg : c.Grows c') : c'.IsKeyed := by
  induction hg with
  | refl => exact h
  | array _ e ih => exact ih.arrayClass e

/-- The array class of an element type has its name. -/
theorem arrayClass_name (h : c.IsKeyed) (e : HostType) :
    (c.arrayClass e).1.name = (HostType.array e).name := by
  unfold Catalog.arrayClass
  cases hf : c.find? (HostType.array e).name with
  | none => rfl
  | some cls => exact h _ _ hf

/-- An array class joins only if its name is free, and it has no parents. -/
theorem find?_arrayClass (c : Catalog) (e : HostType) (n : String) :
    (c.arrayClass e).2.find? n = c.find? n ∨
      (c.find? n = none ∧ (c.arrayClass e).2.find? n = some (ScriptBridge.arrayClass e)) := by
  unfold Catalog.arrayClass
  cases hf : c.find? (HostType.array e).name with
  | some cls => exact .inl rfl
  | none =>
    show (c.register _).find? n = _ ∨ _ ∧ (c.register _).find? n = _
    rw [find?_register]
    split
    · rename_i hn
      have hname : (HostType.array e).name = n := hn
      exact .inr ⟨hname ▸ hf, rfl⟩
    · exact .inl rfl

/-- Only classes of arrays join a catalog that grows. -/
theorem find?_grows (h : c.Grows c') (n : String) : c'.find? n = c.find? n ∨
    (c.find? n = none ∧ ∃ e, c'.find? n = some (ScriptBridge.arrayClass e)) := by
  induction h with
  | refl => exact .inl rfl
  | @array c' _ e ih =>
    obtain hf | ⟨hnone, hsome⟩ := c'.find?_arrayClass e n
    · rw [hf]
      exact ih
    · obtain hf | ⟨-, e', hsome'⟩ := ih
      · exact .inr ⟨hf ▸ hnone, e, hsome⟩
      · rw [hsome'] at hnone
        cases hnone

/-! ## Assignability -/

theorem reaches_arrayClass (c : Catalog) (e : HostType) (target : String) (fuel : Nat)
    (names : List String) :
    (c.arrayClass e).2.reaches target fuel names = c.reaches target fuel names := by
  induction fuel generalizing names with
  | zero => rfl
  | succ fuel ih =>
    cases names with
    | nil => rfl
    | cons name pending =>
      unfold reaches
      rw [ih]
      obtain hf | ⟨hnone, hsome⟩ := c.find?_arrayClass e name
      · rw [hf]
      · rw [hnone, hsome]
        rfl

theorem isAssignable_grows (h : c.Grows c') (target : String) (cls : Class) :
    c'.isAssignable target cls = c.isAssignable target cls := by
  induction h with
  | refl => rfl
  | array _ e ih =>
    rw [← ih]
    unfold isAssignable
    rw [reaches_arrayClass]

/-- Growing changes nothing about which objects fit which types. -/
theorem fits_grows (h : c.Grows c') (o : HostObject) (t : HostType) :
    c'.fits o t = c.fits o t := by
  unfold fits
  cases t.unwrapNullable with
  | named n => exact isAssignable_grows h n o.cls
  | _ => rfl

theorem isAssignable_self (c : Catalog) (cls : Class) : c.isAssignable cls.name cls = true := by
  unfold isAssignable
  rw [beq_self_eq_true, Bool.or_true, Bool.true_or]

end Catalog

end ScriptBridge
