import ScriptBridge.Host.Type
import ScriptBridge.Proofs.Text.Trimmed

/-!
# Names of types

A type is written as a class name or a reserved name with its suffixes behind it. Reading such a
text gives the type back, and for no other type:

1. a suffix is what is read first, whatever stands before it (`parse_append_brackets`,
   `parse_append_mark`), so the way back follows the constructors of the type;
2. a reserved name is read as the type it is reserved for, and a text that is trimmed, not
   reserved and without suffix as the class of that name (`parse_className`);
3. reading any text stops at such a name (`wellNamed_parse`). Hence the types that are read back
   are exactly the well named ones, and a second round changes nothing.
-/

namespace ScriptBridge

namespace HostType

/-! ## Class names that can be told from other types -/

/-- Names of classes that no other type is written with. -/
structure IsClassName (n : String) : Prop where
  trimmed : Text.trimChars n.toList = n.toList
  unreserved : ∀ t ∈ reserved, t.name ≠ n
  not_nullable : ¬ ['?'] <:+ n.toList
  not_array : ¬ ['[', ']'] <:+ n.toList

instance (n : String) : Decidable (IsClassName n) :=
  decidable_of_iff
    (Text.trimChars n.toList = n.toList ∧ (∀ t ∈ reserved, t.name ≠ n) ∧
      ¬ ['?'] <:+ n.toList ∧ ¬ ['[', ']'] <:+ n.toList)
    ⟨fun ⟨h₁, h₂, h₃, h₄⟩ => ⟨h₁, h₂, h₃, h₄⟩, fun ⟨h₁, h₂, h₃, h₄⟩ => ⟨h₁, h₂, h₃, h₄⟩⟩

/-- The class name under the suffixes of a type, if there is one, can be told from other types. -/
def WellNamed : HostType → Prop
  | nullable t | array t => t.WellNamed
  | named n => IsClassName n
  | _ => True

instance decidableWellNamed : (t : HostType) → Decidable t.WellNamed
  | nullable t => decidableWellNamed t
  | array t => decidableWellNamed t
  | named n => inferInstanceAs (Decidable (IsClassName n))
  | any | bool | int _ | f32 | f64 | char | text | handle _ | void => .isTrue trivial

theorem wellNamed_of_reserved : ∀ t ∈ reserved, t.WellNamed := by decide

/-! ## Reading a suffix -/

theorem parse_append_brackets (s : String) : parse (s ++ "[]") = array (parse s) := by
  have h : Text.isBlank '[' = false := by decide
  have hs : (s ++ "[]").toList = s.toList ++ ['[', ']'] := String.toList_append
  rw [parse, hs, Text.dropWhile_append_cons h, List.reverse_append]
  rfl

theorem parse_append_mark (s : String) : parse (s ++ "?") = nullable (parse s) := by
  have h : Text.isBlank '?' = false := by decide
  have hs : (s ++ "?").toList = s.toList ++ ['?'] := String.toList_append
  rw [parse, hs, Text.dropWhile_append_cons h, List.reverse_append]
  rfl

/-! ## Reading a name without suffix -/

theorem ofName_of_unreserved {n : String} (h : ∀ t ∈ reserved, t.name ≠ n) :
    ofName n = named n := by
  have hf : reserved.find? (·.name == n) = none := by
    simpa [List.find?_eq_none] using h
  rw [ofName, hf, Option.getD_none]

theorem ofName_cases (n : String) :
    ofName n ∈ reserved ∨ (∀ t ∈ reserved, t.name ≠ n) ∧ ofName n = named n := by
  cases hf : reserved.find? (·.name == n) with
  | none =>
    have hn : ∀ t ∈ reserved, t.name ≠ n := by simpa [List.find?_eq_none] using hf
    exact .inr ⟨hn, ofName_of_unreserved hn⟩
  | some t =>
    refine .inl ?_
    rw [ofName, hf, Option.getD_some]
    exact List.mem_of_find?_eq_some hf

theorem parse_reserved : ∀ t ∈ reserved, parse t.name = t := by decide +kernel

theorem ofReversed_cons {c : Char} {rest : List Char} (hb : Text.isBlank c = false)
    (hq : c ≠ '?') (ha : ¬ [']', '['] <+: c :: rest) :
    ofReversed (c :: rest) = ofName (String.ofList (c :: rest).reverse) := by
  have hb' : ¬ Text.isBlank c = true := by simp [hb]
  rw [ofReversed, if_neg hb']
  · rintro rest' rfl rfl
    exact ha ⟨rest', rfl⟩
  · exact hq

theorem parse_className {n : String} (h : IsClassName n) : parse n = named n := by
  obtain ⟨hfirst, hlast⟩ := Text.trimChars_eq_self.mp h.trimmed
  have hq : ¬ ['?'] <+: n.toList.reverse := fun hp => h.not_nullable (List.reverse_prefix.mp hp)
  have ha : ¬ [']', '['] <+: n.toList.reverse := fun hp => h.not_array (List.reverse_prefix.mp hp)
  rw [parse, Text.dropWhile_eq_self.mpr hfirst, ← ofName_of_unreserved h.unreserved]
  rw [← List.head?_reverse] at hlast
  cases hr : n.toList.reverse with
  | nil =>
    have hn : n = "" := String.toList_inj.mp (List.reverse_eq_nil_iff.mp hr)
    rw [hn]
    rfl
  | cons c rest =>
    rw [hr] at hq ha hlast
    have hc : c ≠ '?' := by
      rintro rfl
      exact hq ⟨rest, rfl⟩
    rw [ofReversed_cons (hlast c rfl) hc ha, ← hr, List.reverse_reverse, String.ofList_toList]

/-! ## Reading any text -/

theorem isClassName_ofReversed {c : Char} {rest : List Char} (hb : Text.isBlank c = false)
    (hq : c ≠ '?') (ha : ¬ [']', '['] <+: c :: rest)
    (hlast : ∀ d ∈ (c :: rest).getLast?, Text.isBlank d = false)
    (hn : ∀ t ∈ reserved, t.name ≠ String.ofList (c :: rest).reverse) :
    IsClassName (String.ofList (c :: rest).reverse) where
  trimmed := by
    rw [String.toList_ofList, Text.trimChars_eq_self, List.head?_reverse, List.getLast?_reverse]
    exact ⟨hlast, by simpa using hb⟩
  unreserved := hn
  not_nullable := by
    rw [String.toList_ofList]
    intro hs
    have hp : ['?'] <+: c :: rest := List.reverse_suffix.mp hs
    exact hq (List.cons_prefix_cons.mp hp).1.symm
  not_array := by
    rw [String.toList_ofList]
    exact fun hs => ha (List.reverse_suffix.mp hs)

theorem isClassName_empty : IsClassName "" := by decide +kernel

/-- Where the text read from its end stops at a character that is not blank, no name under the
suffixes is blank at its front. -/
theorem wellNamed_ofReversed (l : List Char) (h : ∀ c ∈ l.getLast?, Text.isBlank c = false) :
    (ofReversed l).WellNamed := by
  fun_induction ofReversed l with
  | case1 rest ih =>
    exact ih fun c hc => h c (List.mem_getLast?_cons (List.mem_getLast?_cons hc))
  | case2 rest ih => exact ih fun c hc => h c (List.mem_getLast?_cons hc)
  | case3 c rest hnot hq hb ih => exact ih fun d hd => h d (List.mem_getLast?_cons hd)
  | case4 c rest ha hq hb =>
    obtain hr | ⟨hn, he⟩ := ofName_cases (String.ofList (c :: rest).reverse)
    · exact wellNamed_of_reserved _ hr
    · rw [he]
      refine isClassName_ofReversed (by simpa using hb) hq ?_ h hn
      rintro ⟨rest', hp⟩
      obtain ⟨hc, hr⟩ := List.cons.inj hp
      exact ha rest' hc.symm hr.symm
  | case5 => exact isClassName_empty

theorem wellNamed_parse (s : String) : (parse s).WellNamed := by
  refine wellNamed_ofReversed _ fun c hc => ?_
  rw [List.getLast?_reverse] at hc
  have h := List.head?_dropWhile_not Text.isBlank s.toList
  rw [Option.mem_def.mp hc] at h
  exact h

/-! ## The way back -/

theorem parse_name {t : HostType} (h : t.WellNamed) : parse t.name = t := by
  induction t with
  | nullable t ih => rw [name, parse_append_mark, ih h]
  | array t ih => rw [name, parse_append_brackets, ih h]
  | named n => exact parse_className h
  | int kind => cases kind <;> exact parse_reserved _ (by decide)
  | handle kind => cases kind <;> exact parse_reserved _ (by decide)
  | any | bool | f32 | f64 | char | text | void => exact parse_reserved _ (by decide)

/-- The types that are read back from their names are the well named ones, so names tell these
apart; every text names one of them, and naming and reading it again changes nothing. -/
theorem names_round_trip :
    (∀ t : HostType, parse t.name = t ↔ t.WellNamed) ∧
    (∀ t u : HostType, t.WellNamed → u.WellNamed → t.name = u.name → t = u) ∧
    ∀ s : String, (parse s).WellNamed ∧ parse (parse s).name = parse s := by
  refine ⟨fun t => ⟨fun h => ?_, parse_name⟩, fun t u ht hu he => ?_, fun s => ?_⟩
  · rw [← h]
    exact wellNamed_parse t.name
  · rw [← parse_name ht, he, parse_name hu]
  · exact ⟨wellNamed_parse s, parse_name (wellNamed_parse s)⟩

theorem names_round_trip_nested :
    let t := array (nullable (array (named "Demo.Point list")))
    t.WellNamed ∧ t.name = "Demo.Point list[]?[]" ∧ parse t.name = t ∧
      parse " Demo.Point list [] ? [] " = t := by
  intro t
  have ht : t.WellNamed := by decide +kernel
  exact ⟨ht, by decide +kernel, (names_round_trip.1 t).mpr ht, by decide +kernel⟩

end HostType

end ScriptBridge
