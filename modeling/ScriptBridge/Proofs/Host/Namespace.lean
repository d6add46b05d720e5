import ScriptBridge.Options
import ScriptBridge.Proofs.Host.Catalog

/-!
# Namespaces

A namespace consists of the parts between its points. What the blacklist covers is a matter of
parts: an entry covers the namespaces whose parts begin with its own, and no neighbour that merely
begins with the same text. Suffixes of type names have no points, so arrays and nullable types of a
class are in the namespace of the class.
-/

namespace ScriptBridge

/-! ## Parts -/

/-- What stands between the points of a name. -/
def nameParts (name : String) : List (List Char) := name.toList.splitOn '.'

section

variable {α : Type} [BEq α] [LawfulBEq α] {a x : α} {l : List α}

theorem splitOn_cons_self : (a :: l).splitOn a = [] :: l.splitOn a := by
  rw [List.splitOn_eq_splitOnP, List.splitOnP_cons_eq_if_modifyHead, if_pos BEq.rfl,
    List.splitOn_eq_splitOnP]

theorem splitOn_cons_of_ne (h : x ≠ a) :
    (x :: l).splitOn a = (l.splitOn a).modifyHead (List.cons x) := by
  rw [List.splitOn_eq_splitOnP, List.splitOnP_cons_eq_if_modifyHead,
    if_neg (by simpa using h), List.splitOn_eq_splitOnP]

/-- The first part begins with the first element, unless that separates. -/
theorem nil_prefix_splitOn : [[]] <+: l.splitOn a ↔ l = [] ∨ [a] <+: l := by
  cases l with
  | nil => simp [List.splitOn_nil]
  | cons x rest =>
    by_cases hx : x = a
    · subst hx
      simp [splitOn_cons_self]
    · obtain ⟨part, parts, he⟩ := List.exists_cons_of_ne_nil (List.splitOn_ne_nil a rest)
      simp [splitOn_cons_of_ne hx, he, Ne.symm hx]

/-- Parts begin with the parts of a list if the list is the whole or goes on with a separator. -/
theorem splitOn_prefix_iff (p : List α) :
    p.splitOn a <+: l.splitOn a ↔ p = l ∨ p ++ [a] <+: l := by
  induction p generalizing l with
  | nil =>
    rw [List.splitOn_nil, nil_prefix_splitOn]
    exact or_congr_left eq_comm
  | cons y p ih =>
    obtain ⟨part, parts, hp⟩ := List.exists_cons_of_ne_nil (List.splitOn_ne_nil a p)
    cases l with
    | nil =>
      by_cases hy : y = a
      · subst hy
        simp [splitOn_cons_self, hp, List.splitOn_nil]
      · simp [splitOn_cons_of_ne hy, hp, List.splitOn_nil]
    | cons x l =>
      obtain ⟨part', parts', hl⟩ := List.exists_cons_of_ne_nil (List.splitOn_ne_nil a l)
      have ih := ih (l := l)
      by_cases hy : y = a
      · subst hy
        by_cases hx : x = y
        · subst hx
          simpa [splitOn_cons_self] using ih
        · simp [splitOn_cons_self, splitOn_cons_of_ne hx, hl, Ne.symm hx]
      · by_cases hx : x = a
        · subst hx
          simp [splitOn_cons_self, splitOn_cons_of_ne hy, hp, hy]
        · rw [hp, hl] at ih
          simp only [splitOn_cons_of_ne hy, splitOn_cons_of_ne hx, hp, hl, List.modifyHead_cons,
            List.cons_append, List.cons_prefix_cons, List.cons.injEq, and_assoc]
          rw [List.cons_prefix_cons] at ih
          by_cases hxy : y = x
          · simpa [hxy] using ih
          · simp [hxy]

end

namespace Options

/-- A namespace is blacklisted exactly when its parts begin with the parts of an entry. -/
theorem isBlacklisted_iff (o : Options) (namespaceName : String) :
    o.isBlacklisted namespaceName = true ↔
      ∃ entry ∈ o.blacklistedNamespaces, nameParts entry <+: nameParts namespaceName := by
  unfold isBlacklisted
  rw [List.any_eq_true]
  refine exists_congr fun entry => and_congr_right fun _ => ?_
  rw [Bool.or_eq_true, beq_iff_eq, List.isPrefixOf_iff_prefix]
  unfold nameParts
  rw [splitOn_prefix_iff, String.toList_inj]
  exact or_congr_left eq_comm

/-- A neighbour that begins with the same text is another namespace. -/
example : ({ blacklistedNamespaces := ["demo.secret"] } : Options).isBlacklisted "demo.secrets" =
      false ∧
    ({ blacklistedNamespaces := ["demo.secret"] } : Options).isBlacklisted "demo.secret.inner" =
      true := by
  decide

end Options

/-! ## Array classes -/

/-- Text without points behind a name leaves its namespace. -/
theorem splitAtLastDot_append {suffix : String} (name : String) (h : '.' ∉ suffix.toList) :
    (splitAtLastDot (name ++ suffix)).1 = (splitAtLastDot name).1 := by
  have hrest : (name ++ suffix).toList.reverse.dropWhile (· != '.') =
      name.toList.reverse.dropWhile (· != '.') := by
    rw [String.toList_append, List.reverse_append]
    refine List.dropWhile_append_of_pos fun c hc => ?_
    rw [bne_iff_ne]
    rintro rfl
    exact h (List.mem_reverse.mp hc)
  unfold splitAtLastDot
  rw [hrest]
  dsimp only
  split <;> rfl

namespace HostType

/-- What an array or a nullable type is made of in the end. -/
def innermost : HostType → HostType
  | nullable t | array t => t.innermost
  | t => t

theorem namespace_innermost (t : HostType) :
    (splitAtLastDot t.name).1 = (splitAtLastDot t.innermost.name).1 := by
  induction t with
  | nullable t ih => exact (splitAtLastDot_append t.name (by decide)).trans ih
  | array t ih => exact (splitAtLastDot_append t.name (by decide)).trans ih
  | _ => rfl

end HostType

/-- The class of arrays, of arrays of arrays and so on is in the namespace of the class in them. -/
theorem arrayClass_namespaceName {element : HostType} {cls : Class}
    (h : element.innermost = .named cls.name) :
    (arrayClass element).namespaceName = cls.namespaceName := by
  have hname := (HostType.array element).namespace_innermost
  replace h : (HostType.array element).innermost = .named cls.name := h
  rw [h] at hname
  exact congrArg (·.getD "") hname

end ScriptBridge
