import Mathlib.Logic.Relation
import ScriptBridge.Host.Catalog

/-!
# Assignability and reachability

A class can be used as the root, under its own name, and under the names that bases and interfaces
lead to. `Catalog.isAssignable` looks for a name by a walk that goes through `walkLimit + 1` names
at most, each of them as often as it is met.

* `isAssignable_sound`: whatever it finds can be reached.
* `isAssignable_iff`: it finds all that can be reached if the walk comes to its end.
* `isAssignable_of_path`: it finds what can be reached by `walkLimit` links, if no class has more
  than one parent. With more parents the bound counts the names beside the path as well.
-/

namespace ScriptBridge

namespace Catalog

variable {c : Catalog} {cls : Class} {target name : String}

/-- The class of the first name is known, and can directly be used under the second name. -/
def Leads (c : Catalog) (name parent : String) : Prop :=
  ∃ cls, c.find? name = some cls ∧ parent ∈ parents cls

/-- The names a class can be used under, besides the root and its own name. -/
def IsAncestor (c : Catalog) (target : String) (cls : Class) : Prop :=
  ∃ name ∈ parents cls, Relation.ReflTransGen c.Leads name target

/-! ## The names of a walk -/

/-- The parents of a name as a walk takes them up: none if the name is not known. -/
def followed (c : Catalog) (name : String) : List String :=
  match c.find? name with
  | some cls => (parents cls).reverse
  | none => []

theorem followed_of_find? (h : c.find? name = some cls) :
    c.followed name = (parents cls).reverse := by
  unfold followed
  rw [h]

theorem followed_of_find?_none (h : c.find? name = none) : c.followed name = [] := by
  unfold followed
  rw [h]

theorem mem_followed : target ∈ c.followed name ↔ c.Leads name target := by
  cases h : c.find? name with
  | none =>
    rw [followed_of_find?_none h]
    refine ⟨fun hmem => absurd hmem List.not_mem_nil, ?_⟩
    rintro ⟨cls, hfind, -⟩
    exact nomatch h.symm.trans hfind
  | some cls =>
    rw [followed_of_find? h, List.mem_reverse]
    refine ⟨fun hmem => ⟨cls, h, hmem⟩, ?_⟩
    rintro ⟨other, hfind, hmem⟩
    obtain rfl := Option.some.inj (h.symm.trans hfind)
    exact hmem

/-- The names a walk goes through, in order. -/
def walk (c : Catalog) : Nat → List String → List String
  | 0, _ => []
  | _ + 1, [] => []
  | fuel + 1, name :: pending => name :: c.walk fuel (c.followed name ++ pending)

theorem reaches_cons (fuel : Nat) (name : String) (pending : List String) :
    c.reaches target (fuel + 1) (name :: pending) =
      (name == target || c.reaches target fuel (c.followed name ++ pending)) := by
  unfold followed
  rw [reaches]
  cases c.find? name <;> rfl

theorem reaches_iff (fuel : Nat) (names : List String) :
    c.reaches target fuel names = true ↔ target ∈ c.walk fuel names := by
  induction fuel generalizing names with
  | zero => exact ⟨nofun, nofun⟩
  | succ fuel ih =>
    cases names with
    | nil => exact ⟨nofun, nofun⟩
    | cons name pending =>
      rw [reaches_cons, walk, Bool.or_eq_true, ih, List.mem_cons, beq_iff_eq, eq_comm]

theorem mem_walk_reachable {fuel : Nat} {names : List String} (h : target ∈ c.walk fuel names) :
    ∃ name ∈ names, Relation.ReflTransGen c.Leads name target := by
  induction fuel generalizing names with
  | zero => exact absurd h List.not_mem_nil
  | succ fuel ih =>
    cases names with
    | nil => exact absurd h List.not_mem_nil
    | cons name pending =>
      obtain rfl | h := List.mem_cons.mp h
      · exact ⟨target, List.mem_cons_self, .refl⟩
      · obtain ⟨next, hnext, hreach⟩ := ih h
        obtain hnext | hnext := List.mem_append.mp hnext
        · exact ⟨name, List.mem_cons_self, .head (mem_followed.mp hnext) hreach⟩
        · exact ⟨next, List.mem_cons_of_mem _ hnext, hreach⟩

/-- A walk that ends before its bound went through all names that can be reached. -/
theorem mem_walk_of_reachable {fuel : Nat} {names : List String}
    (hends : (c.walk fuel names).length < fuel) (hname : name ∈ names)
    (h : Relation.ReflTransGen c.Leads name target) : target ∈ c.walk fuel names := by
  induction fuel generalizing names name with
  | zero => exact absurd hends (Nat.not_lt_zero _)
  | succ fuel ih =>
    cases names with
    | nil => exact absurd hname List.not_mem_nil
    | cons first pending =>
      have hends := Nat.lt_of_succ_lt_succ hends
      obtain rfl | hname := List.mem_cons.mp hname
      · obtain rfl | ⟨next, hnext, hreach⟩ := h.cases_head
        · exact List.mem_cons_self
        · have hpending := List.mem_append_left pending (mem_followed.mpr hnext)
          exact List.mem_cons_of_mem _ (ih hends hpending hreach)
      · exact List.mem_cons_of_mem _ (ih hends (List.mem_append_right _ hname) h)

/-! ## Assignability -/

theorem isAssignable_eq_true : c.isAssignable target cls = true ↔
    target = rootName ∨ target = cls.name ∨
      target ∈ c.walk (walkLimit + 1) (parents cls).reverse := by
  unfold isAssignable
  rw [Bool.or_eq_true, Bool.or_eq_true, beq_iff_eq, beq_iff_eq, reaches_iff, or_assoc]

theorem isAssignable_sound (h : c.isAssignable target cls = true) :
    target = rootName ∨ target = cls.name ∨ c.IsAncestor target cls := by
  refine (isAssignable_eq_true.mp h).imp_right fun h => h.imp_right fun h => ?_
  obtain ⟨name, hname, hreach⟩ := mem_walk_reachable h
  exact ⟨name, List.mem_reverse.mp hname, hreach⟩

/-- Assignability is reachability for classes whose walk ends within the bound. -/
theorem isAssignable_iff
    (hends : (c.walk (walkLimit + 1) (parents cls).reverse).length ≤ walkLimit) :
    c.isAssignable target cls = true ↔
      target = rootName ∨ target = cls.name ∨ c.IsAncestor target cls := by
  refine ⟨isAssignable_sound, fun h => isAssignable_eq_true.mpr ?_⟩
  refine h.imp_right fun h => h.imp_right ?_
  rintro ⟨name, hname, hreach⟩
  exact mem_walk_of_reachable (Nat.lt_succ_of_le hends) (List.mem_reverse.mpr hname) hreach

/-- The second name can be reached from the first by a number of links. -/
inductive Path (c : Catalog) : Nat → String → String → Prop where
  | here (name : String) : Path c 0 name name
  | link {n : Nat} {name next target : String} (first : c.Leads name next)
      (others : Path c n next target) : Path c (n + 1) name target

theorem mem_walk_of_path (hsingle : ∀ name cls, c.find? name = some cls → (parents cls).length ≤ 1)
    {n fuel : Nat} (h : c.Path n name target) (hn : n < fuel) : target ∈ c.walk fuel [name] := by
  induction h generalizing fuel with
  | here name =>
    cases fuel with
    | zero => exact absurd hn (Nat.not_lt_zero _)
    | succ fuel => exact List.mem_cons_self
  | @link n name next target first _ ih =>
    cases fuel with
    | zero => exact absurd hn (Nat.not_lt_zero _)
    | succ fuel =>
      have honly : c.followed name = [next] := by
        obtain ⟨cls, hfind, hnext⟩ := first
        have hle := hsingle name cls hfind
        obtain ⟨only, honly⟩ : ∃ only, parents cls = [only] :=
          List.length_eq_one_iff.mp (Nat.le_antisymm hle (List.length_pos_of_mem hnext))
        rw [honly] at hnext
        rw [followed_of_find? hfind, honly, List.mem_singleton.mp hnext]
        rfl
      refine List.mem_cons_of_mem _ ?_
      rw [honly]
      exact ih (Nat.lt_of_succ_lt_succ hn)

/-- Without a second parent anywhere, the bound of the walk is a bound on its depth. -/
theorem isAssignable_of_path
    (hsingle : ∀ name cls, c.find? name = some cls → (parents cls).length ≤ 1)
    (hparents : parents cls = [name]) {n : Nat} (hn : n ≤ walkLimit)
    (h : c.Path n name target) : c.isAssignable target cls = true := by
  refine isAssignable_eq_true.mpr (.inr (.inr ?_))
  rw [hparents]
  exact mem_walk_of_path hsingle h (Nat.lt_succ_of_le hn)

/-- The names beside a path count as well: a class with many interfaces is not assignable to its
own base. -/
example : initial.isAssignable "Demo.Base"
    { name := "Demo.Wide", base := some "Demo.Base"
      interfaces := List.replicate 65 "Demo.Face" } = false := by decide +kernel

end Catalog

end ScriptBridge
