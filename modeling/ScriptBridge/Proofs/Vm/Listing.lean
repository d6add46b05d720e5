import Mathlib.Data.List.Nodup
import Mathlib.Data.List.Perm.Subperm
import ScriptBridge.Proofs.Bridge.Carrying
import ScriptBridge.Proofs.Vm.Reference
import ScriptBridge.Proofs.Vm.Table

/-!
# Tables that list values

A script that fills a fresh table from 1 on makes a list. What the table holds under each number
does not depend on the heap around it, its length is the number of values, and as long as it is an
argument of the running call it outlives the reclaiming of memory and the release of references.
-/

namespace ScriptBridge

namespace Table

/-- A table without a metatable that has some values under 1, 2, ... and none under other positive
integers, whatever else is still in the heap. -/
structure Lists (t : Table) (vs : List Value) : Prop where
  bare : t.metatable = none
  strong : t.weakValues = false
  items : ∀ live (i : Nat), t.getInt live (i + 1) = vs.getD i .nil

variable {t : Table} {vs : List Value} {live : Value → Bool}

/-! ## Filling a table -/

theorem lists_empty : ({} : Table).Lists [] := ⟨rfl, rfl, fun _ _ => rfl⟩

/-- Writing a value under the next number appends it. -/
theorem Lists.append (h : t.Lists vs) (hsize : vs.length < 2 ^ 53) {v : Value}
    (hv : v.isNil = false) : (t.setInt (vs.length + 1) v).1.Lists (vs ++ [v]) := by
  have hexact : (vs.length + 1 : Int).natAbs ≤ 2 ^ 53 := by omega
  rw [t.setInt_eq hexact v]
  refine ⟨h.bare, h.strong, fun live i => ?_⟩
  by_cases hi : i = vs.length
  · subst hi
    have hslot : t.slotFor v = .strong v := by
      unfold slotFor
      cases v <;> simp [h.strong]
    have hitem : (vs ++ [v]).getD vs.length .nil = v := by simp
    unfold getInt getKey
    rw [find?_setKey_self t _ _ hv, hslot, hitem]
    rfl
  · have hkey : Key.integer (vs.length + 1) ≠ .integer (i + 1) := fun he => by
      have he := Key.integer.inj he
      omega
    have hother : (vs ++ [v]).getD i .nil = vs.getD i .nil := by
      simp only [List.getD_eq_getElem?_getD, List.getElem?_append]
      split
      · rfl
      · rename_i hlt
        rw [List.getElem?_eq_none (by simp; omega), List.getElem?_eq_none (by omega)]
    rw [hother, ← h.items live i]
    exact getKey_congr (find?_setKey_of_ne t hkey _ _)

/-! ## Length -/

/-- Counting goes up to the end of the list, if there is fuel for it. -/
theorem Lists.border_eq (h : t.Lists vs) (hvs : ∀ v ∈ vs, v.isNil = false) {n : Nat}
    (hn : n ≤ vs.length) (fuel : Nat) : t.border live n fuel = min (n + fuel) vs.length := by
  induction fuel generalizing n with
  | zero =>
    unfold border
    omega
  | succ fuel ih =>
    unfold border
    rw [h.items]
    obtain hlt | rfl := Nat.lt_or_eq_of_le hn
    · have hitem : vs.getD n .nil = vs[n] := by simp [hlt]
      rw [hitem, if_neg (Bool.eq_false_iff.mp (hvs _ (List.getElem_mem hlt))), ih hlt]
      congr 1
      omega
    · have hend : vs.getD vs.length .nil = .nil := by simp
      have hnil : Value.nil.isNil = true := rfl
      rw [hend, if_pos hnil]
      omega

/-- Each value has an entry of its own. -/
theorem Lists.length_le (h : t.Lists vs) (hvs : ∀ v ∈ vs, v.isNil = false) :
    vs.length ≤ t.entries.length := by
  refine t.le_length_of_getInt (fun _ => true) fun i hi => ?_
  have hvalue : vs.getD i .nil = vs[i] := by simp [hi]
  rw [h.items, hvalue]
  exact hvs _ (List.getElem_mem hi)

theorem Lists.length_eq (h : t.Lists vs) (hvs : ∀ v ∈ vs, v.isNil = false) :
    t.length live = vs.length := by
  unfold length
  rw [h.border_eq hvs (Nat.zero_le _), Nat.zero_add]
  exact Nat.min_eq_right (h.length_le hvs)

end Table

/-! ## A list among the arguments -/

/-- A table on the stack of the running call, other than the registry table, that lists values. -/
structure World.Lists (w : World) (t : TableRef) (vs : List Value) : Prop where
  lying : ∃ i, w.machine.value i = .table t
  apart : t ≠ w.machine.registry
  cell : ∃ table, w.tables.get? t.index = some table ∧ table.Lists vs

theorem Machine.slot?_bounds {m : Machine} {i : Int} {p : Nat} (h : m.slot? i = some p) :
    m.base ≤ p ∧ p < m.stack.size := by
  unfold slot? at h
  dsimp only at h
  split at h
  · split at h
    · cases h
      omega
    · cases h
  · split at h
    · split at h
      · rename_i hback
        rw [Bool.and_eq_true, decide_eq_true_eq, decide_eq_true_eq] at hback
        cases h
        omega
      · cases h
    · cases h

/-- A value at a position lies in the running frame. -/
theorem Machine.mem_of_value {m : Machine} {i : Int} (h : (m.value i).isNil = false) :
    m.value i ∈ m.stack ∧ m.HasFrame := by
  unfold value at h ⊢
  cases hslot : m.slot? i with
  | none =>
    rw [hslot] at h
    cases h
  | some p =>
    obtain ⟨hbase, hp⟩ := slot?_bounds hslot
    dsimp only
    rw [Array.getD_eq_getD_getElem?, Array.getElem?_eq_getElem hp]
    exact ⟨Array.getElem_mem hp, Nat.le_trans hbase (Nat.le_of_lt hp)⟩

theorem Machine.SameStack.value_eq {m m' : Machine} (h : m.SameStack m') (i : Int) :
    m'.value i = m.value i := by
  unfold value slot? base
  rw [h.stack, h.frames]

/-! ## What a call does first -/

/-- Releasing a reference writes to the registry table only. -/
theorem releaseRef_keeps {P : World → Prop} {w : World} (r : Int)
    (hwrite : ∀ w table refs, P w → P (w.withTable w.machine.registry table refs)) (h : P w) :
    P (releaseRef r w).2 := by
  unfold releaseRef
  split
  · have hread : readMachine w = (w.machine, w) := rfl
    have hget : rawGetField w.machine.registry Reference.freeField w =
      (w.fieldOf w.machine.registry Reference.freeField, w) := rfl
    rw [bind_of_eq hread, bind_of_eq hget]
    -- What is written is a variable, so that nothing computes it.
    generalize (if (w.fieldOf w.machine.registry Reference.freeField).isNil then
      Value.number Number.zero else w.fieldOf w.machine.registry Reference.freeField) = below
    generalize Value.number (Number.ofInt r) = head
    obtain ⟨change, hchange⟩ : ∃ change, (w.table w.machine.registry).setInt r below = change :=
      ⟨_, rfl⟩
    rw [bind_of_eq (rawSetInt_eq w.machine.registry r below w hchange), rawSetField_eq]
    exact hwrite _ _ _ (hwrite _ _ _ h)
  · exact h

/-- What a call does first: it settles memory, empties the queue of its session, and releases the
references that were in it. -/
theorem collectReleased_keeps {P : World → Prop} {w : World} (hsettle : ∀ w, P w → P w.settle)
    (hqueue : ∀ (w : World) session, P w → P { w with machine.session := session })
    (hwrite : ∀ w table refs, P w → P (w.withTable w.machine.registry table refs)) (h : P w) :
    P (collectReleased w).2 := by
  have hreleases (rs : List Int) {w : World} (h : P w) : P (rs.forM releaseRef w).2 := by
    induction rs generalizing w with
    | nil => exact h
    | cons r rest ih => exact ih (releaseRef_keeps r hwrite h)
  exact hsettle _ (hreleases _ (hqueue _ _ (hsettle _ h)))

theorem World.collectReleased_sameStack (w : World) :
    w.machine.SameStack (collectReleased w).2.machine :=
  collectReleased_keeps (P := fun w' => w.machine.SameStack w'.machine)
    (fun w' h => h.trans w'.settle_sameStack) (fun _ _ h => h.trans ⟨rfl, rfl, rfl⟩)
    (fun _ _ _ h => h.trans ⟨rfl, rfl, rfl⟩) (.refl _)

namespace World.Lists

variable {w w' : World} {t : TableRef} {vs : List Value}

theorem mem_stack (h : w.Lists t vs) : .table t ∈ w.machine.stack := by
  obtain ⟨i, hi⟩ := h.lying
  have hmem := Machine.mem_of_value (m := w.machine) (i := i) (by rw [hi]; rfl)
  rw [hi] at hmem
  exact hmem.1

theorem hasFrame (h : w.Lists t vs) : w.machine.HasFrame := by
  obtain ⟨i, hi⟩ := h.lying
  exact (Machine.mem_of_value (m := w.machine) (i := i) (by rw [hi]; rfl)).2

/-- A list is no proxy in disguise. -/
theorem objectBehind? (h : w.Lists t vs) : w.objectBehind? (.table t) = none := by
  obtain ⟨table, htable, hlists⟩ := h.cell
  have hmeta : w.metafieldOf (.table t) "__index" = .nil := by
    unfold World.metafieldOf World.metatableOf
    dsimp only
    rw [World.table_of_get? htable, hlists.bare]
  unfold World.objectBehind?
  dsimp only
  rw [hmeta]
  rfl

theorem length_eq (h : w.Lists t vs) (hvs : ∀ v ∈ vs, v.isNil = false) :
    (w.table t).length w.isLive = vs.length := by
  obtain ⟨table, htable, hlists⟩ := h.cell
  rw [World.table_of_get? htable]
  exact hlists.length_eq hvs

theorem getInt_eq (h : w.Lists t vs) (i : Nat) :
    (w.table t).getInt w.isLive (i + 1) = vs.getD i .nil := by
  obtain ⟨table, htable, hlists⟩ := h.cell
  rw [World.table_of_get? htable]
  exact hlists.items _ i

/-! ### Later worlds -/

theorem of_same (h : w.Lists t vs) (hstack : w.machine.SameStack w'.machine)
    (hregistry : w'.machine.registry = w.machine.registry)
    (hcell : w'.tables.get? t.index = w.tables.get? t.index) : w'.Lists t vs where
  lying :=
    have ⟨i, hi⟩ := h.lying
    ⟨i, (hstack.value_eq i).trans hi⟩
  apart := hregistry ▸ h.apart
  cell := hcell ▸ h.cell

/-- The stack holds the table, so it is not reclaimed. -/
theorem settle (h : w.Lists t vs) : w.settle.Lists t vs := by
  refine settle_keeps (P := fun w => w.Lists t vs)
    (fun w₁ d rest _ hw _ => hw.of_same ⟨rfl, rfl, rfl⟩ rfl rfl)
    (fun w₁ d rest _ hw hfree => ?_) h
  have hne : d.ref ≠ .table t := by
    intro he
    rw [he, holds_of_stack hw.mem_stack (List.mem_singleton_self _)] at hfree
    cases hfree
  have hspares := empty_spares { w₁ with dropped := rest } d
  exact hw.of_same (empty_sameStack { w₁ with dropped := rest } d) hspares.registry
    (hspares.tables t hne)

theorem withTable (h : w.Lists t vs) {t' : TableRef} (ht : t' ≠ t) (table : Table)
    (refs : List Ref) : (w.withTable t' table refs).Lists t vs :=
  h.of_same ⟨rfl, rfl, rfl⟩ rfl
    (Store.get?_modify_of_ne _ _ fun he => ht (TableRef.ext he))

/-- What a call does first leaves a list alone. -/
theorem collectReleased (h : w.Lists t vs) : (collectReleased w).2.Lists t vs :=
  collectReleased_keeps (P := fun w => w.Lists t vs) (fun _ h => h.settle)
    (fun _ _ h => h.of_same ⟨rfl, rfl, rfl⟩ rfl rfl)
    (fun _ table refs h => h.withTable (fun he => h.apart he.symm) table refs) h

end World.Lists

end ScriptBridge
