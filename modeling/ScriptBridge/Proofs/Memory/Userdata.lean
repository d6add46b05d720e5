import ScriptBridge.Proofs.Memory.Holding
import ScriptBridge.Proofs.Vm.Reference

/-!
# Who holds a userdata

Only values name userdata, so a userdata is held by the stacks of machines, by values kept under a
name, by the host's hands, and by tables that do not hold it weakly. Reclaiming memory adds no
holder.
-/

namespace ScriptBridge

/-- A userdata is on a stack, kept under a name, in the host's hands, or held by a table. -/
def World.HoldsUserdata (w : World) (u : UserdataRef) : Prop :=
  (∃ m ∈ w.machine :: w.parked, Value.userdata u ∈ m.stack) ∨
    (∃ p ∈ w.kept, p.2 = Value.userdata u) ∨ Ref.userdata u ∈ w.held ∨
    ∃ t, Ref.userdata u ∈ w.cellRefs (.table t)

theorem Value.userdata_mem_refs {v : Value} {u : UserdataRef} :
    Ref.userdata u ∈ v.refs ↔ v = .userdata u := by
  cases v <;> simp [Value.refs, eq_comm]

theorem HostOnly.userdata_not_mem {refs : List Ref} (h : HostOnly refs) (u : UserdataRef) :
    Ref.userdata u ∉ refs :=
  fun hu => h _ hu trivial

theorem FoundMember.userdata_not_mem (m : FoundMember) (u : UserdataRef) :
    Ref.userdata u ∉ m.refs := by
  cases m with
  | nested cls =>
    cases cls with
    | none => exact List.not_mem_nil
    | some c => exact (hostOnly_class c).userdata_not_mem u
  | _ => simp [FoundMember.refs]

theorem Session.userdata_not_mem (s : Session) (u : UserdataRef) : Ref.userdata u ∉ s.refs := by
  have hcatalog : Ref.userdata u ∉ s.catalog.refs :=
    (HostOnly.flatMap (fun p : String × Class => hostOnly_class p.2) _).userdata_not_mem u
  simp [Session.refs, hcatalog, FoundMember.userdata_not_mem]

theorem Machine.userdata_not_mem (m : Machine) (u : UserdataRef) : Ref.userdata u ∉ m.refs := by
  unfold Machine.refs
  cases m.session with
  | none => simp [Frame.refs]
  | some s => simp [Frame.refs, Session.userdata_not_mem]

theorem Machine.holds_userdata_iff {m : Machine} {u : UserdataRef} :
    m.holds (.userdata u) = true ↔ Value.userdata u ∈ m.stack := by
  unfold Machine.holds
  rw [Bool.or_eq_true, List.contains_iff_mem, Array.any_eq_true']
  constructor
  · rintro (⟨v, hv, hu⟩ | hu)
    · rwa [← Value.userdata_mem_refs.mp (List.contains_iff_mem.mp hu)]
    · exact absurd hu (m.userdata_not_mem u)
  · exact fun hv => .inl ⟨_, hv, List.contains_iff_mem.mpr (List.mem_singleton.mpr rfl)⟩

namespace World

variable {w : World} {u : UserdataRef}

/-- Only tables and userdata hold something of the machine. -/
theorem hostOnly_cellRefs {c : Ref} (htable : ∀ t, c ≠ .table t)
    (huserdata : ∀ u, c ≠ .userdata u) : HostOnly (w.cellRefs c) := by
  cases c with
  | table t => exact absurd rfl (htable t)
  | userdata u => exact absurd rfl (huserdata u)
  | function f =>
    refine .option (fun f => ?_) _
    unfold Function.refs
    split
    · exact .cons (fun h => h) .nil
    · exact .nil
  | object o => exact .option hostOnly_object _
  | handle => exact .nil
  | dispatcher d => exact .option hostOnly_dispatcher _
  | cell c => exact .option hostOnly_cell _

theorem userdata_mem_cellRefs {c : Ref} (h : Ref.userdata u ∈ w.cellRefs c) :
    ∃ t, c = .table t := by
  by_cases ht : ∃ t, c = .table t
  · exact ht
  · by_cases hu : ∃ x, c = .userdata x
    · obtain ⟨x, rfl⟩ := hu
      have h : Ref.userdata u ∈ ((w.userdata.get? x.index).map Userdata.refs).getD [] := h
      cases hc : w.userdata.get? x.index with
      | none =>
        rw [hc] at h
        exact absurd h List.not_mem_nil
      | some cell =>
        rw [hc] at h
        simp [Userdata.refs] at h
    · exact absurd h ((hostOnly_cellRefs (fun t he => ht ⟨t, he⟩)
        fun x he => hu ⟨x, he⟩).userdata_not_mem u)

theorem userdata_mem_hostRefs : Ref.userdata u ∈ w.hostRefs ↔
    (∃ p ∈ w.kept, p.2 = Value.userdata u) ∨ Ref.userdata u ∈ w.held := by
  have hbindings : Ref.userdata u ∉ w.bindings.flatMap (·.2.refs) :=
    (HostOnly.flatMap (fun p : String × HostValue => hostOnly_hostValue p.2) _).userdata_not_mem u
  have hactivations : Ref.userdata u ∉ w.activations.flatMap Activation.refs :=
    (HostOnly.flatMap (fun a : Activation =>
      (hostOnly_target a.target).append (.flatMap hostOnly_hostValue _)) _).userdata_not_mem u
  unfold hostRefs
  simp only [List.mem_append, hbindings, hactivations, List.mem_map, List.mem_flatMap,
    Value.userdata_mem_refs, or_false, reduceCtorEq, and_false, exists_false]

theorem holds_userdata_iff : w.holds (.userdata u) = true ↔ w.HoldsUserdata u := by
  unfold holds HoldsUserdata
  simp only [Bool.or_eq_true, Machine.holds_userdata_iff, List.any_eq_true, List.contains_iff_mem,
    userdata_mem_hostRefs, heapHolds_iff, List.mem_cons, exists_eq_or_imp]
  constructor
  · rintro (((hm | hp) | hk | hh) | ⟨c, hc⟩)
    · exact .inl (.inl hm)
    · exact .inl (.inr hp)
    · exact .inr (.inl hk)
    · exact .inr (.inr (.inl hh))
    · obtain ⟨t, rfl⟩ := userdata_mem_cellRefs hc
      exact .inr (.inr (.inr ⟨t, hc⟩))
  · rintro ((hm | hp) | hk | hh | ⟨t, ht⟩)
    · exact .inl (.inl (.inl hm))
    · exact .inl (.inl (.inr hp))
    · exact .inl (.inr (.inl hk))
    · exact .inl (.inr (.inr hh))
    · exact .inr ⟨_, ht⟩

/-- Who holds a userdata depends on stacks, tables, kept values and the host's hands only. -/
theorem HoldsUserdata.of_same {w' : World} (h : w'.HoldsUserdata u)
    (hstack : w'.machine.stack = w.machine.stack) (hparked : w'.parked = w.parked)
    (hkept : w'.kept = w.kept) (hheld : w'.held ⊆ w.held) (htables : w'.tables = w.tables) :
    w.HoldsUserdata u := by
  obtain ⟨m, hm, hu⟩ | hk | hh | ⟨t, ht⟩ := h
  · obtain rfl | hm := List.mem_cons.mp hm
    · exact .inl ⟨_, List.mem_cons_self, hstack ▸ hu⟩
    · exact .inl ⟨m, List.mem_cons_of_mem _ (hparked ▸ hm), hu⟩
  · exact .inr (.inl (hkept ▸ hk))
  · exact .inr (.inr (.inl (hheld hh)))
  · refine .inr (.inr (.inr ⟨t, ?_⟩))
    have ht : Ref.userdata u ∈ ((w'.tables.get? t.index).map Table.refs).getD [] := ht
    rwa [htables] at ht

/-- A table that is written holds what it held before or what was written. -/
theorem HoldsUserdata.of_withTable {t : TableRef} {table : Table} {refs : List Ref}
    (h : (w.withTable t table refs).HoldsUserdata u) :
    w.HoldsUserdata u ∨ Ref.userdata u ∈ table.refs := by
  obtain hm | hk | hh | ⟨t', ht'⟩ := h
  · exact .inl (.inl hm)
  · exact .inl (.inr (.inl hk))
  · exact .inl (.inr (.inr (.inl hh)))
  · have ht' : Ref.userdata u ∈
        (((w.tables.modify t.index fun _ => table).get? t'.index).map Table.refs).getD [] := ht'
    rw [Store.get?_modify] at ht'
    split at ht'
    · cases hold : w.tables.get? t'.index with
      | none =>
        rw [hold] at ht'
        exact absurd ht' List.not_mem_nil
      | some old =>
        rw [hold] at ht'
        exact .inr ht'
    · exact .inl (.inr (.inr (.inr ⟨t', ht'⟩)))

/-! ## Reclaiming memory -/

/-- Emptying a cell leaves all stacks and what is kept. -/
theorem empty_stacks (w : World) (d : Dropped) :
    ((w.empty d).1.machine :: (w.empty d).1.parked).map Machine.stack =
      (w.machine :: w.parked).map Machine.stack ∧ (w.empty d).1.kept = w.kept := by
  refine ⟨w.map_empty d (fun _ _ => rfl) fun _ _ _ => rfl, ?_⟩
  obtain ⟨r, during⟩ := d
  cases r with
  | userdata u =>
    unfold empty
    dsimp only
    split
    · rfl
    · split
      · unfold modifyMachineOf
        split <;> rfl
      · rfl
  | handle h =>
    unfold empty
    dsimp only
    split <;> rfl
  | _ => rfl

/-- Emptying a cell makes none in the heap of the machine. -/
theorem empty_shrinks (w : World) (d : Dropped) :
    (∀ i t, (w.empty d).1.tables.get? i = some t → w.tables.get? i = some t) ∧
      (∀ i f, (w.empty d).1.functions.get? i = some f → w.functions.get? i = some f) ∧
      (∀ i u, (w.empty d).1.userdata.get? i = some u → w.userdata.get? i = some u) ∧
      (w.empty d).1.userdata.next = w.userdata.next := by
  obtain ⟨r, during⟩ := d
  cases r with
  | table t => exact ⟨fun _ _ h => Store.get?_of_erase _ h, fun _ _ h => h, fun _ _ h => h, rfl⟩
  | function f => exact ⟨fun _ _ h => h, fun _ _ h => Store.get?_of_erase _ h, fun _ _ h => h, rfl⟩
  | userdata u =>
    unfold empty
    dsimp only
    split
    · exact ⟨fun _ _ h => h, fun _ _ h => h, fun _ _ h => h, rfl⟩
    · rename_i cell hcell
      split
      · rename_i mt hmt
        obtain ⟨-, -, -, -, -, -, htables, hfunctions, huserdata, -⟩ :=
          modifyMachineOf_outside { w with userdata := w.userdata.erase u.index } cell.home
            ⟨cell.payload, mt⟩
        rw [htables, hfunctions, huserdata]
        exact ⟨fun _ _ h => h, fun _ _ h => h, fun _ _ h => Store.get?_of_erase _ h,
          Store.next_erase _ _⟩
      · exact ⟨fun _ _ h => h, fun _ _ h => h, fun _ _ h => Store.get?_of_erase _ h,
          Store.next_erase _ _⟩
  | handle h =>
    unfold empty
    dsimp only
    split <;> exact ⟨fun _ _ h => h, fun _ _ h => h, fun _ _ h => h, rfl⟩
  | _ => exact ⟨fun _ _ h => h, fun _ _ h => h, fun _ _ h => h, rfl⟩

/-! ## Userdata that die -/

section

variable {c : Userdata} {during : Option TableRef} {rest : List Dropped}

theorem empty_of_gone (h : w.userdata.get? u.index = none) :
    w.empty ⟨.userdata u, during⟩ = (w, []) := by
  unfold empty
  dsimp only
  rw [h]

theorem empty_of_unburied (h : w.userdata.get? u.index = some c)
    (hno : { w with userdata := w.userdata.erase u.index }.finalizerTable? c during = none) :
    w.empty ⟨.userdata u, during⟩ =
      ({ w with userdata := w.userdata.erase u.index }, c.refs) := by
  unfold empty
  dsimp only
  rw [h]
  dsimp only
  rw [hno]

theorem empty_of_buried {mt : TableRef} (h : w.userdata.get? u.index = some c)
    (hmt : { w with userdata := w.userdata.erase u.index }.finalizerTable? c during = some mt) :
    w.empty ⟨.userdata u, during⟩ =
      ({ w with userdata := w.userdata.erase u.index }.modifyMachineOf c.home
        (·.bury ⟨c.payload, mt⟩), []) := by
  unfold empty
  dsimp only
  rw [h]
  dsimp only
  rw [hmt]

theorem reclaimed_of_gone (h : w.userdata.get? u.index = none) :
    w.reclaimed ⟨.userdata u, during⟩ rest = { w with dropped := rest } := by
  unfold reclaimed
  rw [empty_of_gone (w := { w with dropped := rest }) h]
  rfl

theorem reclaimed_of_unburied (h : w.userdata.get? u.index = some c)
    (hno : { w with userdata := w.userdata.erase u.index, dropped := rest }.finalizerTable? c
      during = none) :
    w.reclaimed ⟨.userdata u, during⟩ rest =
      { w with
        userdata := w.userdata.erase u.index
        dropped := c.refs.map (⟨·, during⟩) ++ rest } := by
  unfold reclaimed
  rw [empty_of_unburied (w := { w with dropped := rest }) h hno]

theorem reclaimed_of_buried {mt : TableRef} (h : w.userdata.get? u.index = some c)
    (hmt : { w with userdata := w.userdata.erase u.index, dropped := rest }.finalizerTable? c
      during = some mt) (hhome : w.machine.id = c.home) :
    w.reclaimed ⟨.userdata u, during⟩ rest =
      { w with
        userdata := w.userdata.erase u.index
        machine.graveyard := w.machine.graveyard ++ [⟨c.payload, mt⟩]
        dropped := rest } := by
  unfold reclaimed
  rw [empty_of_buried (w := { w with dropped := rest }) h hmt]
  unfold modifyMachineOf
  rw [if_pos (beq_iff_eq.mpr hhome)]
  rfl

end

theorem HoldsUserdata.of_reclaimed {d : Dropped} {rest : List Dropped}
    (h : (w.reclaimed d rest).HoldsUserdata u) : w.HoldsUserdata u := by
  obtain ⟨hstacks, hkept⟩ := { w with dropped := rest }.empty_stacks d
  obtain ⟨m, hm, hu⟩ | hk | hh | ⟨t, ht⟩ := h
  · have hmem : m.stack ∈ (w.machine :: w.parked).map Machine.stack :=
      hstacks ▸ List.mem_map_of_mem hm
    obtain ⟨m', hm', he⟩ := List.mem_map.mp hmem
    exact .inl ⟨m', hm', he ▸ hu⟩
  · exact .inr (.inl (hkept ▸ hk))
  · exact .inr (.inr (.inl ((empty_spares { w with dropped := rest } d).held ▸ hh)))
  · have ht : Ref.userdata u ∈ ({ w with dropped := rest }.empty d).1.cellRefs (.table t) := ht
    exact .inr (.inr (.inr ⟨t, (empty_emptied { w with dropped := rest } d).cells _ _ ht⟩))

/-- Reclaiming memory makes no userdata. -/
theorem settle_fewer : ∀ i c, w.settle.userdata.get? i = some c → w.userdata.get? i = some c :=
  settle_keeps (P := fun w' => ∀ i c, w'.userdata.get? i = some c → w.userdata.get? i = some c)
    (fun _ _ _ _ h _ => h)
    (fun w' d rest _ h _ i c hc =>
      h i c (({ w' with dropped := rest }.empty_shrinks d).2.2.1 i c hc))
    fun _ _ h => h

theorem reclaimed_gone (during : Option TableRef) (rest : List Dropped) :
    (w.reclaimed ⟨.userdata u, during⟩ rest).userdata.get? u.index = none := by
  cases hc : w.userdata.get? u.index with
  | none =>
    rw [reclaimed_of_gone hc]
    exact hc
  | some c =>
    have herase : (w.reclaimed ⟨.userdata u, during⟩ rest).userdata = w.userdata.erase u.index := by
      unfold reclaimed empty
      dsimp only
      rw [hc]
      dsimp only
      split
      · exact (modifyMachineOf_outside { w with
          userdata := w.userdata.erase u.index, dropped := rest } _ _).2.2.2.2.2.2.2.2.1
      · rfl
    rw [herase, Store.get?_erase, if_pos rfl]

/-- A userdata that was let go of and that nothing holds is gone after all notes were looked at. -/
theorem gone_of_settle (hfree : ¬ w.HoldsUserdata u)
    (hnoted : ∃ d ∈ w.dropped, d.ref = .userdata u) : w.settle.userdata.get? u.index = none := by
  have hkept := settle_keeps (w := w)
    (P := fun w => ¬ w.HoldsUserdata u ∧
      (w.userdata.get? u.index = none ∨ ∃ d ∈ w.dropped, d.ref = .userdata u))
    (fun w d rest hdropped ⟨hfree, hgone⟩ hkept => by
      refine ⟨hfree, hgone.imp_right ?_⟩
      rintro ⟨d', hd', he⟩
      rw [hdropped] at hd'
      obtain rfl | hd' := List.mem_cons.mp hd'
      · obtain ⟨d'', hd'', he'⟩ | hholds := hkept
        · exact ⟨d'', hd'', he'.trans he⟩
        · rw [he, holds_userdata_iff] at hholds
          exact absurd hholds hfree
      · exact ⟨d', hd', he⟩)
    (fun w d rest hdropped ⟨hfree, hgone⟩ hfree' => by
      have hfewer := ({ w with dropped := rest }.empty_shrinks d).2.2.1
      refine ⟨fun hheld => hfree hheld.of_reclaimed, ?_⟩
      obtain hgone | ⟨d', hd', he⟩ := hgone
      · refine .inl (Option.eq_none_iff_forall_ne_some.mpr fun c hc => ?_)
        rw [hfewer _ _ hc] at hgone
        cases hgone
      · rw [hdropped] at hd'
        obtain rfl | hd' := List.mem_cons.mp hd'
        · obtain ⟨r, during⟩ := d'
          obtain rfl : r = .userdata u := he
          exact .inl (reclaimed_gone during rest)
        · exact .inr ⟨d', List.mem_append_right _ hd', he⟩)
    ⟨hfree, .inr hnoted⟩
  obtain ⟨-, hgone | ⟨d, hd, -⟩⟩ := hkept
  · exact hgone
  · rw [settle_dropped] at hd
    exact absurd hd List.not_mem_nil

end World

end ScriptBridge
