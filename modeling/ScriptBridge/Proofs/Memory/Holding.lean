import ScriptBridge.Proofs.Memory.Ownership
import ScriptBridge.Proofs.Memory.Settle

/-!
# Who holds a reference

The heap holds what one of its cells holds. A handle is held only by the host: in its hands, in its
bindings, in calls under way, and in cells of objects, dispatchers and storage. Machines and their
values hold none.
-/

namespace ScriptBridge

namespace World

variable {w w' : World}

theorem any_contains {α : Type} {s : Store α} {f : α → List Ref} {r : Ref} :
    s.any (fun a => (f a).contains r) = true ↔ ∃ i, r ∈ ((s.get? i).map f).getD [] := by
  rw [Store.any_eq_true]
  constructor
  · rintro ⟨i, a, ha, hr⟩
    refine ⟨i, ?_⟩
    rw [ha]
    exact List.contains_iff_mem.mp hr
  · rintro ⟨i, hr⟩
    cases hi : s.get? i with
    | none =>
      rw [hi] at hr
      exact absurd hr List.not_mem_nil
    | some a =>
      rw [hi] at hr
      exact ⟨i, a, hi, List.contains_iff_mem.mpr hr⟩

/-- The heap holds what one of its cells holds. -/
theorem heapHolds_iff {r : Ref} : w.heapHolds r = true ↔ ∃ c, r ∈ w.cellRefs c := by
  unfold heapHolds
  simp only [Bool.or_eq_true, any_contains]
  constructor
  · rintro (((((⟨i, h⟩ | ⟨i, h⟩) | ⟨i, h⟩) | ⟨i, h⟩) | ⟨i, h⟩) | ⟨i, h⟩)
    · exact ⟨.table ⟨i⟩, h⟩
    · exact ⟨.function ⟨i⟩, h⟩
    · exact ⟨.userdata ⟨i⟩, h⟩
    · exact ⟨.object ⟨i⟩, h⟩
    · exact ⟨.dispatcher ⟨i⟩, h⟩
    · exact ⟨.cell ⟨i⟩, h⟩
  · rintro ⟨c, h⟩
    cases c with
    | table t => exact .inl (.inl (.inl (.inl (.inl ⟨t.index, h⟩))))
    | function f => exact .inl (.inl (.inl (.inl (.inr ⟨f.index, h⟩))))
    | userdata u => exact .inl (.inl (.inl (.inr ⟨u.index, h⟩)))
    | object o => exact .inl (.inl (.inr ⟨o.index, h⟩))
    | handle => exact absurd h List.not_mem_nil
    | dispatcher d => exact .inl (.inr ⟨d.index, h⟩)
    | cell c => exact .inr ⟨c.index, h⟩

theorem holds_of_cell {r c : Ref} (h : r ∈ w.cellRefs c) : w.holds r = true := by
  unfold holds
  rw [heapHolds_iff.mpr ⟨c, h⟩, Bool.or_true]

theorem holds_of_held {r : Ref} (h : r ∈ w.held) : w.holds r = true := by
  have hmem : r ∈ w.hostRefs := by
    unfold hostRefs
    rw [List.mem_append]
    exact .inr h
  unfold holds
  rw [List.contains_iff_mem.mpr hmem, Bool.or_true, Bool.true_or]

/-- What the running session holds is held. -/
theorem holds_of_session {s : Session} (hs : w.machine.session = some s) {r : Ref}
    (h : r ∈ s.refs) : w.holds r = true := by
  have hmem : r ∈ w.machine.refs := by
    unfold Machine.refs
    rw [hs, List.mem_append]
    exact .inr h
  unfold holds Machine.holds
  rw [List.contains_iff_mem.mpr hmem]
  simp

/-- What the registry table holds is not reclaimed, and neither is that table. -/
theorem holds_registry (w : World) : w.holds (.table w.machine.registry) = true := by
  have hmem : Ref.table w.machine.registry ∈ w.machine.refs := by
    unfold Machine.refs
    simp only [List.mem_append, List.mem_cons, true_or, or_true]
  unfold holds Machine.holds
  rw [List.contains_iff_mem.mpr hmem, Bool.or_true, Bool.true_or, Bool.true_or, Bool.true_or]

end World

/-! ## Handles -/

theorem Value.handle_not_mem (v : Value) (h : HandleRef) : Ref.handle h ∉ v.refs := by
  cases v <;> simp [Value.refs]

theorem Class.handle_not_mem (c : Class) (h : HandleRef) : Ref.handle h ∉ c.refs := by
  simp [Class.refs]

theorem FoundMember.handle_not_mem (m : FoundMember) (h : HandleRef) : Ref.handle h ∉ m.refs := by
  cases m with
  | nested cls =>
    cases cls with
    | none => exact List.not_mem_nil
    | some c => exact c.handle_not_mem h
  | _ => simp [FoundMember.refs]

theorem Session.handle_not_mem (s : Session) (h : HandleRef) : Ref.handle h ∉ s.refs := by
  simp [Session.refs, Catalog.refs, Class.handle_not_mem, FoundMember.handle_not_mem]

theorem Machine.handle_not_mem (m : Machine) (h : HandleRef) : Ref.handle h ∉ m.refs := by
  unfold Machine.refs
  cases m.session with
  | none => simp [Frame.refs]
  | some s => simp [Frame.refs, Session.handle_not_mem]

theorem Machine.holds_handle (m : Machine) (h : HandleRef) : m.holds (.handle h) = false := by
  unfold Machine.holds
  rw [Bool.or_eq_false_iff, Array.any_eq_false']
  refine ⟨fun v _ => ?_, ?_⟩
  · rw [List.contains_iff_mem]
    exact v.handle_not_mem h
  · rw [Bool.eq_false_iff, ne_eq, List.contains_iff_mem]
    exact m.handle_not_mem h

theorem World.handle_not_mem_table (w : World) (t : TableRef) (h : HandleRef) :
    Ref.handle h ∉ w.cellRefs (.table t) := by
  intro hmem
  have hmem : Ref.handle h ∈ ((w.tables.get? t.index).map Table.refs).getD [] := hmem
  cases ht : w.tables.get? t.index with
  | none =>
    rw [ht] at hmem
    exact absurd hmem List.not_mem_nil
  | some table =>
    rw [ht] at hmem
    exact (Table.not_host_of_mem hmem).2 h rfl

/-- A handle that nothing but the host's hands may hold. -/
structure World.HeldByHand (w : World) (h : HandleRef) : Prop where
  cells : ∀ c, Ref.handle h ∉ w.cellRefs c
  bindings : Ref.handle h ∉ w.bindings.flatMap (·.2.refs)
  activations : Ref.handle h ∉ w.activations.flatMap Activation.refs

namespace World

variable {w : World} {h : HandleRef}

theorem holds_handle_iff : w.holds (.handle h) = true ↔
    Ref.handle h ∈ w.held ∨ Ref.handle h ∈ w.bindings.flatMap (·.2.refs) ∨
      Ref.handle h ∈ w.activations.flatMap Activation.refs ∨ ∃ c, Ref.handle h ∈ w.cellRefs c := by
  have hparked : w.parked.any (·.holds (.handle h)) = false := by
    rw [List.any_eq_false]
    exact fun m _ => Bool.eq_false_iff.mp (m.holds_handle h)
  have hkept : Ref.handle h ∉ w.kept.flatMap (·.2.refs) := by
    rw [List.mem_flatMap]
    rintro ⟨p, -, hp⟩
    exact p.2.handle_not_mem h hp
  have hwrappers : Ref.handle h ∉ w.wrappers.map fun p => Ref.dispatcher p.2 := by
    simp
  unfold holds hostRefs
  rw [Machine.holds_handle, hparked, Bool.false_or, Bool.false_or, Bool.or_eq_true,
    List.contains_iff_mem, heapHolds_iff]
  simp only [List.mem_append]
  constructor
  · rintro (((((hk | hb) | hw) | ha) | hh) | hc)
    · exact absurd hk hkept
    · exact .inr (.inl hb)
    · exact absurd hw hwrappers
    · exact .inr (.inr (.inl ha))
    · exact .inl hh
    · exact .inr (.inr (.inr hc))
  · rintro (hh | hb | ha | hc)
    · exact .inl (.inr hh)
    · exact .inl (.inl (.inl (.inl (.inr hb))))
    · exact .inl (.inl (.inr ha))
    · exact .inr hc

theorem HeldByHand.holds_iff (hw : w.HeldByHand h) :
    w.holds (.handle h) = true ↔ Ref.handle h ∈ w.held := by
  rw [holds_handle_iff]
  constructor
  · rintro (hh | hb | ha | ⟨c, hc⟩)
    · exact hh
    · exact absurd hb hw.bindings
    · exact absurd ha hw.activations
    · exact absurd hc (hw.cells c)
  · exact .inl

theorem heldByHand_of_not_holds (hw : w.holds (.handle h) = false) : w.HeldByHand h := by
  rw [Bool.eq_false_iff, ne_eq, holds_handle_iff] at hw
  exact ⟨fun c hc => hw (.inr (.inr (.inr ⟨c, hc⟩))), fun hb => hw (.inr (.inl hb)),
    fun ha => hw (.inr (.inr (.inl ha)))⟩

theorem HeldByHand.reclaimed {d : Dropped} {rest : List Dropped} (hw : w.HeldByHand h) :
    (w.reclaimed d rest).HeldByHand h := by
  have hspares := empty_spares { w with dropped := rest } d
  have hemptied := empty_emptied { w with dropped := rest } d
  have hbindings : (w.reclaimed d rest).bindings = w.bindings := hspares.bindings
  have hactivations : (w.reclaimed d rest).activations = w.activations := hspares.activations
  exact {
    cells := fun c hc => hw.cells c (hemptied.cells c _ hc)
    bindings := by
      rw [hbindings]
      exact hw.bindings
    activations := by
      rw [hactivations]
      exact hw.activations }

/-! ## Strong entries of tables -/

theorem fieldOf_of_find? {t : TableRef} {table : Table} {name : String} {e : Entry} {v : Value}
    (ht : w.tables.get? t.index = some table) (he : table.find? (.text name) = some e)
    (hslot : e.slot = .strong v) : w.fieldOf t name = v := by
  unfold fieldOf World.table Table.getText Table.getKey
  rw [ht, Option.getD_some, he]
  show e.slot.read w.isLive = v
  rw [hslot]
  rfl

/-- A table holds what it has in a strong entry. -/
theorem mem_cellRefs_of_find? {t : TableRef} {table : Table} {k : Key} {e : Entry} {v : Value}
    {r : Ref} (ht : w.tables.get? t.index = some table) (he : table.find? k = some e)
    (hslot : e.slot = .strong v) (hr : r ∈ v.refs) : r ∈ w.cellRefs (.table t) := by
  show r ∈ ((w.tables.get? t.index).map Table.refs).getD []
  rw [ht]
  refine List.mem_append_left _ (List.mem_flatMap.mpr ⟨e, List.mem_of_find?_eq_some he, ?_⟩)
  unfold Entry.refs
  rw [hslot]
  refine List.mem_append_right _ ?_
  show r ∈ [v].flatMap Value.refs
  rwa [List.flatMap_singleton]

end World

end ScriptBridge
