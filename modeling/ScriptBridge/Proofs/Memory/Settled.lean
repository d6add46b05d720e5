import ScriptBridge.Proofs.Memory.Holding
import ScriptBridge.Proofs.Stack.Untouched
import ScriptBridge.Proofs.Vm.Reference

/-!
# What is held stays

Counting references reclaims a cell once nothing holds it, so that in a settled world every cell of
the machine that is there is held. Where nothing takes away what holds them, no such cell goes.

* `World.Settled`: every cell of the machine that is there is held.
* `World.Undisturbed`: the cells of the machine are as they were, but for slots of the registry
  table that were given out, and the session still knows the same objects.
* `World.HostStep`: a step outside the heap of the machine. The registry table is as it was, too.
* `World.settle_hostStep`: from a settled world on, reclaiming memory is such a step.
-/

namespace ScriptBridge

/-- Something outside the heap, besides the stack of the running machine, holds a reference. -/
def World.Roots (w : World) (r : Ref) : Prop :=
  r ∈ w.machine.refs ∨ (∃ m ∈ w.parked, m.holds r = true) ∨ r ∈ w.hostRefs

/-- Every cell of the machine that is there is held. -/
def World.Settled (w : World) : Prop :=
  ∀ v, w.isLive v = true → ∀ r ∈ v.refs, w.holds r = true

/-- The cells of the machine are as they were, but for references that were given out, and nothing
joined them; the session knows the same objects. -/
structure World.Undisturbed (w w' : World) : Prop where
  stack : ∀ v ∈ w.machine.stack, v ∈ w'.machine.stack
  registry : w'.machine.registry = w.machine.registry
  tables : ∀ t : TableRef, t ≠ w.machine.registry → w'.tables.get? t.index = w.tables.get? t.index
  alive : w'.tables.contains w.machine.registry.index = w.tables.contains w.machine.registry.index
  slots : (w.table w.machine.registry).Extends (w'.table w.machine.registry)
  kept : ∀ r ∈ w.cellRefs (.table w.machine.registry), r ∈ w'.cellRefs (.table w.machine.registry)
  functions : ∀ i, w'.functions.get? i = w.functions.get? i
  userdata : ∀ i, w'.userdata.get? i = w.userdata.get? i
  roots : ∀ r, r.InMachine → w.Roots r → w'.Roots r
  session : w.machine.SessionLater w'.machine
  objects : ∀ o, w.Exposes o → w'.objects.get? o.index = w.objects.get? o.index

/-! ## What holds -/

theorem Machine.holds_iff {m : Machine} {r : Ref} :
    m.holds r = true ↔ (∃ v ∈ m.stack, r ∈ v.refs) ∨ r ∈ m.refs := by
  unfold Machine.holds
  simp only [Bool.or_eq_true, Array.any_eq_true', List.contains_iff_mem]

namespace World

variable {w w' w₁ w₂ w₃ : World} {r : Ref}

theorem holds_iff : w.holds r = true ↔
    (∃ v ∈ w.machine.stack, r ∈ v.refs) ∨ w.Roots r ∨ ∃ c, r ∈ w.cellRefs c := by
  unfold holds Roots
  rw [Bool.or_eq_true, Bool.or_eq_true, Bool.or_eq_true, Machine.holds_iff, List.any_eq_true,
    List.contains_iff_mem, heapHolds_iff]
  simp only [or_assoc]

/-- Only tables and userdata hold cells of the machine. -/
theorem inMachine_cellRefs {c : Ref} (hr : r.InMachine) (h : r ∈ w.cellRefs c) :
    (∃ t, c = .table t) ∨ ∃ u, c = .userdata u := by
  cases c with
  | table t => exact .inl ⟨t, rfl⟩
  | userdata u => exact .inr ⟨u, rfl⟩
  | function f =>
    have hhost : HostOnly (w.cellRefs (.function f)) := .option (fun f => by
      unfold Function.refs
      split
      · exact .cons (fun h => h) .nil
      · exact .nil) _
    exact absurd hr (hhost r h)
  | object o => exact absurd hr (HostOnly.option hostOnly_object _ r h)
  | handle => exact absurd h List.not_mem_nil
  | dispatcher d => exact absurd hr (HostOnly.option hostOnly_dispatcher _ r h)
  | cell c => exact absurd hr (HostOnly.option hostOnly_cell _ r h)

theorem cellRefs_table {t : TableRef} (h : w'.tables.get? t.index = w.tables.get? t.index) :
    w'.cellRefs (.table t) = w.cellRefs (.table t) :=
  congrArg (fun table => (Option.map Table.refs table).getD []) h

theorem cellRefs_userdata {u : UserdataRef}
    (h : w'.userdata.get? u.index = w.userdata.get? u.index) :
    w'.cellRefs (.userdata u) = w.cellRefs (.userdata u) :=
  congrArg (fun cell => (Option.map Userdata.refs cell).getD []) h

/-! ## Undisturbed worlds -/

theorem Undisturbed.refl (w : World) : w.Undisturbed w :=
  ⟨fun _ h => h, rfl, fun _ _ => rfl, rfl, .refl _, fun _ h => h, fun _ => rfl, fun _ => rfl,
    fun _ _ h => h, .refl _, fun _ _ => rfl⟩

theorem Undisturbed.trans (h : w₁.Undisturbed w₂) (h' : w₂.Undisturbed w₃) :
    w₁.Undisturbed w₃ where
  stack v hv := h'.stack v (h.stack v hv)
  registry := h'.registry.trans h.registry
  tables t hne := (h'.tables t (h.registry ▸ hne)).trans (h.tables t hne)
  alive := by
    have halive := h'.alive
    rw [h.registry] at halive
    exact halive.trans h.alive
  slots := by
    have hslots := h'.slots
    rw [h.registry] at hslots
    exact h.slots.trans hslots
  kept r hr := by
    have hkept := h'.kept
    rw [h.registry] at hkept
    exact hkept r (h.kept r hr)
  functions i := (h'.functions i).trans (h.functions i)
  userdata i := (h'.userdata i).trans (h.userdata i)
  roots r hr hroot := h'.roots r hr (h.roots r hr hroot)
  session := h.session.trans h'.session
  objects o ho := (h'.objects o ((exposes_iff h.session o).mpr ho)).trans (h.objects o ho)

namespace Undisturbed

variable (h : w.Undisturbed w')
include h

theorem isLive : w'.isLive = w.isLive := by
  funext v
  cases v with
  | table t =>
    show w'.tables.contains t.index = w.tables.contains t.index
    by_cases ht : t = w.machine.registry
    · rw [ht]
      exact h.alive
    · rw [Store.contains_eq, Store.contains_eq, h.tables t ht]
  | function f =>
    show w'.functions.contains f.index = w.functions.contains f.index
    rw [Store.contains_eq, Store.contains_eq, h.functions]
  | userdata u =>
    show w'.userdata.contains u.index = w.userdata.contains u.index
    rw [Store.contains_eq, Store.contains_eq, h.userdata]
  | _ => rfl

/-- What held a cell of the machine still holds it. -/
theorem holds (hr : r.InMachine) (hold : w.holds r = true) : w'.holds r = true := by
  rw [holds_iff] at hold ⊢
  obtain ⟨v, hv, hmem⟩ | hroot | ⟨c, hmem⟩ := hold
  · exact .inl ⟨v, h.stack v hv, hmem⟩
  · exact .inr (.inl (h.roots r hr hroot))
  · refine .inr (.inr ⟨c, ?_⟩)
    -- A cell that holds it is a table or a userdata, and these are as they were.
    obtain ⟨t, rfl⟩ | ⟨u, rfl⟩ := inMachine_cellRefs hr hmem
    · by_cases hregistry : t = w.machine.registry
      · subst hregistry
        exact h.kept r hmem
      · rw [cellRefs_table (h.tables t hregistry)]
        exact hmem
    · rw [cellRefs_userdata (h.userdata u.index)]
      exact hmem

theorem settled (hw : w.Settled) : w'.Settled := by
  intro v hv r hr
  rw [h.isLive] at hv
  refine h.holds ?_ (hw v hv r hr)
  cases v with
  | table | function | userdata =>
    obtain rfl := List.mem_singleton.mp hr
    trivial
  | _ => exact absurd hr List.not_mem_nil

/-- A table other than the registry table. -/
theorem table {t : TableRef} (ht : t ≠ w.machine.registry) : w'.table t = w.table t := by
  unfold World.table
  rw [h.tables t ht]

/-- A field other than the head of the free list. -/
theorem fieldOf (t : TableRef) {name : String} (hname : name ≠ Reference.freeField) :
    w'.fieldOf t name = w.fieldOf t name := by
  unfold World.fieldOf
  rw [h.isLive]
  by_cases hregistry : t = w.machine.registry
  · subst hregistry
    exact Table.getKey_congr (h.slots.texts name hname)
  · rw [h.table hregistry]

end Undisturbed

/-! ## Steps outside the heap of the machine -/

/-- A step that changes cells of the host and what is noted, but nothing of the heap of the
machine. -/
structure HostStep (w w' : World) : Prop where
  sameStack : w.machine.SameStack w'.machine
  registry : w'.machine.registry = w.machine.registry
  nextRef : w'.machine.nextRef = w.machine.nextRef
  tables : ∀ i, w'.tables.get? i = w.tables.get? i
  functions : ∀ i, w'.functions.get? i = w.functions.get? i
  userdata : ∀ i, w'.userdata.get? i = w.userdata.get? i
  roots : ∀ r, r.InMachine → w.Roots r → w'.Roots r
  session : w.machine.SessionLater w'.machine
  objects : ∀ o, w.Exposes o → w'.objects.get? o.index = w.objects.get? o.index
  unmade : ∀ o, w'.IsUnmade (.object o) → w.IsUnmade (.object o)

/-- A step that leaves the machines and their heap as they were. -/
theorem HostStep.of_same (htables : w'.tables = w.tables) (hfunctions : w'.functions = w.functions)
    (huserdata : w'.userdata = w.userdata) (hmachine : w'.machine = w.machine)
    (hparked : w'.parked = w.parked) (hhost : w'.hostRefs = w.hostRefs)
    (hobjects : ∀ o, w.Exposes o → w'.objects.get? o.index = w.objects.get? o.index)
    (hunmade : ∀ o, w'.IsUnmade (.object o) → w.IsUnmade (.object o)) : w.HostStep w' where
  sameStack := by
    rw [hmachine]
    exact .refl _
  registry := by rw [hmachine]
  nextRef := by rw [hmachine]
  tables _ := by rw [htables]
  functions _ := by rw [hfunctions]
  userdata _ := by rw [huserdata]
  roots r _ hr := by
    unfold Roots at hr ⊢
    rw [hmachine, hparked, hhost]
    exact hr
  session := by
    rw [hmachine]
    exact .refl _
  objects := hobjects
  unmade := hunmade

theorem HostStep.refl (w : World) : w.HostStep w :=
  .of_same rfl rfl rfl rfl rfl rfl (fun _ _ => rfl) fun _ h => h

theorem HostStep.undisturbed (h : w.HostStep w') : w.Undisturbed w' where
  stack v hv := by
    rw [h.sameStack.stack]
    exact hv
  registry := h.registry
  tables t _ := h.tables t.index
  alive := by rw [Store.contains_eq, Store.contains_eq, h.tables]
  slots := by
    unfold World.table
    rw [h.tables]
    exact .refl _
  kept r hr := by
    rw [cellRefs_table (h.tables _)]
    exact hr
  functions := h.functions
  userdata := h.userdata
  roots := h.roots
  session := h.session
  objects := h.objects

theorem HostStep.trans (h : w₁.HostStep w₂) (h' : w₂.HostStep w₃) : w₁.HostStep w₃ where
  sameStack := h.sameStack.trans h'.sameStack
  registry := h'.registry.trans h.registry
  nextRef := h'.nextRef.trans h.nextRef
  tables i := (h'.tables i).trans (h.tables i)
  functions i := (h'.functions i).trans (h.functions i)
  userdata i := (h'.userdata i).trans (h.userdata i)
  roots r hm hr := h'.roots r hm (h.roots r hm hr)
  session := h.session.trans h'.session
  objects o ho := (h'.objects o ((exposes_iff h.session o).mpr ho)).trans (h.objects o ho)
  unmade o ho := h.unmade o (h'.unmade o ho)

/-! ## Reclaiming memory -/

theorem queueRelease_refs (m : Machine) (session : Nat) (r : Int) :
    (m.queueRelease session r).refs = m.refs := by
  unfold Machine.refs Machine.queueRelease
  cases m.session with
  | none => rfl
  | some s =>
    dsimp only [Option.map_some]
    split <;> rfl

/-- Machines that hold what they held are roots as they were. -/
theorem Roots.of_machines {f : Machine → Machine} (h : w.Roots r)
    (hf : ∀ (m : Machine) r, r ∈ m.refs → r ∈ (f m).refs)
    (hstack : ∀ m : Machine, (f m).stack = m.stack) (hmachine : w'.machine = f w.machine)
    (hparked : w'.parked = w.parked.map f) (hhost : w'.hostRefs = w.hostRefs) : w'.Roots r := by
  have hholds (m : Machine) (hm : m.holds r = true) : (f m).holds r = true := by
    rw [Machine.holds_iff] at hm ⊢
    rw [hstack]
    exact hm.imp_right (hf m r)
  unfold Roots at h ⊢
  rw [hmachine, hparked, hhost]
  refine h.imp (hf _ _) (.imp_left ?_)
  rintro ⟨m, hm, hr⟩
  exact ⟨f m, List.mem_map_of_mem hm, hholds m hr⟩

/-- A cell of the machine that nothing holds is not there, so that its end changes nothing. -/
theorem reclaimed_hostStep (hw : w.Settled) {d : Dropped} {rest : List Dropped}
    (hfree : w.holds d.ref = false) : w.HostStep (w.reclaimed d rest) := by
  have hgone {v : Value} (hv : d.ref ∈ v.refs) : w.isLive v = false := by
    refine Bool.eq_false_iff.mpr fun hlive => ?_
    rw [hw v hlive _ hv] at hfree
    cases hfree
  obtain ⟨r, during⟩ := d
  cases r with
  | table t =>
    refine { HostStep.refl w with tables := fun i => Store.get?_erase_of_not_contains _ _ i ?_ }
    exact hgone (v := .table t) List.mem_cons_self
  | function f =>
    refine { HostStep.refl w with functions := fun i => Store.get?_erase_of_not_contains _ _ i ?_ }
    exact hgone (v := .function f) List.mem_cons_self
  | userdata u =>
    have hnone : w.userdata.get? u.index = none := by
      have hgone : w.isLive (.userdata u) = false := hgone List.mem_cons_self
      exact Option.not_isSome_iff_eq_none.mp (Bool.eq_false_iff.mp hgone)
    unfold reclaimed empty
    dsimp only
    rw [hnone]
    exact .of_same rfl rfl rfl rfl rfl rfl (fun _ _ => rfl) fun _ h => h
  | object o =>
    refine .of_same rfl rfl rfl rfl rfl rfl (fun o' ho' => ?_) fun o' ho' => ?_
    · -- An exposed object is held, so that it is another one.
      refine Store.get?_erase_of_ne _ fun hi => ?_
      have hholds := holds_of_exposes ho'
      rw [show o' = o from (ObjectRef.ext hi).symm, hfree] at hholds
      cases hholds
    · have ho' : (w.objects.erase o.index).next ≤ o'.index := ho'
      rw [Store.next_erase] at ho'
      exact ho'
  | handle h =>
    unfold reclaimed
    cases hh : w.handles.get? h.index with
    | none =>
      rw [empty_handle_none (w := { w with dropped := rest }) during hh]
      exact .of_same rfl rfl rfl rfl rfl rfl (fun _ _ => rfl) fun _ h => h
    | some cell =>
      -- The reference of the handle is noted for its session, and its slot stays as it is.
      rw [empty_handle_some (w := { w with dropped := rest }) during hh]
      refine { HostStep.refl w with
        sameStack := ⟨rfl, rfl, rfl⟩
        roots := fun r _ hr => hr.of_machines (f := (·.queueRelease cell.session cell.reference))
          (fun m r hr => ?_) (fun _ => rfl) rfl rfl rfl
        session := sessionLater_queueRelease _ _ _ }
      rw [queueRelease_refs]
      exact hr
  | dispatcher | cell => exact .of_same rfl rfl rfl rfl rfl rfl (fun _ _ => rfl) fun _ h => h

theorem settle_hostStep (hw : w.Settled) : w.HostStep w.settle := by
  refine settle_keeps (P := w.HostStep) (fun w' d rest _ h _ => h.trans ?_)
    (fun w' d rest _ h hfree => h.trans (reclaimed_hostStep (h.undisturbed.settled hw) hfree))
    (.refl w)
  exact .of_same rfl rfl rfl rfl rfl rfl (fun _ _ => rfl) fun _ h => h

theorem settle_nextRef (w : World) : w.settle.machine.nextRef = w.machine.nextRef :=
  settle_keeps (P := fun w' => w'.machine.nextRef = w.machine.nextRef) (fun _ _ _ _ h _ => h)
    (fun w' d rest _ h _ => ((empty_spares { w' with dropped := rest } d).nextRef).trans h) rfl

end World

end ScriptBridge
