import ScriptBridge.Proofs.Memory.Userdata
import ScriptBridge.Proofs.Stack.Discipline

/-!
# Finalizers

A userdata waits for its finalizer until it dies. Then it is queued in the graveyard of its machine,
where a collection finds it.

1. Reclaiming memory queues no userdata twice (`settle_due_le`), and of those whose metatable has a
   finalizer it queues each that dies (`settle_due`).
2. What dies while its own metatable is written is lost (`settle_loses`, `rawSetField_loses`).
3. A collection calls one finalizer after the other, each with its userdata, until none is queued.
   What finalizers raise does not keep the others from running (`finalize_calls`, `collect_ok`,
   `collect_error`).
-/

namespace ScriptBridge

namespace World

variable {w : World} {x : Payload} {u : UserdataRef} {c : Userdata} {mt : TableRef}
  {d : Dropped} {during : Option TableRef} {rest : List Dropped}

/-! ## What is due -/

/-- How many userdata with a payload wait for their finalizers. -/
def waiting (w : World) (x : Payload) : Nat :=
  w.userdata.sum fun c => if c.finalized = false ∧ c.payload = x then 1 else 0

/-- How many userdata with a payload are in the graveyards. -/
def queued (w : World) (x : Payload) : Nat :=
  (w.machines.flatMap Machine.graveyard).countP (·.payload = x)

/-- How many finalizers are still to run for a payload. -/
def due (w : World) (x : Payload) : Nat := w.waiting x + w.queued x

theorem queued_congr {w' : World}
    (h : w'.machines.map Machine.graveyard = w.machines.map Machine.graveyard) :
    w'.queued x = w.queued x := by
  unfold queued
  rw [List.flatMap_def, List.flatMap_def, h]

theorem waiting_erase (hc : w.userdata.get? u.index = some c) (x : Payload) :
    { w with userdata := w.userdata.erase u.index }.waiting x +
      (if c.finalized = false ∧ c.payload = x then 1 else 0) = w.waiting x := by
  have hsum := w.userdata.sum_erase (i := u.index)
    fun c => if c.finalized = false ∧ c.payload = x then 1 else 0
  rw [hc] at hsum
  exact hsum

/-! ## Burying -/

theorem machines_modifyMachineOf (hids : (w.machines.map Machine.id).Nodup) (id : Nat)
    (f : Machine → Machine) :
    (w.modifyMachineOf id f).machines = w.machines.map fun m => if m.id == id then f m else m := by
  unfold modifyMachineOf
  split
  · rename_i hid
    have hothers (m : Machine) (hm : m ∈ w.parked) : (m.id == id) = false := by
      rw [beq_eq_false_iff_ne]
      intro he
      refine (List.nodup_cons.mp hids).1 ?_
      rw [beq_iff_eq.mp hid, ← he]
      exact List.mem_map_of_mem hm
    show f w.machine :: w.parked = _
    rw [machines, List.map_cons, if_pos hid]
    refine congrArg _ ((List.map_id _).symm.trans (List.map_congr_left fun m hm => ?_))
    rw [hothers m hm]
    rfl
  · rename_i hid
    rw [machines, machines, List.map_cons, if_neg hid]

theorem countP_bury {l : List Machine} (hids : (l.map Machine.id).Nodup) {id : Nat}
    (hhome : id ∈ l.map Machine.id) (p : Pending) (q : Pending → Bool) :
    ((l.map fun m => if m.id == id then m.bury p else m).flatMap Machine.graveyard).countP q =
      (l.flatMap Machine.graveyard).countP q + [p].countP q := by
  induction l with
  | nil => cases hhome
  | cons m rest ih =>
    rw [List.map_cons] at hids hhome
    obtain ⟨hnot, hrest⟩ := List.nodup_cons.mp hids
    rw [List.map_cons, List.flatMap_cons, List.flatMap_cons, List.countP_append,
      List.countP_append]
    by_cases hid : m.id = id
    · -- No other machine has this id.
      have hothers : (rest.map fun m => if m.id == id then m.bury p else m) = rest := by
        refine (List.map_congr_left fun m' hm' => ?_).trans (List.map_id _)
        refine if_neg fun he => hnot ?_
        rw [hid, ← beq_iff_eq.mp he]
        exact List.mem_map_of_mem hm'
      rw [hothers, if_pos (beq_iff_eq.mpr hid)]
      show (m.graveyard ++ [p]).countP q + _ = _
      rw [List.countP_append, Nat.add_right_comm]
    · have hhome : id ∈ rest.map Machine.id := by
        rcases List.mem_cons.mp hhome with he | hmem
        · exact absurd he.symm hid
        · exact hmem
      rw [if_neg fun he => hid (beq_iff_eq.mp he), ih hrest hhome, Nat.add_assoc]

theorem hasMachine_iff {id : Nat} : w.hasMachine id = true ↔ id ∈ w.machines.map Machine.id := by
  unfold hasMachine machines
  rw [Bool.or_eq_true, beq_iff_eq, List.any_eq_true, List.map_cons, List.mem_cons, List.mem_map]
  simp only [beq_iff_eq]
  rw [eq_comm]

/-- Burying adds one, if the machine is there. -/
theorem queued_bury (hids : (w.machines.map Machine.id).Nodup) {id : Nat}
    (hhome : w.hasMachine id = true) (p : Pending) :
    (w.modifyMachineOf id (·.bury p)).queued x =
      w.queued x + if p.payload = x then 1 else 0 := by
  unfold queued
  rw [machines_modifyMachineOf hids, countP_bury hids (hasMachine_iff.mp hhome),
    List.countP_singleton]
  simp only [decide_eq_true_eq]

theorem finalizerTable?_eq_some (h : w.finalizerTable? c during = some mt) :
    c.finalized = false ∧ c.metatable = some mt ∧ during ≠ some mt ∧
      w.hasMachine c.home = true := by
  unfold finalizerTable? at h
  split at h
  · rename_i mt' hmt
    split at h
    · rename_i hcond
      obtain rfl := Option.some.inj h
      simp only [Bool.and_eq_true, Bool.not_eq_true', bne_iff_ne, ne_eq] at hcond
      obtain ⟨⟨⟨hfinalized, hduring⟩, -⟩, hhome⟩ := hcond
      exact ⟨hfinalized, hmt, hduring, hhome⟩
    · cases h
  · cases h

/-! ## One note -/

theorem empty_of_other (h : ∀ u, d.ref ≠ .userdata u) (x : Payload) :
    (w.empty d).1.waiting x = w.waiting x ∧ (w.empty d).1.queued x = w.queued x := by
  obtain ⟨r, during⟩ := d
  cases r with
  | userdata u => exact absurd rfl (h u)
  | handle a =>
    cases hcell : w.handles.get? a.index with
    | none =>
      rw [empty_handle_none during hcell]
      exact ⟨rfl, rfl⟩
    | some cell =>
      rw [empty_handle_some during hcell]
      refine ⟨rfl, queued_congr ?_⟩
      show (w.machines.map (·.queueRelease cell.session cell.reference)).map _ = _
      rw [List.map_map]
      rfl
  | _ => exact ⟨rfl, rfl⟩

/-- A userdata that dies is queued, or it waited no more, or it was lost. -/
theorem empty_userdata_due (hids : (w.machines.map Machine.id).Nodup)
    (hc : w.userdata.get? u.index = some c) (during : Option TableRef) (x : Payload) :
    w.queued x ≤ (w.empty ⟨.userdata u, during⟩).1.queued x ∧
      (w.empty ⟨.userdata u, during⟩).1.due x +
        (if { w with userdata := w.userdata.erase u.index }.finalizerTable? c during = none ∧
          c.finalized = false ∧ c.payload = x then 1 else 0) = w.due x := by
  let w₁ : World := { w with userdata := w.userdata.erase u.index }
  have hwaiting : w₁.waiting x + (if c.finalized = false ∧ c.payload = x then 1 else 0) =
      w.waiting x := waiting_erase hc x
  have hqueued : w₁.queued x = w.queued x := rfl
  cases hmt : w₁.finalizerTable? c during with
  | none =>
    rw [empty_of_unburied hc hmt]
    refine ⟨Nat.le_refl _, ?_⟩
    show w₁.waiting x + w₁.queued x + _ = w.waiting x + w.queued x
    rw [← hwaiting, hqueued]
    simp only [true_and]
    omega
  | some mt =>
    obtain ⟨hfinalized, -, -, hhome⟩ := finalizerTable?_eq_some hmt
    let w₂ : World := w₁.modifyMachineOf c.home (·.bury ⟨c.payload, mt⟩)
    have hburied : w₂.queued x = w₁.queued x + if c.payload = x then 1 else 0 :=
      queued_bury (w := w₁) hids hhome ⟨c.payload, mt⟩
    have hsame : w₂.waiting x = w₁.waiting x := by
      unfold waiting w₂ modifyMachineOf
      split <;> rfl
    rw [empty_of_buried hc hmt]
    show w.queued x ≤ w₂.queued x ∧ w₂.waiting x + w₂.queued x + _ = w.waiting x + w.queued x
    rw [hburied, hsame, ← hwaiting, hqueued]
    simp only [hfinalized, true_and, reduceCtorEq, false_and, if_false]
    omega

/-- No note adds to what is due, and none takes anything out of a graveyard. -/
theorem reclaimed_due_le (hids : (w.machines.map Machine.id).Nodup) (d : Dropped)
    (rest : List Dropped) (x : Payload) :
    w.queued x ≤ (w.reclaimed d rest).queued x ∧ (w.reclaimed d rest).due x ≤ w.due x := by
  let w₁ : World := { w with dropped := rest }
  show w₁.queued x ≤ (w₁.empty d).1.queued x ∧ (w₁.empty d).1.due x ≤ w₁.due x
  by_cases h : ∃ u, d.ref = .userdata u
  · obtain ⟨u, hu⟩ := h
    obtain ⟨r, during⟩ := d
    obtain rfl : r = .userdata u := hu
    cases hc : w₁.userdata.get? u.index with
    | none =>
      rw [empty_of_gone hc]
      exact ⟨Nat.le_refl _, Nat.le_refl _⟩
    | some c =>
      obtain ⟨hle, hdue⟩ := empty_userdata_due (w := w₁) hids hc during x
      exact ⟨hle, Nat.le_of_add_right_le (Nat.le_of_eq hdue)⟩
  · obtain ⟨hwaiting, hqueued⟩ := empty_of_other (w := w₁) (fun u hu => h ⟨u, hu⟩) x
    unfold due
    rw [hwaiting, hqueued]
    exact ⟨Nat.le_refl _, Nat.le_refl _⟩

/-- A note takes nothing off what is due, if the userdata it is about has a finalizer. -/
theorem reclaimed_due (hids : (w.machines.map Machine.id).Nodup) {x : Payload}
    (h : ∀ u c, d.ref = .userdata u → w.userdata.get? u.index = some c → c.finalized = false →
      c.payload = x → ({ w with
        userdata := w.userdata.erase u.index, dropped := rest }.finalizerTable? c
          d.during).isSome) :
    (w.reclaimed d rest).due x = w.due x := by
  let w₁ : World := { w with dropped := rest }
  show (w₁.empty d).1.due x = w₁.due x
  by_cases hu : ∃ u, d.ref = .userdata u
  · obtain ⟨u, hu⟩ := hu
    obtain ⟨r, during⟩ := d
    obtain rfl : r = .userdata u := hu
    cases hc : w₁.userdata.get? u.index with
    | none => rw [empty_of_gone hc]
    | some c =>
      obtain ⟨-, hdue⟩ := empty_userdata_due (w := w₁) hids hc during x
      rw [if_neg] at hdue
      · exact hdue
      · rintro ⟨hnone, hfinalized, hpayload⟩
        exact Option.isSome_iff_ne_none.mp (h u c rfl hc hfinalized hpayload) hnone
  · obtain ⟨hwaiting, hqueued⟩ := empty_of_other (w := w₁) (fun u he => hu ⟨u, he⟩) x
    unfold due
    rw [hwaiting, hqueued]

/-- A userdata that dies while its own metatable is written is not queued. -/
theorem reclaimed_loses (hids : (w.machines.map Machine.id).Nodup)
    (hc : w.userdata.get? u.index = some c) (hfinalized : c.finalized = false)
    (hmt : c.metatable = some mt) :
    (w.reclaimed ⟨.userdata u, some mt⟩ rest).due c.payload + 1 = w.due c.payload := by
  let w₁ : World := { w with dropped := rest }
  have hnone : { w₁ with userdata := w₁.userdata.erase u.index }.finalizerTable? c (some mt) =
      none := by
    cases hsome : { w₁ with userdata := w₁.userdata.erase u.index }.finalizerTable? c (some mt) with
    | none => rfl
    | some mt' =>
      obtain ⟨-, hmt', hduring, -⟩ := finalizerTable?_eq_some hsome
      exact absurd (hmt.symm.trans hmt') hduring
  obtain ⟨-, hdue⟩ := empty_userdata_due (w := w₁) hids hc (some mt) c.payload
  rw [if_pos ⟨hnone, hfinalized, rfl⟩] at hdue
  exact hdue

/-! ## Settling -/

/-- The machine of a userdata is there and its metatable has a finalizer, which no note hides. -/
def Heeds (w : World) (c : Userdata) : Prop :=
  w.hasMachine c.home = true ∧ ∃ mt table e f, c.metatable = some mt ∧
    w.tables.get? mt.index = some table ∧ table.find? (.text "__gc") = some e ∧
      e.slot = .strong (.function f) ∧ ∀ d ∈ w.dropped, d.during ≠ some mt

/-- The ids of machines stay. -/
theorem ids_reclaimed (w : World) (d : Dropped) (rest : List Dropped) :
    (w.reclaimed d rest).machines.map Machine.id = w.machines.map Machine.id :=
  { w with dropped := rest }.map_empty d (fun _ _ => rfl) fun _ _ _ => rfl

theorem Heeds.isSome (h : w.Heeds c) (hfinalized : c.finalized = false) (hd : d ∈ w.dropped)
    (userdata : Store Userdata) (rest : List Dropped) :
    ({ w with userdata, dropped := rest }.finalizerTable? c d.during).isSome := by
  obtain ⟨hhome, mt, table, e, f, hmt, htable, he, hslot, hnotes⟩ := h
  have hfield : { w with userdata, dropped := rest }.fieldOf mt "__gc" = .function f :=
    fieldOf_of_find? htable he hslot
  have hhome : { w with userdata, dropped := rest }.hasMachine c.home = true := hhome
  have hduring : (d.during != some mt) = true := bne_iff_ne.mpr (hnotes d hd)
  unfold finalizerTable?
  rw [hmt]
  dsimp only
  rw [hfield, hfinalized, hduring, hhome]
  rfl

/-- What a userdata holds, its metatable, is there as long as the userdata. -/
theorem Heeds.reclaimed (h : w.Heeds c) (hfirst : w.dropped = d :: rest)
    (hfree : w.holds d.ref = false) {i : Nat} (hc : w.userdata.get? i = some c) :
    (w.reclaimed d rest).Heeds c := by
  obtain ⟨hhome, mt, table, e, f, hmt, htable, he, hslot, hnotes⟩ := h
  have hspares := empty_spares { w with dropped := rest } d
  -- The userdata holds its metatable, so that is not the cell that goes.
  have hother : d.ref ≠ .table mt := by
    intro heq
    have hmem : Ref.table mt ∈ w.cellRefs (.userdata ⟨i⟩) := by
      show Ref.table mt ∈ ((w.userdata.get? i).map Userdata.refs).getD []
      rw [hc]
      show Ref.table mt ∈ (c.metatable.map Ref.table).toList
      rw [hmt]
      exact List.mem_singleton_self _
    rw [heq, holds_of_cell hmem] at hfree
    cases hfree
  refine ⟨?_, mt, table, e, f, hmt, (hspares.tables mt hother).trans htable, he, hslot,
    fun d' hd' => ?_⟩
  · rw [hasMachine_iff, ids_reclaimed]
    exact hasMachine_iff.mp hhome
  · rcases List.mem_append.mp hd' with hd' | hd'
    · obtain ⟨r, -, rfl⟩ := List.mem_map.mp hd'
      exact hnotes d (hfirst ▸ List.mem_cons_self)
    · exact hnotes d' (hfirst ▸ List.mem_cons_of_mem _ hd')

/-- Settling queues nothing twice. -/
theorem settle_due_le (hids : (w.machines.map Machine.id).Nodup) (x : Payload) :
    w.queued x ≤ w.settle.queued x ∧ w.settle.due x ≤ w.due x := by
  have hkept := settle_keeps (w := w)
    (P := fun w' => (w'.machines.map Machine.id).Nodup ∧
      w.queued x ≤ w'.queued x ∧ w'.due x ≤ w.due x)
    (fun _ _ _ _ h _ => h)
    (fun w' d rest _ h _ => by
      obtain ⟨hids, hqueued, hdue⟩ := h
      obtain ⟨hmore, hless⟩ := reclaimed_due_le hids d rest x
      exact ⟨ids_reclaimed w' d rest ▸ hids, hqueued.trans hmore, hless.trans hdue⟩)
    ⟨hids, Nat.le_refl _, Nat.le_refl _⟩
  exact hkept.2

/-- Settling queues each userdata that dies, if all that wait have finalizers. -/
theorem settle_due (hids : (w.machines.map Machine.id).Nodup) {x : Payload}
    (h : ∀ u c, w.userdata.get? u = some c → c.finalized = false → c.payload = x → w.Heeds c) :
    w.settle.due x = w.due x := by
  have hkept := settle_keeps (w := w)
    (P := fun w' => (w'.machines.map Machine.id).Nodup ∧
      (∀ u c, w'.userdata.get? u = some c → c.finalized = false → c.payload = x → w'.Heeds c) ∧
      w'.due x = w.due x)
    (fun w' d rest hfirst h _ => by
      obtain ⟨hids, hheeds, hdue⟩ := h
      refine ⟨hids, fun u c hc hfinalized hpayload => ?_, hdue⟩
      obtain ⟨hhome, mt, table, e, f, hmt, htable, he, hslot, hnotes⟩ :=
        hheeds u c hc hfinalized hpayload
      exact ⟨hhome, mt, table, e, f, hmt, htable, he, hslot,
        fun d' hd' => hnotes d' (hfirst ▸ List.mem_cons_of_mem _ hd')⟩)
    (fun w' d rest hfirst h hfree => by
      obtain ⟨hids, hheeds, hdue⟩ := h
      refine ⟨ids_reclaimed w' d rest ▸ hids, fun u c hc hfinalized hpayload => ?_, ?_⟩
      · have hc := ({ w' with dropped := rest }.empty_shrinks d).2.2.1 u c hc
        exact (hheeds u c hc hfinalized hpayload).reclaimed hfirst hfree hc
      · rw [← hdue]
        exact reclaimed_due hids fun u c _ hc hfinalized hpayload =>
          (hheeds _ c hc hfinalized hpayload).isSome hfinalized (hfirst ▸ List.mem_cons_self) _ _)
    ⟨hids, h, rfl⟩
  exact hkept.2.2

/-- A userdata that is let go of while its own metatable is written dies without its finalizer. -/
theorem settle_loses (hids : (w.machines.map Machine.id).Nodup)
    (hc : w.userdata.get? u.index = some c) (hfinalized : c.finalized = false)
    (hmt : c.metatable = some mt) (hfree : ¬ w.HoldsUserdata u)
    (hnoted : w.dropped = [⟨.userdata u, some mt⟩]) :
    w.settle.userdata.get? u.index = none ∧ w.settle.due c.payload < w.due c.payload := by
  refine ⟨gone_of_settle hfree ⟨_, hnoted ▸ List.mem_cons_self, rfl⟩, ?_⟩
  have hkept := settle_keeps (w := w)
    (P := fun w' => (w'.machines.map Machine.id).Nodup ∧
      (w' = w ∨ w'.due c.payload < w.due c.payload))
    (fun w' d rest hfirst h hkeep => by
      rcases h with ⟨hids, rfl | hless⟩
      · rw [hnoted] at hfirst
        cases hfirst
        rcases hkeep with ⟨d', hd', -⟩ | hholds
        · cases hd'
        · exact absurd (holds_userdata_iff.mp hholds) hfree
      · exact ⟨hids, .inr hless⟩)
    (fun w' d rest hfirst h _ => by
      obtain ⟨hids, h⟩ := h
      refine ⟨ids_reclaimed w' d rest ▸ hids, .inr ?_⟩
      rcases h with rfl | hless
      · rw [hnoted] at hfirst
        cases hfirst
        exact Nat.lt_of_succ_le (Nat.le_of_eq (reclaimed_loses hids hc hfinalized hmt))
      · exact Nat.lt_of_le_of_lt (reclaimed_due_le hids d rest _).2 hless)
    ⟨hids, .inl rfl⟩
  rcases hkept.2 with hsame | hless
  · -- After settling no note is left, but the world began with one.
    have hnone := w.settle_dropped
    rw [hsame, hnoted] at hnone
    cases hnone
  · exact hless

/-- A raw write that takes a userdata out of its own metatable loses it, if nothing else holds
it. -/
theorem rawSetField_loses (hids : (w.machines.map Machine.id).Nodup)
    (hc : w.userdata.get? u.index = some c) (hfinalized : c.finalized = false)
    (hmt : c.metatable = some mt) {name : String}
    (hset : ((w.table mt).setText name .nil).2 = [.userdata u]) (hdropped : w.dropped = [])
    (hfree : ¬ (rawSetField mt name .nil w).2.HoldsUserdata u) :
    (rawSetField mt name .nil w).2.settle.userdata.get? u.index = none ∧
      (rawSetField mt name .nil w).2.settle.due c.payload < w.due c.payload := by
  rw [rawSetField_eq, hset] at hfree ⊢
  let w₁ : World := w.withTable mt ((w.table mt).setText name .nil).1 [.userdata u]
  have hnoted : w₁.dropped = [⟨.userdata u, some mt⟩] := by
    show w.dropped ++ _ = _
    rw [hdropped]
    rfl
  exact settle_loses (w := w₁) hids hc hfinalized hmt hfree hnoted

end World

/-! ## Collecting -/

section

variable {w w' : World} {E : Engine} {p : Pending}

/-- The world in which the finalizer of a userdata is called: its function and the userdata that
came back are on top of the stack. -/
def World.summoned (w : World) (p : Pending) (f : FunctionRef) : World :=
  { w with
    userdata := w.userdata.add {
      payload := p.payload, metatable := some p.metatable, home := w.machine.id, finalized := true }
    machine := (w.machine.push (.function f)).push (.userdata ⟨w.userdata.next⟩)
    held := w.held.erase (.table p.metatable)
    dropped := w.dropped ++ [⟨.table p.metatable, none⟩] }

/-- A finalizer is called once, with its userdata, and what it leaves on the stack goes. -/
theorem finalize_calls (E : Engine) {f : FunctionRef}
    (hf : w.fieldOf p.metatable "__gc" = .function f) :
    finalize E p w = (do
      let _ ← protectedCall E 1 0
      setTop w.machine.top : Script Unit) (w.summoned p f) := by
  have hget : rawGetField p.metatable "__gc" w = (.function f, w) := by
    rw [← hf]
    rfl
  unfold finalize
  rw [bind_of_ok (lift_of_eq hget)]
  rfl

/-- A metatable that lost its finalizer lets the userdata go. -/
theorem finalize_of_other (E : Engine) (hf : ∀ f, w.fieldOf p.metatable "__gc" ≠ .function f) :
    ∃ w', finalize E p w = .ok () w' := by
  have hget : rawGetField p.metatable "__gc" w = (w.fieldOf p.metatable "__gc", w) := rfl
  unfold finalize
  rw [bind_of_ok (lift_of_eq hget)]
  cases hv : w.fieldOf p.metatable "__gc" with
  | function f => exact absurd hv (hf f)
  | _ => exact ⟨_, rfl⟩

/-- What a finalizer raises is dropped. -/
theorem finalize_error {e : Raise} (h : finalize E p w = .error e w') : e = .exhausted := by
  by_cases hf : ∃ f, w.fieldOf p.metatable "__gc" = .function f
  · obtain ⟨f, hf⟩ := hf
    rw [finalize_calls E hf] at h
    cases hcall : protectedCall E 1 0 (w.summoned p f) with
    | ok status w₁ =>
      rw [bind_of_ok hcall] at h
      cases h
    | error e' w₁ =>
      rw [bind_of_error hcall] at h
      cases h
      exact protectedCall_error hcall
  · obtain ⟨w₁, hok⟩ := finalize_of_other E fun f he => hf ⟨f, he⟩
    rw [hok] at h
    cases h

theorem finalizeAll_error {e : Raise} {batch : List Pending}
    (h : batch.forM (finalize E) w = .error e w') : e = .exhausted := by
  induction batch generalizing w with
  | nil => cases h
  | cons p rest ih =>
    have h : (finalize E p >>= fun _ => rest.forM (finalize E)) w = .error e w' := h
    cases hrun : finalize E p w with
    | ok a w₁ =>
      rw [bind_of_ok hrun] at h
      exact ih h
    | error e' w₁ =>
      rw [bind_of_error hrun] at h
      cases h
      exact finalize_error hrun

/-- The world in which a round of finalizers begins. -/
def World.unearthed (w : World) : World :=
  { w with
    machine := { w.machine with graveyard := [] }
    held := w.machine.graveyard.map (Ref.table ·.metatable) ++ w.held }

/-- A round of a collection that finds something. -/
theorem collectRounds_of_some (hsome : w.machine.graveyard ≠ []) (E : Engine)
    (count fuel : Nat) :
    collectRounds E count (fuel + 1) w = (do
      w.machine.graveyard.forM (finalize E)
      collectRounds E (count + w.machine.graveyard.length) fuel : Script Nat) w.unearthed := by
  have htake : takeGraveyard w =
      (w.machine.graveyard, { w with machine := { w.machine with graveyard := [] } }) := rfl
  have hempty : ¬ w.machine.graveyard.isEmpty = true := by
    rw [List.isEmpty_iff]
    exact hsome
  rw [collectRounds, bind_of_ok (lift_of_eq htake), if_neg hempty]
  rfl

theorem collectRounds_of_none (h : w.machine.graveyard = []) (E : Engine) (count fuel : Nat) :
    collectRounds E count (fuel + 1) w = .ok count w := by
  have htake : takeGraveyard w = ([], w) := by
    show (w.machine.graveyard, { w with machine := { w.machine with graveyard := [] } }) = ([], w)
    rw [h, ← h]
  unfold collectRounds
  rw [bind_of_ok (lift_of_eq htake)]
  rfl

/-- Nothing but the end of nesting or of the rounds stops a collection. -/
theorem collect_error {e : Raise} (h : collect E w = .error e w') : e = .exhausted := by
  have hrounds (fuel count : Nat) (w : World) (h : collectRounds E count fuel w = .error e w') :
      e = .exhausted := by
    induction fuel generalizing count w with
    | zero =>
      cases h
      rfl
    | succ fuel ih =>
      by_cases hnone : w.machine.graveyard = []
      · rw [collectRounds_of_none hnone] at h
        cases h
      · rw [collectRounds_of_some hnone] at h
        cases hrun : w.machine.graveyard.forM (finalize E) w.unearthed with
        | ok a w₂ =>
          rw [bind_of_ok hrun] at h
          exact ih _ _ h
        | error e' w₂ =>
          rw [bind_of_error hrun] at h
          cases h
          exact finalizeAll_error hrun
  exact hrounds _ _ w h

/-- After a collection nothing is queued; it ran at least the finalizers that were. -/
theorem collect_ok {n : Nat} (h : collect E w = .ok n w') :
    w'.machine.graveyard = [] ∧ w.machine.graveyard.length ≤ n := by
  have hrounds (fuel count : Nat) (w : World) (h : collectRounds E count fuel w = .ok n w') :
      w'.machine.graveyard = [] ∧ count + w.machine.graveyard.length ≤ n := by
    induction fuel generalizing count w with
    | zero => cases h
    | succ fuel ih =>
      by_cases hnone : w.machine.graveyard = []
      · rw [collectRounds_of_none hnone] at h
        cases h
        exact ⟨hnone, by rw [hnone]; exact Nat.le_refl _⟩
      · rw [collectRounds_of_some hnone] at h
        cases hrun : w.machine.graveyard.forM (finalize E) w.unearthed with
        | ok a w₂ =>
          rw [bind_of_ok hrun] at h
          obtain ⟨hend, hle⟩ := ih _ _ h
          exact ⟨hend, Nat.le_of_add_right_le hle⟩
        | error e' w₂ =>
          rw [bind_of_error hrun] at h
          cases h
  obtain ⟨hend, hle⟩ := hrounds _ _ w h
  exact ⟨hend, (Nat.zero_add _).symm.trans_le hle⟩

end

end ScriptBridge
