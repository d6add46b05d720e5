import ScriptBridge.Memory.Reclaim
import ScriptBridge.Proofs.Memory.Store

/-!
# Settling

Looking at a note either passes it over, because a later note names the same reference or something
still holds it, or empties a cell. Whatever both keep is kept by settling. No cell is noted more
often than the heap held it, so settling comes to an end: after it no note is left.
-/

namespace ScriptBridge

namespace World

variable {w : World} {d : Dropped} {rest : List Dropped}

/-! ## One note -/

/-- The world in which the cell of the first note was emptied. -/
def reclaimed (w : World) (d : Dropped) (rest : List Dropped) : World :=
  { ({ w with dropped := rest }.empty d).1 with
    dropped := ({ w with dropped := rest }.empty d).2.map (⟨·, d.during⟩) ++ rest }

theorem settleStep_of_kept (h : w.dropped = d :: rest)
    (hkept : (rest.any (·.ref == d.ref) || w.holds d.ref) = true) :
    w.settleStep = { w with dropped := rest } := by
  unfold settleStep
  rw [h]
  exact if_pos hkept

theorem settleStep_of_free (h : w.dropped = d :: rest)
    (hfree : (rest.any (·.ref == d.ref) || w.holds d.ref) = false) :
    w.settleStep = w.reclaimed d rest := by
  unfold settleStep
  rw [h]
  exact if_neg (Bool.eq_false_iff.mp hfree)

/-! ## Machines -/

/-- The running machine and those that are set aside. -/
def machines (w : World) : List Machine := w.machine :: w.parked

/-- What no change of one machine changes is the same for all machines. -/
theorem map_modifyMachineOf {α : Type} (w : World) (id : Nat) {f : Machine → Machine}
    {g : Machine → α} (hf : ∀ m, g (f m) = g m) :
    (w.modifyMachineOf id f).machines.map g = w.machines.map g := by
  unfold modifyMachineOf
  split
  · simp [machines, hf]
  · simp only [machines, List.map_cons, List.map_map]
    congr 1
    refine List.map_congr_left fun m _ => ?_
    rw [Function.comp_apply]
    split
    · exact hf m
    · rfl

/-! ## What emptying a cell leaves -/

/-- Machines differ afterwards in graveyards and in queued references only. -/
theorem map_empty {α : Type} (w : World) (d : Dropped) {g : Machine → α}
    (hbury : ∀ m p, g (m.bury p) = g m) (hqueue : ∀ m s r, g (m.queueRelease s r) = g m) :
    (w.empty d).1.machines.map g = w.machines.map g := by
  obtain ⟨r, during⟩ := d
  cases r with
  | userdata u =>
    unfold empty
    dsimp only
    split
    · rfl
    · split
      · exact map_modifyMachineOf _ _ fun m => hbury m _
      · rfl
  | handle h =>
    unfold empty
    dsimp only
    split
    · rfl
    · rename_i cell _
      show (w.machines.map (·.queueRelease cell.session cell.reference)).map g = _
      rw [List.map_map]
      exact List.map_congr_left fun m _ => hqueue m _ _
  | _ => rfl

theorem modifyMachineOf_outside (w : World) (id : Nat) (p : Pending) :
    (w.modifyMachineOf id (·.bury p)).machine.registry = w.machine.registry ∧
      (w.modifyMachineOf id (·.bury p)).machine.nextRef = w.machine.nextRef ∧
      (w.modifyMachineOf id (·.bury p)).machine.session = w.machine.session ∧
      (w.modifyMachineOf id (·.bury p)).bindings = w.bindings ∧
      (w.modifyMachineOf id (·.bury p)).activations = w.activations ∧
      (w.modifyMachineOf id (·.bury p)).held = w.held ∧
      (w.modifyMachineOf id (·.bury p)).tables = w.tables ∧
      (w.modifyMachineOf id (·.bury p)).functions = w.functions ∧
      (w.modifyMachineOf id (·.bury p)).userdata = w.userdata ∧
      (w.modifyMachineOf id (·.bury p)).handles = w.handles := by
  unfold modifyMachineOf
  split <;> exact ⟨rfl, rfl, rfl, rfl, rfl, rfl, rfl, rfl, rfl, rfl⟩

/-- What emptying a cell leaves as it was, whatever the cell is. -/
structure Spares (w w' : World) (r : Ref) : Prop where
  registry : w'.machine.registry = w.machine.registry
  nextRef : w'.machine.nextRef = w.machine.nextRef
  bindings : w'.bindings = w.bindings
  activations : w'.activations = w.activations
  held : w'.held = w.held
  tables : ∀ t, r ≠ .table t → w'.tables.get? t.index = w.tables.get? t.index
  functions : ∀ f, r ≠ .function f → w'.functions.get? f.index = w.functions.get? f.index
  userdata : ∀ u, r ≠ .userdata u → w'.userdata.get? u.index = w.userdata.get? u.index
  handles : (∀ h, r ≠ .handle h) → w'.handles = w.handles
  session : (∀ h, r ≠ .handle h) → w'.machine.session = w.machine.session

theorem empty_spares (w : World) (d : Dropped) : w.Spares (w.empty d).1 d.ref := by
  obtain ⟨r, during⟩ := d
  cases r with
  | table t =>
    refine ⟨rfl, rfl, rfl, rfl, rfl, fun t' ht => ?_, fun _ _ => rfl, fun _ _ => rfl,
      fun _ => rfl, fun _ => rfl⟩
    exact Store.get?_erase_of_ne _ fun hi => ht (congrArg Ref.table (TableRef.ext hi))
  | function f =>
    refine ⟨rfl, rfl, rfl, rfl, rfl, fun _ _ => rfl, fun f' hf => ?_, fun _ _ => rfl,
      fun _ => rfl, fun _ => rfl⟩
    exact Store.get?_erase_of_ne _ fun hi => hf (congrArg Ref.function (FunctionRef.ext hi))
  | userdata u =>
    unfold empty
    dsimp only
    cases w.userdata.get? u.index with
    | none =>
      exact ⟨rfl, rfl, rfl, rfl, rfl, fun _ _ => rfl, fun _ _ => rfl, fun _ _ => rfl,
        fun _ => rfl, fun _ => rfl⟩
    | some cell =>
      have herase (u' : UserdataRef) (hu : Ref.userdata u ≠ .userdata u') :
          (w.userdata.erase u.index).get? u'.index = w.userdata.get? u'.index :=
        Store.get?_erase_of_ne _ fun hi => hu (congrArg Ref.userdata (UserdataRef.ext hi))
      let w₁ := { w with userdata := w.userdata.erase u.index }
      dsimp only
      cases w₁.finalizerTable? cell during with
      | some mt =>
        obtain ⟨hregistry, hnext, hsession, hbindings, hactivations, hheld, htables, hfunctions,
          huserdata, hhandles⟩ := w₁.modifyMachineOf_outside cell.home ⟨cell.payload, mt⟩
        exact ⟨hregistry, hnext, hbindings, hactivations, hheld, fun _ _ => by rw [htables],
          fun _ _ => by rw [hfunctions], fun u' hu => by rw [huserdata]; exact herase u' hu,
          fun _ => hhandles, fun _ => hsession⟩
      | none =>
        exact ⟨rfl, rfl, rfl, rfl, rfl, fun _ _ => rfl, fun _ _ => rfl, herase, fun _ => rfl,
          fun _ => rfl⟩
  | handle h =>
    unfold empty
    dsimp only
    cases w.handles.get? h.index with
    | none =>
      exact ⟨rfl, rfl, rfl, rfl, rfl, fun _ _ => rfl, fun _ _ => rfl, fun _ _ => rfl,
        fun _ => rfl, fun _ => rfl⟩
    | some cell =>
      exact ⟨rfl, rfl, rfl, rfl, rfl, fun _ _ => rfl, fun _ _ => rfl, fun _ _ => rfl,
        fun hh => absurd rfl (hh h), fun hh => absurd rfl (hh h)⟩
  | _ =>
    exact ⟨rfl, rfl, rfl, rfl, rfl, fun _ _ => rfl, fun _ _ => rfl, fun _ _ => rfl,
      fun _ => rfl, fun _ => rfl⟩

/-- Emptying the cell of a handle queues its reference. -/
theorem empty_handle_some {h : HandleRef} {cell : Handle} (during : Option TableRef)
    (hcell : w.handles.get? h.index = some cell) :
    w.empty ⟨.handle h, during⟩ = ({ w with
      handles := w.handles.erase h.index
      machine := w.machine.queueRelease cell.session cell.reference
      parked := w.parked.map (·.queueRelease cell.session cell.reference) }, []) := by
  unfold empty
  dsimp only
  rw [hcell]

theorem empty_handle_none {h : HandleRef} (during : Option TableRef)
    (hcell : w.handles.get? h.index = none) : w.empty ⟨.handle h, during⟩ = (w, []) := by
  unfold empty
  dsimp only
  rw [hcell]

theorem handles_of_empty {i : Nat} {cell : Handle}
    (h : (w.empty d).1.handles.get? i = some cell) : w.handles.get? i = some cell := by
  obtain ⟨r, during⟩ := d
  cases r with
  | handle h' =>
    cases hcell : w.handles.get? h'.index with
    | none =>
      rw [empty_handle_none during hcell] at h
      exact h
    | some cell' =>
      rw [empty_handle_some during hcell] at h
      exact Store.get?_of_erase _ h
  | _ =>
    rw [(empty_spares w ⟨_, during⟩).handles (fun _ => Ref.noConfusion)] at h
    exact h

theorem handles_next_empty (w : World) (d : Dropped) :
    (w.empty d).1.handles.next = w.handles.next := by
  obtain ⟨r, during⟩ := d
  cases r with
  | handle h =>
    cases hcell : w.handles.get? h.index with
    | none => rw [empty_handle_none during hcell]
    | some cell =>
      rw [empty_handle_some during hcell]
      exact Store.next_erase _ _
  | _ => rw [(empty_spares w ⟨_, during⟩).handles (fun _ => Ref.noConfusion)]

/-- The reference of a handle of another session is queued elsewhere. -/
theorem session_of_empty {s : Session} (hs : w.machine.session = some s)
    (hother : ∀ h cell, d.ref = .handle h → w.handles.get? h.index = some cell →
      cell.session ≠ s.id) : (w.empty d).1.machine.session = some s := by
  obtain ⟨r, during⟩ := d
  cases r with
  | handle h =>
    cases hcell : w.handles.get? h.index with
    | none =>
      rw [empty_handle_none during hcell]
      exact hs
    | some cell =>
      rw [empty_handle_some during hcell]
      show w.machine.session.map _ = some s
      rw [hs, Option.map_some,
        if_neg fun he => hother h cell rfl hcell (beq_iff_eq.mp he).symm]
  | _ =>
    rw [(empty_spares w ⟨_, during⟩).session (fun _ => Ref.noConfusion)]
    exact hs

/-- Emptying a cell at most queues references for release in the session. -/
theorem session_empty (w : World) (d : Dropped) : ∃ queue : Session → List Int,
    (w.empty d).1.machine.session =
      w.machine.session.map fun s => { s with releases := queue s } := by
  have hsame (h : (w.empty d).1.machine.session = w.machine.session) : ∃ queue : Session → List Int,
      (w.empty d).1.machine.session =
        w.machine.session.map fun s => { s with releases := queue s } := by
    refine ⟨Session.releases, h.trans ?_⟩
    cases w.machine.session with
    | none => rfl
    | some s => rfl
  obtain ⟨r, during⟩ := d
  cases r with
  | handle h =>
    cases hcell : w.handles.get? h.index with
    | none =>
      rw [empty_handle_none during hcell] at hsame ⊢
      exact hsame rfl
    | some cell =>
      rw [empty_handle_some during hcell]
      refine ⟨fun s => if s.id == cell.session then s.releases ++ [cell.reference]
        else s.releases, ?_⟩
      show w.machine.session.map _ = w.machine.session.map _
      congr 1
      funext s
      dsimp only
      split <;> rfl
  | _ => exact hsame ((empty_spares w ⟨_, during⟩).session fun _ => Ref.noConfusion)

/-- Only the cell of the dispatcher itself goes. -/
theorem dispatchers_empty {r : DispatcherRef} (h : d.ref ≠ .dispatcher r) :
    (w.empty d).1.dispatchers.get? r.index = w.dispatchers.get? r.index := by
  obtain ⟨x, during⟩ := d
  cases x with
  | dispatcher r' =>
    refine Store.get?_erase_of_ne _ fun hi => h ?_
    obtain ⟨i⟩ := r
    obtain rfl : r'.index = i := hi
    rfl
  | handle a =>
    cases hcell : w.handles.get? a.index with
    | none => rw [empty_handle_none during hcell]
    | some cell => rw [empty_handle_some during hcell]
  | userdata u =>
    unfold empty
    dsimp only
    cases w.userdata.get? u.index with
    | none => rfl
    | some cell =>
      dsimp only
      split
      · unfold modifyMachineOf
        split <;> rfl
      · rfl
  | _ => rfl

/-- A value is still in the heap unless its cell was emptied. -/
theorem Spares.isLive {w' : World} {r : Ref} (h : w.Spares w' r) {v : Value} (hv : r ∉ v.refs) :
    w'.isLive v = w.isLive v := by
  cases v with
  | table t =>
    show w'.tables.contains t.index = w.tables.contains t.index
    rw [Store.contains_eq, Store.contains_eq, h.tables t fun he => hv (List.mem_singleton.mpr he)]
  | function f =>
    show w'.functions.contains f.index = w.functions.contains f.index
    rw [Store.contains_eq, Store.contains_eq,
      h.functions f fun he => hv (List.mem_singleton.mpr he)]
  | userdata u =>
    show w'.userdata.contains u.index = w.userdata.contains u.index
    rw [Store.contains_eq, Store.contains_eq, h.userdata u fun he => hv (List.mem_singleton.mpr he)]
  | _ => rfl

/-! ## What is kept -/

/-- What both outcomes of looking at a note keep is kept by settling. -/
theorem settle_keeps {P : World → Prop}
    (kept : ∀ (w : World) (d : Dropped) (rest : List Dropped), w.dropped = d :: rest → P w →
      (∃ d' ∈ rest, d'.ref = d.ref) ∨ w.holds d.ref = true → P { w with dropped := rest })
    (emptied : ∀ (w : World) (d : Dropped) (rest : List Dropped), w.dropped = d :: rest → P w →
      w.holds d.ref = false → P (w.reclaimed d rest))
    (hw : P w) : P w.settle := by
  have hstep (w : World) (hw : P w) : P w.settleStep := by
    cases h : w.dropped with
    | nil =>
      unfold settleStep
      rw [h]
      exact hw
    | cons d rest =>
      cases hkeep : rest.any (·.ref == d.ref) || w.holds d.ref with
      | true =>
        rw [settleStep_of_kept h hkeep]
        refine kept w d rest h hw ?_
        rw [Bool.or_eq_true, List.any_eq_true] at hkeep
        exact hkeep.imp_left fun ⟨d', hd', he⟩ => ⟨d', hd', beq_iff_eq.mp he⟩
      | false =>
        rw [settleStep_of_free h hkeep]
        rw [Bool.or_eq_false_iff] at hkeep
        exact emptied w d rest h hw hkeep.2
  have hsteps (fuel : Nat) (w : World) (hw : P w) : P (w.settleSteps fuel) := by
    induction fuel generalizing w with
    | zero => exact hw
    | succ fuel ih =>
      unfold settleSteps
      split
      · exact hw
      · exact ih _ (hstep w hw)
  unfold settle
  split
  · exact hw
  · exact hsteps _ w hw

/-! ## Coming to an end -/

theorem length_getD_map {α : Type} (f : α → List Ref) (o : Option α) :
    ((o.map f).getD []).length = (o.map fun a => (f a).length).getD 0 := by
  cases o with
  | none => rfl
  | some a => rfl

theorem heapSize_modifyMachineOf (w : World) (id : Nat) (f : Machine → Machine) :
    (w.modifyMachineOf id f).heapSize = w.heapSize := by
  unfold modifyMachineOf
  split <;> rfl

/-- What emptying a cell notes is no longer in the heap. -/
theorem empty_heapSize (w : World) (d : Dropped) :
    (w.empty d).1.heapSize + (w.empty d).2.length ≤ w.heapSize := by
  obtain ⟨r, during⟩ := d
  cases r with
  | table t =>
    have hsum := w.tables.sum_erase (i := t.index) (·.refs.length)
    have hlength := length_getD_map Table.refs (w.tables.get? t.index)
    unfold empty heapSize
    dsimp only
    omega
  | function f =>
    have hsum := w.functions.sum_erase (i := f.index) (·.refs.length)
    have hlength := length_getD_map Function.refs (w.functions.get? f.index)
    unfold empty heapSize
    dsimp only
    omega
  | userdata u =>
    unfold empty
    dsimp only
    cases hu : w.userdata.get? u.index with
    | none => exact Nat.le_refl _
    | some cell =>
      have hsum := w.userdata.sum_erase (i := u.index) (·.refs.length)
      rw [hu] at hsum
      have hsum : (w.userdata.erase u.index).sum (·.refs.length) + cell.refs.length =
        w.userdata.sum (·.refs.length) := hsum
      let w₁ := { w with userdata := w.userdata.erase u.index }
      have hsize : w₁.heapSize + cell.refs.length = w.heapSize := by
        unfold heapSize
        dsimp only [w₁]
        omega
      dsimp only
      cases w₁.finalizerTable? cell during with
      | some mt =>
        show (w₁.modifyMachineOf cell.home (·.bury ⟨cell.payload, mt⟩)).heapSize ≤ w.heapSize
        rw [heapSize_modifyMachineOf]
        omega
      | none => exact Nat.le_of_eq hsize
  | object o =>
    have hsum := w.objects.sum_erase (i := o.index) (·.refs.length)
    have hlength := length_getD_map HostObject.refs (w.objects.get? o.index)
    unfold empty heapSize
    dsimp only
    omega
  | handle h =>
    unfold empty
    dsimp only
    cases w.handles.get? h.index with
    | none => exact Nat.le_refl _
    | some cell => exact Nat.le_refl _
  | dispatcher d =>
    have hsum := w.dispatchers.sum_erase (i := d.index) (·.refs.length)
    have hlength := length_getD_map Dispatcher.refs (w.dispatchers.get? d.index)
    unfold empty heapSize
    dsimp only
    omega
  | cell c =>
    have hsum := w.cells.sum_erase (i := c.index) (·.refs.length)
    have hlength := length_getD_map Cell.refs (w.cells.get? c.index)
    unfold empty heapSize
    dsimp only
    omega

/-- Each note that is looked at brings the end nearer. -/
theorem settleStep_size (h : w.dropped ≠ []) :
    w.settleStep.dropped.length + w.settleStep.heapSize < w.dropped.length + w.heapSize := by
  obtain ⟨d, rest, h⟩ := List.exists_cons_of_ne_nil h
  cases hkeep : rest.any (·.ref == d.ref) || w.holds d.ref with
  | true =>
    rw [settleStep_of_kept h hkeep, h]
    exact Nat.add_lt_add_right (Nat.lt_succ_self _) _
  | false =>
    rw [settleStep_of_free h hkeep, h]
    have hsize := empty_heapSize { w with dropped := rest } d
    have hwhole : { w with dropped := rest }.heapSize = w.heapSize := rfl
    have hrest : (w.reclaimed d rest).heapSize =
      ({ w with dropped := rest }.empty d).1.heapSize := rfl
    have hnotes : (w.reclaimed d rest).dropped.length =
        ({ w with dropped := rest }.empty d).2.length + rest.length := by
      unfold reclaimed
      rw [List.length_append, List.length_map]
    rw [List.length_cons]
    omega

/-- After settling no note is left. -/
theorem settle_dropped (w : World) : w.settle.dropped = [] := by
  have hsteps (fuel : Nat) (w : World) (h : w.dropped.length + w.heapSize ≤ fuel) :
      (w.settleSteps fuel).dropped = [] := by
    induction fuel generalizing w with
    | zero => exact List.eq_nil_of_length_eq_zero (by unfold settleSteps; omega)
    | succ fuel ih =>
      unfold settleSteps
      split
      · rename_i hnil
        exact List.isEmpty_iff.mp hnil
      · rename_i hcons
        have hsize := settleStep_size fun hnil => hcons (List.isEmpty_iff.mpr hnil)
        exact ih _ (by omega)
  unfold settle
  split
  · rename_i hnil
    exact List.isEmpty_iff.mp hnil
  · exact hsteps _ w (Nat.le_refl _)

end World

end ScriptBridge
