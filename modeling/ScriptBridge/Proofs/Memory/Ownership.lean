import ScriptBridge.Bridge.Conversion
import ScriptBridge.Proofs.Program
import ScriptBridge.Proofs.Host.Catalog
import ScriptBridge.Proofs.Memory.Store

/-!
# What reclaiming memory cannot touch

While a call is prepared, new objects and handles are on their way from one function to the next
and nothing in the world holds them. They survive because reclaiming looks only at references
that were let go of. `World.Owns` says of some references that none of them was let go of and that
only cells among them hold them; `World.Later` says that a world follows another one without
harm to these references or to exposed objects. Reclaiming memory is such a step, and so are the
steps that make new cells or let go of other references.
-/

namespace ScriptBridge

/-! ## References in cells -/

/-- What the cell of a reference holds. -/
def World.cellRefs (w : World) : Ref → List Ref
  | .table t => ((w.tables.get? t.index).map Table.refs).getD []
  | .function f => ((w.functions.get? f.index).map Function.refs).getD []
  | .userdata u => ((w.userdata.get? u.index).map Userdata.refs).getD []
  | .object o => ((w.objects.get? o.index).map HostObject.refs).getD []
  | .handle _ => []
  | .dispatcher d => ((w.dispatchers.get? d.index).map Dispatcher.refs).getD []
  | .cell c => ((w.cells.get? c.index).map Cell.refs).getD []

/-- An object with an id in the session's registry. -/
def World.Exposes (w : World) (o : ObjectRef) : Prop :=
  ∃ s id, w.machine.session = some s ∧ s.registry.resolve? id = some o

/-- A reference to a host cell that was never made. -/
def World.IsUnmade (w : World) : Ref → Prop
  | .object o => w.objects.next ≤ o.index
  | .handle h => w.handles.next ≤ h.index
  | _ => False

/-- Nothing in a world points to a cell that was never made, and its catalog is keyed by name. -/
structure World.Sound (w : World) : Prop where
  dropped : ∀ d ∈ w.dropped, ¬ w.IsUnmade d.ref
  held : ∀ c, ∀ r ∈ w.cellRefs c, ¬ w.IsUnmade r
  exposed : ∀ o, w.Exposes o → ¬ w.IsUnmade (.object o)
  keyed : ∀ s, w.machine.session = some s → s.catalog.IsKeyed

/-- References to objects and handles that only this list holds: none was let go of, none is
exposed, and only cells of the list hold them. -/
structure World.Owns (w : World) (L : List Ref) : Prop where
  host : ∀ r ∈ L, (∃ o, r = .object o) ∨ ∃ h, r = .handle h
  made : ∀ r ∈ L, ¬ w.IsUnmade r
  dropped : ∀ d ∈ w.dropped, d.ref ∉ L
  held : ∀ c, ∀ r ∈ w.cellRefs c, r ∈ L → c ∈ L
  exposed : ∀ o, w.Exposes o → .object o ∉ L

/-! ## Later sessions -/

/-- A session that conversions leave behind: ids, options and the policy are as before, and only
array classes joined the catalog. -/
structure Session.Later (s s' : Session) : Prop where
  id : s'.id = s.id
  options : s'.options = s.options
  adapters : s'.adapters = s.adapters
  registry : s'.registry = s.registry
  objects : s'.objects = s.objects
  catalog : s.catalog.Grows s'.catalog

theorem Session.Later.refl (s : Session) : s.Later s := ⟨rfl, rfl, rfl, rfl, rfl, .refl _⟩

theorem Session.Later.trans {s₁ s₂ s₃ : Session} (h : s₁.Later s₂) (h' : s₂.Later s₃) :
    s₁.Later s₃ :=
  ⟨h'.id.trans h.id, h'.options.trans h.options, h'.adapters.trans h.adapters,
    h'.registry.trans h.registry, h'.objects.trans h.objects, h.catalog.trans h'.catalog⟩

/-- The same for worlds that may have no session. -/
def Machine.SessionLater (m m' : Machine) : Prop :=
  match m.session, m'.session with
  | some s, some s' => s.Later s'
  | none, none => True
  | _, _ => False

/-! ## Later worlds -/

/-- A world that follows another one, without harm to the references of a list or to exposed
objects; dispatchers may be gone, but those that are left are as they were. -/
structure World.Later (L : List Ref) (w w' : World) : Prop where
  sound : w'.Sound
  owns : w'.Owns L
  session : w.machine.SessionLater w'.machine
  objects : ∀ o, w.Exposes o ∨ .object o ∈ L → w'.objects.get? o.index = w.objects.get? o.index
  handles : ∀ h, .handle h ∈ L → w'.handles.get? h.index = w.handles.get? h.index
  dispatchers : ∀ i d, w'.dispatchers.get? i = some d → w.dispatchers.get? i = some d
  unmade : ∀ r, w'.IsUnmade r → w.IsUnmade r

theorem Machine.SessionLater.refl (m : Machine) : m.SessionLater m := by
  unfold SessionLater
  cases m.session with
  | none => trivial
  | some s => exact .refl s

theorem Machine.SessionLater.trans {m₁ m₂ m₃ : Machine} (h : m₁.SessionLater m₂)
    (h' : m₂.SessionLater m₃) : m₁.SessionLater m₃ := by
  unfold SessionLater at *
  cases h₁ : m₁.session <;> cases h₂ : m₂.session <;> cases h₃ : m₃.session <;>
    rw [h₁, h₂] at h <;> rw [h₂, h₃] at h'
  · trivial
  · exact h'.elim
  · exact h.elim
  · exact h.elim
  · exact h.elim
  · exact h.elim
  · exact h'.elim
  · exact h.trans h'

/-- The session after, for a session before. -/
theorem Machine.SessionLater.of_some {m m' : Machine} (h : m.SessionLater m') {s : Session}
    (hs : m.session = some s) : ∃ s', m'.session = some s' ∧ s.Later s' := by
  unfold SessionLater at h
  rw [hs] at h
  cases hs' : m'.session with
  | none =>
    rw [hs'] at h
    exact h.elim
  | some s' =>
    rw [hs'] at h
    exact ⟨s', rfl, h⟩

theorem Machine.SessionLater.to_some {m m' : Machine} (h : m.SessionLater m') {s' : Session}
    (hs : m'.session = some s') : ∃ s, m.session = some s ∧ s.Later s' := by
  unfold SessionLater at h
  rw [hs] at h
  cases hm : m.session with
  | none =>
    rw [hm] at h
    exact h.elim
  | some s =>
    rw [hm] at h
    exact ⟨s, rfl, h⟩

/-- What no later session changes is read alike, whether there is a session or not. -/
theorem Machine.SessionLater.map_eq {α : Type} {m m' : Machine} (h : m.SessionLater m')
    {f : Session → α} (hf : ∀ s s', s.Later s' → f s' = f s) :
    m'.session.map f = m.session.map f := by
  cases hs' : m'.session with
  | some s' =>
    obtain ⟨s, hs, hl⟩ := h.to_some hs'
    rw [hs]
    exact congrArg some (hf s s' hl)
  | none =>
    cases hs : m.session with
    | none => rfl
    | some s =>
      obtain ⟨s', hs'', -⟩ := h.of_some hs
      rw [hs'] at hs''
      cases hs''

namespace World

variable {w w' w₁ w₂ w₃ : World} {L : List Ref}

theorem exposes_iff (h : w.machine.SessionLater w'.machine) (o : ObjectRef) :
    w'.Exposes o ↔ w.Exposes o := by
  constructor
  · rintro ⟨s', id, hs', ho⟩
    obtain ⟨s, hs, hl⟩ := h.to_some hs'
    exact ⟨s, id, hs, hl.registry ▸ ho⟩
  · rintro ⟨s, id, hs, ho⟩
    obtain ⟨s', hs', hl⟩ := h.of_some hs
    exact ⟨s', id, hs', hl.registry.symm ▸ ho⟩

theorem Later.refl (hw : w.Sound) (hL : w.Owns L) : w.Later L w :=
  ⟨hw, hL, .refl _, fun _ _ => rfl, fun _ _ => rfl, fun _ _ h => h, fun _ h => h⟩

theorem Later.trans (h : Later L w₁ w₂) (h' : Later L w₂ w₃) : Later L w₁ w₃ where
  sound := h'.sound
  owns := h'.owns
  session := h.session.trans h'.session
  objects o ho := by
    rw [h'.objects o (ho.imp (exposes_iff h.session o).mpr fun hL => hL), h.objects o ho]
  handles a ha := by rw [h'.handles a ha, h.handles a ha]
  dispatchers i d hd := h.dispatchers i d (h'.dispatchers i d hd)
  unmade r hr := h.unmade r (h'.unmade r hr)

/-! ## Steps that make no host cell -/

/-- A step that makes no object or handle, and lets go only of references that were made and are
not on the list. -/
theorem Later.of_sameCells (hw : w.Sound) (hL : w.Owns L)
    (hobjects : ∀ o, w.Exposes o ∨ .object o ∈ L → w'.objects.get? o.index = w.objects.get? o.index)
    (hhandles : ∀ h, .handle h ∈ L → w'.handles.get? h.index = w.handles.get? h.index)
    (hdispatchers : ∀ i d, w'.dispatchers.get? i = some d → w.dispatchers.get? i = some d)
    (hunmade : ∀ r, w'.IsUnmade r → w.IsUnmade r)
    (hcells : ∀ c, ∀ r ∈ w'.cellRefs c, r ∈ w.cellRefs c ∨ (¬ w.IsUnmade r ∧ r ∉ L))
    (hdropped : ∀ d ∈ w'.dropped, d ∈ w.dropped ∨ (¬ w.IsUnmade d.ref ∧ d.ref ∉ L))
    (hsession : w.machine.SessionLater w'.machine)
    (hkeyed : ∀ s, w'.machine.session = some s → s.catalog.IsKeyed) : w.Later L w' where
  sound := {
    dropped := fun d hd hu => (hdropped d hd).elim (hw.dropped d) (·.1) (hunmade _ hu)
    held := fun c r hr hu => (hcells c r hr).elim (hw.held c r) (·.1) (hunmade _ hu)
    exposed := fun o ho hu => hw.exposed o ((exposes_iff hsession o).mp ho) (hunmade _ hu)
    keyed := hkeyed }
  owns := {
    host := hL.host
    made := fun r hr hu => hL.made r hr (hunmade r hu)
    dropped := fun d hd => (hdropped d hd).elim (hL.dropped d) (·.2)
    held := fun c r hr hrL => (hcells c r hr).elim (fun h => hL.held c r h hrL)
      fun h => absurd hrL h.2
    exposed := fun o ho => hL.exposed o ((exposes_iff hsession o).mp ho) }
  session := hsession
  objects := hobjects
  handles := hhandles
  dispatchers := hdispatchers
  unmade := hunmade

/-! ## Reclaiming memory -/

/-- What emptying a cell leaves as it was. -/
structure Emptied (w : World) (r : Ref) (w' : World) (refs : List Ref) : Prop where
  refs : ∀ x ∈ refs, x ∈ w.cellRefs r
  cells : ∀ c, ∀ x ∈ w'.cellRefs c, x ∈ w.cellRefs c
  objects : ∀ o, .object o ≠ r → w'.objects.get? o.index = w.objects.get? o.index
  handles : ∀ h, .handle h ≠ r → w'.handles.get? h.index = w.handles.get? h.index
  dispatchers : ∀ i d, w'.dispatchers.get? i = some d → w.dispatchers.get? i = some d
  unmade : ∀ x, w'.IsUnmade x ↔ w.IsUnmade x
  session : w.machine.SessionLater w'.machine
  keyed : (∀ s, w.machine.session = some s → s.catalog.IsKeyed) →
    ∀ s, w'.machine.session = some s → s.catalog.IsKeyed

theorem mem_refs_erase {α : Type} {s : Store α} {i j : Nat} {f : α → List Ref} {x : Ref}
    (h : x ∈ (((s.erase i).get? j).map f).getD []) : x ∈ ((s.get? j).map f).getD [] := by
  rw [Store.get?_erase] at h
  split at h
  · cases h
  · exact h

/-- Burying a userdata changes no session. -/
theorem sessionLater_bury (w : World) (id : Nat) (p : Pending) :
    (w.modifyMachineOf id (·.bury p)).machine.session = w.machine.session := by
  unfold modifyMachineOf
  split <;> rfl

theorem sessionLater_queueRelease (m : Machine) (session : Nat) (r : Int) :
    m.SessionLater (m.queueRelease session r) := by
  unfold Machine.SessionLater Machine.queueRelease
  cases m.session with
  | none => trivial
  | some s =>
    dsimp only [Option.map_some]
    split <;> exact ⟨rfl, rfl, rfl, rfl, rfl, .refl _⟩

theorem keyed_queueRelease {m : Machine} {session : Nat} {r : Int}
    (h : ∀ s, m.session = some s → s.catalog.IsKeyed) :
    ∀ s, (m.queueRelease session r).session = some s → s.catalog.IsKeyed := by
  intro s' hs'
  unfold Machine.queueRelease at hs'
  cases hs : m.session with
  | none =>
    rw [hs] at hs'
    cases hs'
  | some s =>
    rw [hs, Option.map_some] at hs'
    have hcatalog : s'.catalog = s.catalog := by
      rw [← Option.some.inj hs']
      split <;> rfl
    rw [hcatalog]
    exact h s hs

theorem Emptied.of_session {r : Ref} {refs : List Ref} (hrefs : ∀ x ∈ refs, x ∈ w.cellRefs r)
    (hcells : ∀ c, ∀ x ∈ w'.cellRefs c, x ∈ w.cellRefs c) (hobjects : w'.objects = w.objects)
    (hhandles : w'.handles = w.handles)
    (hdispatchers : ∀ i d, w'.dispatchers.get? i = some d → w.dispatchers.get? i = some d)
    (hsession : w'.machine.session = w.machine.session) :
    w.Emptied r w' refs where
  refs := hrefs
  cells := hcells
  objects _ _ := by rw [hobjects]
  handles _ _ := by rw [hhandles]
  dispatchers := hdispatchers
  unmade x := by
    cases x with
    | object o =>
      show w'.objects.next ≤ _ ↔ _
      rw [hobjects]
      rfl
    | handle h =>
      show w'.handles.next ≤ _ ↔ _
      rw [hhandles]
      rfl
    | _ => exact .rfl
  session := by
    unfold Machine.SessionLater
    rw [hsession]
    cases w.machine.session with
    | none => trivial
    | some s => exact .refl s
  keyed h := by
    rw [hsession]
    exact h

theorem Emptied.unchanged (w : World) (r : Ref) : w.Emptied r w [] :=
  .of_session (fun _ hx => absurd hx List.not_mem_nil) (fun _ _ hx => hx) rfl rfl
    (fun _ _ h => h) rfl

theorem modifyMachineOf_cells (w : World) (id : Nat) (f : Machine → Machine) :
    (w.modifyMachineOf id f).cellRefs = w.cellRefs ∧
      (w.modifyMachineOf id f).objects = w.objects ∧
      (w.modifyMachineOf id f).handles = w.handles ∧
      (w.modifyMachineOf id f).dispatchers = w.dispatchers := by
  unfold modifyMachineOf
  split <;> exact ⟨rfl, rfl, rfl, rfl⟩

/-- Emptying a userdata may bury it. -/
theorem empty_userdata (w : World) (u : UserdataRef) (during : Option TableRef) :
    w.Emptied (.userdata u) (w.empty ⟨.userdata u, during⟩).1
      (w.empty ⟨.userdata u, during⟩).2 := by
  unfold empty
  dsimp only
  cases hu : w.userdata.get? u.index with
  | none => exact .unchanged w _
  | some cell =>
    let w₁ := { w with userdata := w.userdata.erase u.index }
    have hcells : ∀ c, ∀ x ∈ w₁.cellRefs c, x ∈ w.cellRefs c := by
      intro c x hx
      cases c with
      | userdata => exact mem_refs_erase hx
      | _ => exact hx
    dsimp only
    cases w₁.finalizerTable? cell during with
    | some mt =>
      obtain ⟨hc, ho, hh, hd⟩ := modifyMachineOf_cells w₁ cell.home (·.bury ⟨cell.payload, mt⟩)
      exact .of_session (fun _ hx => absurd hx List.not_mem_nil)
        (fun c x hx => hcells c x (hc ▸ hx)) ho hh (fun _ _ h => hd ▸ h) (sessionLater_bury _ _ _)
    | none =>
      refine .of_session (fun x hx => ?_) hcells rfl rfl (fun _ _ h => h) rfl
      show x ∈ ((w.userdata.get? u.index).map Userdata.refs).getD []
      rw [hu]
      exact hx

/-- Emptying an object lets go of what it held. -/
theorem empty_object (w : World) (o : ObjectRef) (during : Option TableRef) :
    w.Emptied (.object o) (w.empty ⟨.object o, during⟩).1 (w.empty ⟨.object o, during⟩).2 where
  refs _ hx := hx
  cells c x hx := by
    cases c with
    | object => exact mem_refs_erase hx
    | _ => exact hx
  objects o' ho' := by
    refine Store.get?_erase_of_ne _ fun hi => ho' ?_
    obtain ⟨i⟩ := o'
    cases hi
    rfl
  handles _ _ := rfl
  dispatchers _ _ h := h
  unmade x := by
    cases x with
    | object o' =>
      show (w.objects.erase o.index).next ≤ o'.index ↔ _
      rw [Store.next_erase]
      rfl
    | _ => exact .rfl
  session := .refl _
  keyed h := h

/-- Emptying a handle queues its reference for release. -/
theorem empty_handle (w : World) (h : HandleRef) (during : Option TableRef) :
    w.Emptied (.handle h) (w.empty ⟨.handle h, during⟩).1 (w.empty ⟨.handle h, during⟩).2 := by
  unfold empty
  dsimp only
  cases w.handles.get? h.index with
  | none => exact .unchanged w _
  | some cell =>
    exact {
      refs := fun _ hx => absurd hx List.not_mem_nil
      cells := fun _ _ hx => hx
      objects := fun _ _ => rfl
      handles := fun h' hh' => Store.get?_erase_of_ne _ fun hi => hh' (by
        obtain ⟨i⟩ := h'
        cases hi
        rfl)
      dispatchers := fun _ _ h => h
      unmade := fun x => by
        cases x with
        | handle h' =>
          show (w.handles.erase h.index).next ≤ h'.index ↔ _
          rw [Store.next_erase]
          rfl
        | _ => exact .rfl
      session := sessionLater_queueRelease _ _ _
      keyed := keyed_queueRelease }

theorem empty_emptied (w : World) (d : Dropped) :
    w.Emptied d.ref (w.empty d).1 (w.empty d).2 := by
  obtain ⟨r, during⟩ := d
  cases r with
  | table t =>
    refine .of_session (fun _ hx => hx) (fun c x hx => ?_) rfl rfl (fun _ _ h => h) rfl
    cases c with
    | table => exact mem_refs_erase hx
    | _ => exact hx
  | function f =>
    refine .of_session (fun _ hx => hx) (fun c x hx => ?_) rfl rfl (fun _ _ h => h) rfl
    cases c with
    | function => exact mem_refs_erase hx
    | _ => exact hx
  | userdata u => exact w.empty_userdata u during
  | object o => exact w.empty_object o during
  | handle h => exact w.empty_handle h during
  | dispatcher d =>
    refine .of_session (fun _ hx => hx) (fun c x hx => ?_) rfl rfl
      (fun _ _ h => Store.get?_of_erase _ h) rfl
    cases c with
    | dispatcher => exact mem_refs_erase hx
    | _ => exact hx
  | cell c' =>
    refine .of_session (fun _ hx => hx) (fun c x hx => ?_) rfl rfl (fun _ _ h => h) rfl
    cases c with
    | cell => exact mem_refs_erase hx
    | _ => exact hx

/-- What the session's registry holds is not reclaimed. -/
theorem holds_of_exposes {o : ObjectRef} (h : w.Exposes o) : w.holds (.object o) = true := by
  obtain ⟨s, id, hs, ho⟩ := h
  have hmem : Ref.object o ∈ s.registry.objects.map fun p => Ref.object p.2 := by
    unfold Registry.resolve? Dictionary.get? at ho
    obtain ⟨p, hp, rfl⟩ := Option.map_eq_some_iff.mp ho
    exact List.mem_map.mpr ⟨p, List.mem_of_find?_eq_some hp, rfl⟩
  have hrefs : Ref.object o ∈ w.machine.refs := by
    unfold Machine.refs Session.refs
    rw [hs]
    simp only [Option.map_some, Option.getD_some, List.mem_append]
    exact .inr (.inl (.inl (.inl (.inl (.inl (.inr hmem))))))
  unfold holds Machine.holds
  rw [List.contains_iff_mem.mpr hrefs, Bool.or_true, Bool.true_or, Bool.true_or, Bool.true_or]

theorem settleStep_later (hw : w.Sound) (hL : w.Owns L) : w.Later L w.settleStep := by
  unfold settleStep
  cases hdropped : w.dropped with
  | nil => exact .refl hw hL
  | cons d rest =>
    dsimp only
    split
    · exact .of_sameCells hw hL (fun _ _ => rfl) (fun _ _ => rfl) (fun _ _ h => h) (fun _ h => h)
        (fun _ _ hr => .inl hr)
        (fun d' hd' => .inl (hdropped ▸ List.mem_cons_of_mem d hd')) (.refl _) hw.keyed
    · rename_i hkeep
      let w₁ := { w with dropped := rest }
      have hd : d ∈ w.dropped := hdropped ▸ List.mem_cons_self
      have he : w₁.Emptied d.ref (w₁.empty d).1 (w₁.empty d).2 := w₁.empty_emptied d
      have hrefs : ∀ r ∈ (w₁.empty d).2, ¬ w.IsUnmade r ∧ r ∉ L := fun r hr =>
        have hr : r ∈ w.cellRefs d.ref := he.refs r hr
        ⟨hw.held _ r hr, fun hrL => hL.dropped d hd (hL.held _ r hr hrL)⟩
      have hfree : w₁.holds d.ref = false := by
        rw [Bool.or_eq_true, not_or, Bool.not_eq_true, Bool.not_eq_true] at hkeep
        exact hkeep.2
      refine .of_sameCells hw hL (fun o ho => he.objects o fun hod => ?_)
        (fun h hh => he.handles h fun hhd => hL.dropped d hd (hhd ▸ hh)) he.dispatchers
        (fun r => (he.unmade r).mp)
        (fun c r hr => .inl (he.cells c r hr)) (fun d' hd' => ?_) he.session (he.keyed hw.keyed)
      · obtain ho | ho := ho
        · have hholds : w₁.holds (.object o) = true := holds_of_exposes ho
          rw [hod, hfree] at hholds
          cases hholds
        · exact hL.dropped d hd (hod ▸ ho)
      · obtain hd' | hd' := List.mem_append.mp hd'
        · obtain ⟨r, hr, rfl⟩ := List.mem_map.mp hd'
          exact .inr (hrefs r hr)
        · exact .inl (hdropped ▸ List.mem_cons_of_mem d hd')

theorem settleSteps_later (fuel : Nat) (hw : w.Sound) (hL : w.Owns L) :
    w.Later L (w.settleSteps fuel) := by
  induction fuel generalizing w with
  | zero => exact .refl hw hL
  | succ fuel ih =>
    unfold settleSteps
    split
    · exact .refl hw hL
    · have hstep := settleStep_later hw hL
      exact hstep.trans (ih hstep.sound hstep.owns)

theorem settle_later (hw : w.Sound) (hL : w.Owns L) : w.Later L w.settle := by
  unfold settle
  split
  · exact .refl hw hL
  · exact settleSteps_later _ hw hL

/-! ## Letting go of references -/

theorem discard_later (hw : w.Sound) (hL : w.Owns L) (refs : List Ref)
    (during : Option TableRef := none) (h : ∀ r ∈ refs, ¬ w.IsUnmade r ∧ r ∉ L) :
    w.Later L (discard refs during w).2 := by
  unfold discard
  split
  · exact .refl hw hL
  · refine .of_sameCells hw hL (fun _ _ => rfl) (fun _ _ => rfl) (fun _ _ h => h) (fun _ h => h)
      (fun _ _ hr => .inl hr) (fun d hd => ?_) (.refl _) hw.keyed
    obtain hd | hd := List.mem_append.mp hd
    · exact .inl hd
    · obtain ⟨r, hr, rfl⟩ := List.mem_map.mp hd
      exact .inr (h r hr)

theorem release_later (hw : w.Sound) (hL : w.Owns L) (refs : List Ref)
    (during : Option TableRef := none) (h : ∀ r ∈ refs, ¬ w.IsUnmade r ∧ r ∉ L) :
    w.Later L (release refs during w).2 := by
  have hd := discard_later hw hL refs during h
  exact hd.trans (settle_later hd.sound hd.owns)

/-- References into the machine are never on the list, and always made. -/
theorem vmRef_free (hL : w.Owns L) {r : Ref} (h : (∀ o, r ≠ .object o) ∧ ∀ a, r ≠ .handle a) :
    ¬ w.IsUnmade r ∧ r ∉ L := by
  constructor
  · cases r with
    | object o => exact absurd rfl (h.1 o)
    | handle a => exact absurd rfl (h.2 a)
    | _ => exact fun h => h
  · intro hr
    obtain ⟨o, rfl⟩ | ⟨a, rfl⟩ := hL.host r hr
    · exact h.1 o rfl
    · exact h.2 a rfl

theorem valueRef_free (hL : w.Owns L) {v : Value} {r : Ref} (hr : r ∈ v.refs) :
    ¬ w.IsUnmade r ∧ r ∉ L := by
  refine vmRef_free hL ?_
  cases v with
  | table | function | userdata =>
    obtain rfl := List.mem_singleton.mp hr
    exact ⟨fun _ => Ref.noConfusion, fun _ => Ref.noConfusion⟩
  | _ => exact absurd hr List.not_mem_nil

/-! ## New cells -/

theorem owns_nil (w : World) : w.Owns [] :=
  ⟨fun _ h => absurd h List.not_mem_nil, fun _ h => absurd h List.not_mem_nil,
    fun _ _ => List.not_mem_nil, fun _ _ _ h => absurd h List.not_mem_nil,
    fun _ _ => List.not_mem_nil⟩

/-- A step that makes new cells `N`. What `refs` mention after it is new or exposed, whatever was
owned before is still owned, and so are the new cells beside it. -/
structure Makes (w : World) (N refs : List Ref) (w' : World) : Prop where
  fresh : ∀ r ∈ N, w.IsUnmade r
  later : ∀ L, w.Owns L → w.Later L w'
  owns : ∀ L, w.Owns L → w'.Owns (N ++ L)
  refs : ∀ r ∈ refs, r ∈ N ∨ ∃ o, r = .object o ∧ w'.Exposes o

theorem Makes.sound {N refs : List Ref} (h : w.Makes N refs w') : w'.Sound :=
  (h.later [] w.owns_nil).sound

theorem Makes.session {N refs : List Ref} (h : w.Makes N refs w') :
    w.machine.SessionLater w'.machine :=
  (h.later [] w.owns_nil).session

theorem Makes.unmade {N refs : List Ref} (h : w.Makes N refs w') {r : Ref}
    (hr : w'.IsUnmade r) : w.IsUnmade r :=
  (h.later [] w.owns_nil).unmade r hr

/-- What a step made survives the next one. -/
theorem Makes.objects {N N' refs refs' : List Ref} (h : w.Makes N refs w₁)
    (h' : w₁.Makes N' refs' w₂) {o : ObjectRef} (ho : w₁.Exposes o ∨ .object o ∈ N) :
    w₂.objects.get? o.index = w₁.objects.get? o.index := by
  refine (h'.later _ (h.owns [] w.owns_nil)).objects o ?_
  rw [List.append_nil]
  exact ho

/-- A step that leaves nothing new behind. -/
theorem Makes.of_later (hlater : ∀ L, w.Owns L → w.Later L w') : w.Makes [] [] w' where
  fresh _ h := absurd h List.not_mem_nil
  later := hlater
  owns L hL := (hlater L hL).owns
  refs _ h := absurd h List.not_mem_nil

theorem Makes.refl (hw : w.Sound) : w.Makes [] [] w := .of_later fun _ hL => .refl hw hL

theorem Makes.trans {N N' refs refs' : List Ref} (h : w₁.Makes N refs w₂)
    (h' : w₂.Makes N' refs' w₃) : w₁.Makes (N' ++ N) (refs ++ refs') w₃ where
  fresh r hr := by
    obtain hr | hr := List.mem_append.mp hr
    · exact h.unmade (h'.fresh r hr)
    · exact h.fresh r hr
  later L hL := (h.later L hL).trans (h'.later L (h.later L hL).owns)
  owns L hL := by
    rw [List.append_assoc]
    exact h'.owns _ (h.owns L hL)
  refs r hr := by
    obtain hr | hr := List.mem_append.mp hr
    · obtain hN | ⟨o, rfl, ho⟩ := h.refs r hr
      · exact .inl (List.mem_append_right _ hN)
      · exact .inr ⟨o, rfl, (exposes_iff h'.session o).mpr ho⟩
    · obtain hN | ho := h'.refs r hr
      · exact .inl (List.mem_append_left _ hN)
      · exact .inr ho

theorem Makes.after {N refs : List Ref} (h : w.Makes [] [] w₁) (h' : w₁.Makes N refs w₂) :
    w.Makes N refs w₂ := by
  have h := h.trans h'
  rw [List.append_nil, List.nil_append] at h
  exact h

theorem Makes.before {N refs : List Ref} (h : w.Makes N refs w₁) (h' : w₁.Makes [] [] w₂) :
    w.Makes N refs w₂ := by
  have h := h.trans h'
  rw [List.append_nil, List.nil_append] at h
  exact h

/-- Fewer references may be mentioned. -/
theorem Makes.mono {N refs refs' : List Ref} (h : w.Makes N refs w') (hr : refs' ⊆ refs) :
    w.Makes N refs' w' :=
  ⟨h.fresh, h.later, h.owns, fun r hr' => h.refs r (hr hr')⟩

/-- What was made is not among what was owned before. -/
theorem Makes.free {N refs : List Ref} (h : w.Makes N refs w') {L : List Ref} (hL : w.Owns L)
    {r : Ref} (hr : r ∈ refs) : ¬ w'.IsUnmade r ∧ r ∉ L := by
  obtain hN | ⟨o, rfl, ho⟩ := h.refs r hr
  · exact ⟨(h.owns L hL).made r (List.mem_append_left _ hN),
      fun hrL => hL.made r hrL (h.fresh r hN)⟩
  · exact ⟨h.sound.exposed o ho, (h.later L hL).owns.exposed o ho⟩

/-- Letting go of what a step made leaves nothing new behind. -/
theorem Makes.release {N refs : List Ref} (h : w.Makes N refs w') :
    w.Makes [] [] (ScriptBridge.release refs none w').2 :=
  .of_later fun L hL => (h.later L hL).trans
    (release_later h.sound (h.later L hL).owns refs none fun _ hr => h.free hL hr)

theorem Makes.discard {N refs : List Ref} (h : w.Makes N refs w') :
    w.Makes [] [] (ScriptBridge.discard refs none w').2 :=
  .of_later fun L hL => (h.later L hL).trans
    (discard_later h.sound (h.later L hL).owns refs none fun _ hr => h.free hL hr)

theorem newHandle_makes (hw : w.Sound) (h : Handle) :
    w.Makes [.handle (newHandle h w).1] [.handle (newHandle h w).1] (newHandle h w).2 where
  fresh r hr := by
    obtain rfl := List.mem_singleton.mp hr
    exact Nat.le_refl _
  later L hL := by
    refine .of_sameCells hw hL (fun _ _ => rfl) (fun a ha => ?_) (fun _ _ h => h) (fun r hr => ?_)
      (fun _ _ hr => .inl hr) (fun _ hd => .inl hd) (.refl _) hw.keyed
    · exact Store.get?_add_of_lt _ _ (Nat.lt_of_not_le (hL.made _ ha))
    · cases r with
      | handle a =>
        have hr : (w.handles.add h).next ≤ a.index := hr
        rw [Store.next_add] at hr
        exact Nat.le_of_succ_le hr
      | _ => exact hr
  owns L hL := {
    host := fun r hr => by
      obtain rfl | hr := List.mem_cons.mp hr
      · exact .inr ⟨_, rfl⟩
      · exact hL.host r hr
    made := fun r hr => by
      obtain rfl | hr := List.mem_cons.mp hr
      · show ¬ (w.handles.add h).next ≤ w.handles.next
        rw [Store.next_add]
        exact Nat.not_succ_le_self _
      · intro hu
        refine hL.made r hr ?_
        cases r with
        | handle a =>
          have hu : (w.handles.add h).next ≤ a.index := hu
          rw [Store.next_add] at hu
          exact Nat.le_of_succ_le hu
        | _ => exact hu
    dropped := fun d hd hr => by
      obtain hr | hr := List.mem_cons.mp hr
      · exact hw.dropped d hd (hr ▸ Nat.le_refl _)
      · exact hL.dropped d hd hr
    held := fun c r hr hrL => by
      obtain rfl | hrL := List.mem_cons.mp hrL
      · exact absurd (Nat.le_refl _) (hw.held c _ hr)
      · exact List.mem_cons_of_mem _ (hL.held c r hr hrL)
    exposed := fun o ho hr => by
      obtain hr | hr := List.mem_cons.mp hr
      · cases hr
      · exact hL.exposed o ho hr }
  refs r hr := .inl hr

/-- The cells of a world with one more object. -/
theorem mem_cellRefs_newObject {cls : Class} {data : ObjectData} {c r : Ref}
    (h : r ∈ (newObject cls data w).2.cellRefs c) :
    (c = .object (newObject cls data w).1 ∧ r ∈ HostObject.refs ⟨cls, data⟩) ∨
      r ∈ w.cellRefs c := by
  cases c with
  | object o =>
    have h : r ∈ (((w.objects.add ⟨cls, data⟩).get? o.index).map HostObject.refs).getD [] := h
    rw [Store.get?_add] at h
    split at h
    · rename_i ho
      refine .inl ⟨?_, h⟩
      obtain ⟨i⟩ := o
      cases ho
      rfl
    · exact .inr h
  | _ => exact .inr h

theorem unmade_of_newObject {cls : Class} {data : ObjectData} {r : Ref}
    (h : (newObject cls data w).2.IsUnmade r) : w.IsUnmade r := by
  cases r with
  | object o =>
    have h : (w.objects.add ⟨cls, data⟩).next ≤ o.index := h
    rw [Store.next_add] at h
    exact Nat.le_of_succ_le h
  | _ => exact h

/-- A new object over what an earlier step made. -/
theorem Makes.newObject {N refs : List Ref} (h : w.Makes N refs w') (cls : Class)
    (data : ObjectData) (hdata : ∀ r ∈ data.refs, r ∈ refs ∨ ∃ c, r = .cell c) :
    w.Makes (.object (newObject cls data w').1 :: N) [.object (newObject cls data w').1]
      (newObject cls data w').2 := by
  have hcontent : ∀ r ∈ HostObject.refs ⟨cls, data⟩, r ∈ refs ∨ ∃ c, r = .cell c := by
    intro r hr
    obtain hr | hr := List.mem_append.mp hr
    · obtain ⟨c, -, rfl⟩ := List.mem_map.mp hr
      exact .inr ⟨c, rfl⟩
    · exact hdata r hr
  have hfree : ∀ L, w.Owns L → ∀ r ∈ HostObject.refs ⟨cls, data⟩, ¬ w'.IsUnmade r ∧ r ∉ L := by
    intro L hL r hr
    obtain hr | ⟨c, rfl⟩ := hcontent r hr
    · exact h.free hL hr
    · exact vmRef_free (h.later L hL).owns ⟨fun _ => Ref.noConfusion, fun _ => Ref.noConfusion⟩
  exact {
    fresh := fun r hr => by
      obtain rfl | hr := List.mem_cons.mp hr
      · exact h.unmade (Nat.le_refl _)
      · exact h.fresh r hr
    later := fun L hL => by
      have hL' := (h.later L hL).owns
      refine (h.later L hL).trans (.of_sameCells h.sound hL' (fun o ho => ?_) (fun _ _ => rfl)
        (fun _ _ h => h) (fun _ => unmade_of_newObject) (fun c r hr => ?_) (fun _ hd => .inl hd)
        (.refl _) h.sound.keyed)
      · refine Store.get?_add_of_lt _ _ (Nat.lt_of_not_le fun hle => ?_)
        exact ho.elim (h.sound.exposed o · hle) (hL'.made _ · hle)
      · exact (mem_cellRefs_newObject hr).elim (fun hn => .inr (hfree L hL r hn.2)) .inl
    owns := fun L hL => by
      have hNL := h.owns L hL
      exact {
        host := fun r hr => by
          obtain rfl | hr := List.mem_cons.mp hr
          · exact .inl ⟨_, rfl⟩
          · exact hNL.host r hr
        made := fun r hr hu => by
          obtain rfl | hr := List.mem_cons.mp hr
          · have hu : (w'.objects.add ⟨cls, data⟩).next ≤ w'.objects.next := hu
            rw [Store.next_add] at hu
            exact Nat.not_succ_le_self _ hu
          · exact hNL.made r hr (unmade_of_newObject hu)
        dropped := fun d hd hr => by
          obtain hr | hr := List.mem_cons.mp hr
          · exact h.sound.dropped d hd (hr ▸ Nat.le_refl _)
          · exact hNL.dropped d hd hr
        held := fun c r hr hrL => by
          obtain ⟨rfl, -⟩ | hr := mem_cellRefs_newObject hr
          · exact List.mem_cons_self
          · obtain rfl | hrL := List.mem_cons.mp hrL
            · exact absurd (Nat.le_refl _) (h.sound.held c _ hr)
            · exact List.mem_cons_of_mem _ (hNL.held c r hr hrL)
        exposed := fun o ho hr => by
          obtain hr | hr := List.mem_cons.mp hr
          · exact h.sound.exposed o ho (hr ▸ Nat.le_refl _)
          · exact hNL.exposed o ho hr }
    refs := fun r hr => by
      obtain rfl := List.mem_singleton.mp hr
      exact .inl List.mem_cons_self }

end World

/-! ## Harmless actions -/

/-- An action after which whatever was owned is still owned, and exposed objects are as they
were. -/
def Harmless {α : Type} (x : Action α) : Prop :=
  ∀ (w : World) (L : List Ref), w.Sound → w.Owns L → w.Later L (x w).2

namespace Harmless

variable {α β : Type}

protected theorem pure (a : α) : Harmless (pure a) := fun _ _ hw hL => .refl hw hL

protected theorem get : Harmless (get : Action World) := fun _ _ hw hL => .refl hw hL

protected theorem bind {x : Action α} {f : α → Action β} (hx : Harmless x)
    (hf : ∀ a, Harmless (f a)) : Harmless (x >>= f) := fun w L hw hL =>
  have h := hx w L hw hL
  h.trans (hf _ _ L h.sound h.owns)

theorem makes {x : Action α} (h : Harmless x) {w : World} (hw : w.Sound) :
    w.Makes [] [] (x w).2 :=
  .of_later fun L hL => h w L hw hL

end Harmless

/-- An action that leaves nothing new behind and whose result has a property. -/
def Ensures {α : Type} (x : Action α) (P : α → Prop) : Prop :=
  ∀ w : World, w.Sound → w.Makes [] [] (x w).2 ∧ P (x w).1

namespace Ensures

variable {α β : Type} {P : α → Prop} {Q : β → Prop}

protected theorem pure {a : α} (h : P a) : Ensures (pure a) P := fun _ hw => ⟨.refl hw, h⟩

protected theorem bind {x : Action α} {f : α → Action β} (hx : Ensures x P)
    (hf : ∀ a, P a → Ensures (f a) Q) : Ensures (x >>= f) Q := fun w hw =>
  have h := hx w hw
  have h' := hf _ h.2 _ h.1.sound
  ⟨h.1.after h'.1, h'.2⟩

protected theorem of_harmless {x : Action α} (hx : Harmless x) : Ensures x fun _ => True :=
  fun _ hw => ⟨hx.makes hw, trivial⟩

end Ensures

theorem harmless_settle : Harmless settle := fun _ _ hw hL => World.settle_later hw hL

theorem harmless_readSession : Harmless readSession := .bind .get fun _ => .pure _

theorem harmless_readMachine : Harmless readMachine := .bind .get fun _ => .pure _

/-- Letting go of references into the machine. -/
theorem harmless_discardValues (vs : List Value) (during : Option TableRef := none) :
    Harmless (discard (vs.flatMap Value.refs) during) := fun _ _ hw hL =>
  World.discard_later hw hL _ during fun _ hr =>
    have ⟨_, _, hr⟩ := List.mem_flatMap.mp hr
    World.valueRef_free hL hr

theorem harmless_discardValue (v : Value) (during : Option TableRef := none) :
    Harmless (discard v.refs during) := fun _ _ hw hL =>
  World.discard_later hw hL _ during fun _ hr => World.valueRef_free hL hr

/-! ## Tables and references -/

/-- A table holds references into the machine only. -/
theorem Table.not_host_of_mem {t : Table} {r : Ref} (h : r ∈ t.refs) :
    (∀ o, r ≠ .object o) ∧ ∀ a, r ≠ .handle a := by
  have hvalue (v : Value) (hr : r ∈ v.refs) : (∀ o, r ≠ .object o) ∧ ∀ a, r ≠ .handle a := by
    cases v with
    | table | function | userdata =>
      obtain rfl := List.mem_singleton.mp hr
      exact ⟨fun _ => Ref.noConfusion, fun _ => Ref.noConfusion⟩
    | _ => exact absurd hr List.not_mem_nil
  obtain h | h := List.mem_append.mp h
  · obtain ⟨e, -, he⟩ := List.mem_flatMap.mp h
    obtain hr | hr := List.mem_append.mp he
    · exact hvalue e.written hr
    · obtain ⟨v, -, hr⟩ := List.mem_flatMap.mp hr
      exact hvalue v hr
  · cases hm : t.metatable with
    | none =>
      rw [hm] at h
      exact absurd h List.not_mem_nil
    | some mt =>
      rw [hm] at h
      obtain rfl := List.mem_singleton.mp h
      exact ⟨fun _ => Ref.noConfusion, fun _ => Ref.noConfusion⟩

/-- Tables hold cells of the machine only. -/
theorem World.made_of_table {w : World} {t : TableRef} {r : Ref}
    (h : r ∈ w.cellRefs (.table t)) : ¬ w.IsUnmade r := by
  have hr : r ∈ ((w.tables.get? t.index).map Table.refs).getD [] := h
  cases ht : w.tables.get? t.index with
  | none =>
    rw [ht] at hr
    exact absurd hr List.not_mem_nil
  | some table =>
    rw [ht] at hr
    obtain ⟨hobject, hhandle⟩ := Table.not_host_of_mem hr
    cases r with
    | object o => exact absurd rfl (hobject o)
    | handle x => exact absurd rfl (hhandle x)
    | _ => exact fun h => h

theorem harmless_setTable (t : TableRef) (table : Table) : Harmless (setTable t table) := by
  intro w L hw hL
  refine .of_sameCells hw hL (fun _ _ => rfl) (fun _ _ => rfl) (fun _ _ h => h) (fun _ h => h)
    (fun c r hr => ?_) (fun _ hd => .inl hd) (.refl _) hw.keyed
  cases c with
  | table t' =>
    have hr : r ∈ (((w.tables.modify t.index fun _ => table).get? t'.index).map
      Table.refs).getD [] := hr
    rw [Store.get?_modify] at hr
    split at hr
    · cases hget : w.tables.get? t'.index with
      | none =>
        rw [hget] at hr
        exact absurd hr List.not_mem_nil
      | some old =>
        rw [hget] at hr
        exact .inr (World.vmRef_free hL (Table.not_host_of_mem hr))
    · exact .inl hr
  | _ => exact .inl hr

theorem harmless_writeTable (t : TableRef) (change : Table × List Value) :
    Harmless (writeTable t change) :=
  .bind (harmless_setTable t _) fun _ => harmless_discardValues _ _

theorem harmless_rawGetInt (t : TableRef) (n : Int) : Harmless (rawGetInt t n) :=
  .bind .get fun _ => .pure _

theorem harmless_rawGetField (t : TableRef) (name : String) : Harmless (rawGetField t name) :=
  .bind .get fun _ => .pure _

theorem harmless_rawLength (v : Value) : Harmless (rawLength v) := by
  cases v with
  | table t => exact .bind .get fun _ => .pure _
  | _ => exact .pure _

theorem harmless_rawSetField (t : TableRef) (name : String) (v : Value) :
    Harmless (rawSetField t name v) :=
  .bind .get fun _ => .bind (harmless_writeTable _ _) fun _ => harmless_discardValue _ _

theorem harmless_rawSetInt (t : TableRef) (n : Int) (v : Value) : Harmless (rawSetInt t n v) :=
  .bind .get fun _ => .bind (harmless_writeTable _ _) fun _ => harmless_discardValue _ _

/-- A change of the machine that leaves its session alone. -/
theorem harmless_modifyMachine {f : Machine → Machine} (hf : ∀ m, (f m).session = m.session) :
    Harmless (modifyMachine f) := by
  intro w L hw hL
  have hsession : w.machine.SessionLater (f w.machine) := by
    unfold Machine.SessionLater
    rw [hf]
    cases w.machine.session with
    | none => trivial
    | some s => exact .refl s
  refine .of_sameCells hw hL (fun _ _ => rfl) (fun _ _ => rfl) (fun _ _ h => h) (fun _ h => h)
    (fun _ _ hr => .inl hr) (fun _ hd => .inl hd) hsession fun s hs => hw.keyed s ?_
  rw [← hf]
  exact hs

theorem harmless_push (v : Value) : Harmless (push v) := harmless_modifyMachine fun _ => rfl

theorem Machine.popValue_session (m : Machine) : m.popValue.2.session = m.session := by
  unfold popValue
  split <;> rfl

theorem harmless_popValue : Harmless popValue := fun w L hw hL =>
  harmless_modifyMachine Machine.popValue_session w L hw hL

theorem harmless_valueAt (i : Int) : Harmless (valueAt i) :=
  .bind harmless_readMachine fun _ => .pure _

theorem harmless_takeReference : Harmless takeReference := by
  refine .bind .get fun w => ?_
  dsimp only
  split
  · exact .bind (harmless_rawGetInt _ _) fun _ =>
      .bind (harmless_rawSetField _ _ _) fun _ => .pure _
  · exact .bind (harmless_modifyMachine fun _ => rfl) fun _ => .pure _

theorem harmless_createRef (v : Value) : Harmless (createRef v) := by
  unfold createRef
  split
  · exact .pure _
  · exact .bind harmless_takeReference fun _ => .bind harmless_readMachine fun _ =>
      .bind (harmless_rawSetInt _ _ _) fun _ => .pure _

theorem harmless_releaseRef (r : Int) : Harmless (releaseRef r) := by
  unfold releaseRef
  split
  · exact .bind harmless_readMachine fun _ => .bind (harmless_rawGetField _ _) fun _ =>
      .bind (harmless_rawSetInt _ _ _) fun _ => harmless_rawSetField _ _ _
  · exact .pure ()

/-- A change of the session that only its queue of releases and the like see. -/
theorem harmless_modifySession {f : Session → Session} (hf : ∀ s : Session, s.Later (f s)) :
    Harmless (modifySession f) := by
  intro w L hw hL
  refine .of_sameCells hw hL (fun _ _ => rfl) (fun _ _ => rfl) (fun _ _ h => h) (fun _ h => h)
    (fun _ _ hr => .inl hr) (fun _ hd => .inl hd) ?_ fun s hs => ?_
  · show match w.machine.session, w.machine.session.map f with
      | some s, some s' => s.Later s'
      | none, none => True
      | _, _ => False
    cases w.machine.session with
    | none => trivial
    | some s => exact hf s
  · obtain ⟨s', hs', rfl⟩ := Option.map_eq_some_iff.mp hs
    exact (hw.keyed s' hs').grows (hf s').catalog

theorem harmless_forM {α : Type} {f : α → Action Unit} (h : ∀ a, Harmless (f a)) (l : List α) :
    Harmless (l.forM f) := by
  induction l with
  | nil => exact .pure ()
  | cons a rest ih => exact .bind (h a) fun _ => ih

theorem harmless_collectReleased : Harmless collectReleased :=
  .bind harmless_settle fun _ => .bind harmless_readSession fun _ =>
    .bind (harmless_modifySession fun _ => ⟨rfl, rfl, rfl, rfl, rfl, .refl _⟩) fun _ =>
      .bind (harmless_forM harmless_releaseRef _) fun _ => .bind harmless_settle fun _ => .pure _

theorem harmless_objectBehind? (v : Value) : Harmless (objectBehind? v) :=
  .bind .get fun _ => .pure _

theorem harmless_fittingObject? (v : Value) (t : HostType) : Harmless (fittingObject? v t) :=
  .bind .get fun _ => .pure _

end ScriptBridge
