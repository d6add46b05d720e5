import ScriptBridge.Proofs.Bridge.Carrying
import ScriptBridge.Proofs.Conversion.Outcome

/-!
# Reading values that are no tables

Matching a value that is no table only looks at the world. Reading it can make a reference, a handle
and an object, and memory may be reclaimed meanwhile, of which nothing is known here: it need not be
settled, and scripts may have written over the registry table. Still the next reading sees the same
through every value on the stack, since the stack holds its userdata and the session its objects.

1. `World.Retains`: what stays as it was, and `Retains.views`, what follows for a value.
2. `Retentive`: actions after which it did stay, with a lemma for each part of a reading.
3. `extract_plain`: whether a value is read.
4. `asType_idle`: a value that is no reference either is read in the same way everywhere.
-/

namespace ScriptBridge

/-! ## What stays -/

/-- A later world with the values on the stack, their userdata, the exposed objects and the session
it had. -/
structure World.Retains (w w' : World) : Prop where
  made : ∀ o, w'.Exposes o → ¬ w'.IsUnmade (.object o)
  stack : ∀ v ∈ w.machine.stack, v ∈ w'.machine.stack
  userdata : ∀ u, Value.userdata u ∈ w.machine.stack →
    w'.userdata.get? u.index = w.userdata.get? u.index
  session : w.machine.SessionLater w'.machine
  objects : ∀ o, w.Exposes o → w'.objects.get? o.index = w.objects.get? o.index

/-- A value that lies on the stack if it is a userdata. -/
def World.Seats (w : World) (v : Value) : Prop := ∀ u, v = .userdata u → v ∈ w.machine.stack

namespace World.Retains

variable {w w' w₁ w₂ w₃ : World} {v : Value}

theorem refl (hmade : ∀ o, w.Exposes o → ¬ w.IsUnmade (.object o)) : w.Retains w :=
  ⟨hmade, fun _ hv => hv, fun _ _ => rfl, .refl _, fun _ _ => rfl⟩

theorem trans (h : w₁.Retains w₂) (h' : w₂.Retains w₃) : w₁.Retains w₃ where
  made := h'.made
  stack v hv := h'.stack v (h.stack v hv)
  userdata u hu := (h'.userdata u (h.stack _ hu)).trans (h.userdata u hu)
  session := h.session.trans h'.session
  objects o ho := by
    rw [h'.objects o ((exposes_iff h.session o).mpr ho), h.objects o ho]

/-- The same is seen through a value that is no table. -/
theorem views (h : w.Retains w') (hplain : ∀ t, v ≠ .table t) (hv : w.Seats v) : w.Views w' v where
  session := h.session
  objects := h.objects
  behind := by
    have hshown (w : World) : w.shown v = v := by
      cases v with
      | table t => exact absurd rfl (hplain t)
      | _ => rfl
    have hproxy : w'.proxyId? v = w.proxyId? v := by
      cases v with
      | userdata u =>
        unfold World.proxyId?
        dsimp only
        rw [h.userdata u (hv u rfl)]
      | _ => rfl
    have hregistry : w'.machine.session.map Session.registry =
      w.machine.session.map Session.registry := h.session.map_eq fun s s' hl => hl.registry
    rw [World.objectBehind?_eq, World.objectBehind?_eq, hshown, hshown, hproxy, hregistry]

end World.Retains

/-- A step beside the machine. -/
theorem World.HostStep.retains {w w' : World} (h : w.HostStep w')
    (hmade : ∀ o, w.Exposes o → ¬ w.IsUnmade (.object o)) : w.Retains w' where
  made o ho hu := hmade o ((exposes_iff h.session o).mp ho) (h.unmade o hu)
  stack v hv := by
    rw [h.sameStack.stack]
    exact hv
  userdata u _ := h.userdata u.index
  session := h.session
  objects := h.objects

/-- A cell is emptied that neither the stack nor the session holds. -/
theorem World.retains_reclaimed {w : World} {d : Dropped} {rest : List Dropped}
    (hmade : ∀ o, w.Exposes o → ¬ w.IsUnmade (.object o)) (hfree : w.holds d.ref = false) :
    w.Retains (w.reclaimed d rest) := by
  let w₁ : World := { w with dropped := rest }
  have hemptied := empty_emptied w₁ d
  have hsession : w.machine.SessionLater (w.reclaimed d rest).machine := hemptied.session
  refine ⟨fun o ho hu => ?_, fun v hv => ?_, fun u hu => ?_, hsession, fun o ho => ?_⟩
  · exact hmade o ((World.exposes_iff hsession o).mp ho) ((hemptied.unmade (.object o)).mp hu)
  · have hsame := empty_sameStack w₁ d
    show v ∈ (w₁.empty d).1.machine.stack
    rw [hsame.stack]
    exact hv
  · refine (empty_spares w₁ d).userdata u fun he => ?_
    rw [he, holds_of_stack hu List.mem_cons_self] at hfree
    cases hfree
  · refine hemptied.objects o fun he => ?_
    rw [← he, holds_of_exposes ho] at hfree
    cases hfree

/-! ## Actions after which it stayed -/

/-- From every world whose exposed objects were made. -/
def Retentive {α : Type} (x : Action α) : Prop :=
  ∀ w : World, (∀ o, w.Exposes o → ¬ w.IsUnmade (.object o)) → w.Retains (x w).2

namespace Retentive

variable {α β : Type} {x : Action α} {f : α → Action β}

protected theorem pure (a : α) : Retentive (pure a : Action α) := fun _ hmade => .refl hmade

protected theorem get : Retentive (get : Action World) := fun _ hmade => .refl hmade

protected theorem bind (hx : Retentive x) (hf : ∀ a, Retentive (f a)) : Retentive (x >>= f) :=
  fun w hmade =>
    have h := hx w hmade
    h.trans (hf _ _ h.made)

protected theorem of_host (h : ∀ w : World, (∀ o, w.Exposes o → ¬ w.IsUnmade (.object o)) →
    w.HostStep (x w).2) : Retentive x :=
  fun w hmade => (h w hmade).retains hmade

end Retentive

theorem retentive_discard (refs : List Ref) : Retentive (discard refs) :=
  .of_host fun w _ => by
    rw [discard_eq]
    exact .of_dropped w _

theorem retentive_settle : Retentive settle := by
  intro w hmade
  refine World.settle_keeps (P := w.Retains) (fun w' d rest _ hw _ => ?_)
    (fun w' d rest _ hw hfree => ?_) (.refl hmade)
  · exact hw.trans ((World.HostStep.of_dropped w' rest).retains hw.made)
  · exact hw.trans (World.retains_reclaimed hw.made hfree)

theorem retentive_release (refs : List Ref) : Retentive (release refs) :=
  (retentive_discard refs).bind fun _ => retentive_settle

theorem retentive_newObject (cls : Class) (data : ObjectData) : Retentive (newObject cls data) :=
  .of_host fun _ hmade => newObject_hostStep hmade cls data

theorem retentive_newArray (e : HostType) (items : Array HostValue) :
    Retentive (newArray e items) :=
  .of_host fun _ hmade => newArray_hostStep hmade e items

/-! ### Handles -/

theorem retentive_newHandle (h : Handle) : Retentive (newHandle h) :=
  .of_host fun _ _ => .of_same rfl rfl rfl rfl rfl rfl (fun _ _ => rfl) fun _ h => h

/-- Making a reference writes a table and takes a number. -/
theorem createRef_outside (v : Value) (w : World) : ∃ tables dropped nextRef,
    (createRef v w).2 = { w with tables, dropped, machine := { w.machine with nextRef } } := by
  cases hv : v.isNil with
  | true =>
    rw [createRef_nil hv]
    exact ⟨w.tables, w.dropped, w.machine.nextRef, rfl⟩
  | false =>
    have htake : ∃ tables dropped nextRef, (takeReference w).2 =
        { w with tables, dropped, machine := { w.machine with nextRef } } := by
      by_cases hfree : 0 < Reference.head (w.fieldOf w.machine.registry Reference.freeField)
      · rw [takeReference_free rfl hfree, rawSetField_eq]
        exact ⟨_, _, w.machine.nextRef, rfl⟩
      · rw [takeReference_new (Int.not_lt.mp hfree)]
        exact ⟨w.tables, w.dropped, _, rfl⟩
    cases hr : takeReference w with | mk r w₁
    obtain ⟨change, hchange⟩ : ∃ change,
      (w₁.table w₁.machine.registry).setInt r v = change := ⟨_, rfl⟩
    rw [createRef_of_take hv hr (rawSetInt_eq _ r v w₁ hchange)]
    rw [hr] at htake
    obtain ⟨tables, dropped, nextRef, rfl⟩ := htake
    exact ⟨_, _, nextRef, rfl⟩

theorem retentive_createRef (v : Value) : Retentive (createRef v) := by
  intro w hmade
  obtain ⟨tables, dropped, nextRef, hcreate⟩ := createRef_outside v w
  rw [hcreate]
  exact ⟨hmade, fun _ hv => hv, fun _ _ => rfl, .refl _, fun _ _ => rfl⟩

/-- A copy is pushed and taken off again; where no frame is in place it may stay. -/
theorem retentive_toHandle (v : Value) : Retentive (toHandle v) := by
  have hpop : Retentive (do push v; popValue : Action Value) := by
    intro w hmade
    show w.Retains { w with machine := (w.machine.push v).popValue.2 }
    rw [Machine.popValue_eq]
    refine ⟨hmade, fun x hx => ?_, fun _ _ => rfl, .refl _, fun _ _ => rfl⟩
    show x ∈ if _ then (w.machine.stack.push v).pop else w.machine.stack.push v
    split
    · rw [Array.pop_push]
      exact hx
    · exact Array.mem_push_of_mem v hx
  have hrest (v : Value) : Retentive (do
      let r ← createRef v
      newHandle ⟨(← readSession).id, r⟩) :=
    (retentive_createRef v).bind fun r =>
      (Retentive.get.bind fun _ => .pure _).bind fun _ => retentive_newHandle _
  have htaken := hpop.bind hrest
  rw [bind_assoc] at htaken
  exact htaken

/-! ### Readings -/

theorem retentive_toHost (v : Value) : Retentive (toHost v) := by
  cases v with
  | table t => exact (retentive_toHandle _).bind fun _ => .pure _
  | function f => exact (retentive_toHandle _).bind fun _ => .pure _
  | userdata u =>
    refine .bind .get fun w => ?_
    cases w.proxyId? (.userdata u) with
    | some id => exact .pure _
    | none => exact (retentive_toHandle _).bind fun _ => .pure _
  | _ => exact .pure _

theorem retentive_delegateFor (cls : Class) (function : HandleRef) :
    Retentive (delegateFor cls function) := by
  refine (Retentive.get.bind fun _ => .pure _).bind fun s => ?_
  split
  · exact (retentive_discard _).bind fun _ => .pure _
  · unfold makeDelegate
    cases cls.invokeMethod? with
    | some signature => exact (retentive_newObject _ _).bind fun _ => .pure _
    | none => exact (retentive_discard _).bind fun _ => .pure _

/-- Reading a value that is no table. -/
theorem retentive_extract {v : Value} (hplain : ∀ t, v ≠ .table t) (c : Conversion) :
    Retentive (c.extract v) := by
  cases c with
  | scalar t =>
    unfold Conversion.extract readAs
    dsimp only
    split <;> exact .pure _
  | any => exact (retentive_toHost v).bind fun _ => .pure _
  | object t =>
    unfold Conversion.extract readAs
    dsimp only
    split
    · exact .pure _
    · exact (Retentive.get.bind fun _ => .pure _).bind fun _ => .pure _
  | handle kind =>
    unfold Conversion.extract readAs
    dsimp only
    split
    · exact .pure _
    · split
      · exact (retentive_toHandle v).bind fun _ => .pure _
      · exact .pure _
  | delegate cls =>
    cases v with
    | function f =>
      exact (retentive_toHandle _).bind fun _ => (retentive_delegateFor cls _).bind fun _ => .pure _
    | _ => exact .pure _
  | _ =>
    cases v with
    | table t => exact absurd rfl (hplain t)
    | _ => exact .pure _

/-- Whether it is read. -/
theorem extract_plain {v : Value} (hplain : ∀ t, v ≠ .table t) (c : Conversion) (w : World) :
    (c.extract v w).1.isSome = w.fulfils c v := by
  cases c with
  | arrayTable e =>
    cases v with
    | table t => exact absurd rfl (hplain t)
    | _ => rfl
  | _ => exact readAs_isSome (fun _ h => Conversion.noConfusion h) w

/-! ## Values that are no references -/

/-- An action that looks at nothing and changes nothing. -/
def Idle {α : Type} (x : Action α) : Prop := ∃ a, ∀ w, x w = (a, w)

protected theorem Idle.pure {α : Type} (a : α) : Idle (pure a : Action α) := ⟨a, fun _ => rfl⟩

protected theorem Idle.bind {α β : Type} {x : Action α} {f : α → Action β} (hx : Idle x)
    (hf : ∀ a, Idle (f a)) : Idle (x >>= f) := by
  obtain ⟨a, ha⟩ := hx
  obtain ⟨b, hb⟩ := hf a
  exact ⟨b, fun w => (bind_of_eq (ha w)).trans (hb w)⟩

section

variable {v : Value} (hv : v.refs = [])
include hv

/-- There is no object behind a value without references. -/
theorem fittingObject?_idle (t : HostType) : Idle (fittingObject? v t) := by
  refine ⟨none, fun w => ?_⟩
  have hnone : w.fittingObject? v t = none := by
    cases v with
    | table t => cases hv
    | function f => cases hv
    | userdata u => cases hv
    | _ => rfl
  show (w.fittingObject? v t, w) = _
  rw [hnone]

theorem matchObject_idle (t : HostType) : Idle (matchObject t v) :=
  .bind (fittingObject?_idle hv t) fun _ => .pure _

theorem matchClass_idle (t : HostType) (name : String) : Idle (matchClass t name v) := by
  obtain ⟨c, hc⟩ := matchObject_idle hv t
  refine ⟨c, fun w => ?_⟩
  unfold matchClass
  rw [bind_of_eq (show readSession w = (w.machine.session.getD default, w) from rfl)]
  cases v with
  | table t => cases hv
  | function f => cases hv
  | userdata u => cases hv
  | _ => cases (w.machine.session.getD default).catalog.find? name <;> exact hc w

theorem matchArray_idle (items : ItemReader) (element : HostType) :
    Idle (matchArray items element v) := by
  have hplain : (v.type == .table) = false := by
    cases v with
    | table t => cases hv
    | _ => rfl
  unfold matchArray
  rw [hplain]
  exact matchObject_idle hv _

theorem matchType_idle (items : ItemReader) (t : HostType) : Idle (matchType items t v) := by
  unfold matchType
  split
  · exact .pure _
  · split
    · exact .pure _
    · exact .pure _
    · exact .pure _
    · split
      · exact .pure _
      · exact matchArray_idle hv items _
    · split
      · exact .pure _
      · exact matchClass_idle hv _ _
    · exact .pure _

theorem toHost_idle : Idle (toHost v) := by
  cases v with
  | table t => cases hv
  | function f => cases hv
  | userdata u => cases hv
  | _ => exact .pure _

theorem readAs_idle {items : ItemReader} (hitems : ∀ w, items v w = (none, w)) (c : Conversion) :
    Idle (readAs items c v) := by
  have hkind (kind : HandleKind) : (HandleKind.ofValue? v == some kind) = false := by
    cases v with
    | table t => cases hv
    | function f => cases hv
    | userdata u => cases hv
    | _ => rfl
  unfold readAs
  split
  · split <;> exact .pure _
  · exact .bind (toHost_idle hv) fun _ => .pure _
  · split
    · exact .pure _
    · split
      · rw [hkind]
        exact .pure _
      · exact .bind (fittingObject?_idle hv _) fun _ => .pure _
      · refine ⟨none, fun w => ?_⟩
        rw [bind_of_eq (hitems w)]
        rfl
      · cases hv
      · cases hv
      · exact .pure _

theorem readItems_none (convert : Value → Action (Option HostValue)) (w : World) :
    readItems convert v w = (none, w) := by
  cases v with
  | table t => cases hv
  | _ => rfl

theorem asType_idle (t : HostType) : Idle (asType t v) := by
  have hwith {items : ItemReader} (hitems : ∀ w, items v w = (none, w)) (t : HostType) :
      Idle (convertWith items t v) := by
    refine .bind (matchType_idle hv items t) fun c => ?_
    cases c with
    | none => exact .pure _
    | some c => exact readAs_idle hv hitems c
  unfold asType
  split
  · exact hwith (readItems_none hv _) _
  · exact hwith (readItems_none hv _) _
  · exact hwith (fun _ => rfl) _

end

end ScriptBridge
