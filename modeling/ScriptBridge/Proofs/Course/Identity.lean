import ScriptBridge.Proofs.Course.Machine
import ScriptBridge.Proofs.Host.Registry
import ScriptBridge.Bridge.Identity

/-!
# Identities step by step

Exceptions, the ids and proxies of objects, and handles are orderly under every regime. A proxy is
made only for an object that scripts can see, and under the id that the registry has for it.
-/

namespace ScriptBridge

variable {R : Regime}

/-! ## Exceptions -/

theorem orderly_registryTable? (name : String) : Orderly R (registryTable? name) := by
  refine .bind .get fun w => ?_
  cases w.fieldOf w.machine.registry name with
  | table t => exact .pure _
  | _ => exact .pure _

theorem orderly_readSession : Orderly R readSession := .bind .get fun _ => .pure _

theorem orderly_raiseException {α : Type} (e : Exception) :
    Orderly R (raiseException e : Script α) :=
  .bind (.lift (orderly_location 1)) fun _ =>
    .bind (.lift (orderly_registryTable? _)) fun _ =>
      .bind (.lift (orderly_newUserdata (fun _ => Payload.noConfusion) _)) fun _ => .throw _

theorem orderly_raiseCause {α : Type} (cause : Cause) :
    Orderly R (raiseCause cause : Script α) :=
  .bind (.lift (orderly_newException cause)) fun _ => orderly_raiseException _

theorem orderly_raiseFailure {α : Type} (e : Failure) :
    Orderly R (raiseFailure e : Script α) := by
  cases e with
  | exception e => exact orderly_raiseException _
  | exhausted => exact .throw _

/-! ## Identities -/

/-- Scripts can see an object: it is there, and the session's options do not hide it. -/
def World.Sees (w : World) (o : ObjectRef) (cell : HostObject) : Prop :=
  w.objects.get? o.index = some cell ∧
    ∀ s, w.machine.session = some s → s.options.isBlacklisted cell.cls.namespaceName = false

/-- The registry has an id for an object. -/
def World.HasId (w : World) (o : ObjectRef) (id : Nat) : Prop :=
  ∀ s, w.machine.session = some s → s.registry.idOf? ObjectRef.index o = some id

section

variable {o : ObjectRef} {cell : HostObject}

theorem sees_modifySession {f : Session → Session} (h : ∀ s, (f s).options = s.options) :
    Keeps (·.Sees o cell) (modifySession f) := by
  refine keeps_modify fun w hw => ⟨hw.1, fun s hs => ?_⟩
  obtain ⟨s₀, hs₀, rfl⟩ := Option.map_eq_some_iff.mp hs
  rw [h]
  exact hw.2 s₀ hs₀

theorem sees_readSession : Keeps (·.Sees o cell) readSession :=
  keeps_get.bind fun _ => keeps_pure _

theorem sees_discard (refs : List Ref) : Keeps (·.Sees o cell) (discard refs) := by
  unfold discard
  split
  · exact keeps_pure _
  · exact keeps_modify fun _ hw => hw

theorem sees_expose (o' : ObjectRef) : Keeps (·.Sees o cell) (expose o') :=
  .bind sees_readSession fun _ => .bind (sees_modifySession fun _ => rfl) fun _ => keeps_pure _

theorem sees_freshId (o' : ObjectRef) (id : Nat) : Keeps (·.Sees o cell) (freshId o' id) := by
  have hrevoke : Keeps (·.Sees o cell) (revoke id) :=
    .bind sees_readSession fun _ => .bind (sees_modifySession fun _ => rfl) fun _ =>
      .bind (sees_discard _) fun _ => keeps_pure _
  refine .bind sees_readSession fun s => ?_
  split
  · exact .bind (sees_modifySession fun _ => rfl) fun _ => .bind hrevoke fun _ => sees_expose o'
  · exact keeps_pure _

end

theorem Registry.idOf?_expose (layout : Layout) (r : Registry) (o : ObjectRef) :
    (r.expose layout o).2.idOf? layout o = some (r.expose layout o).1 := by
  cases hid : r.idOf? layout o with
  | some id =>
    rw [expose_of_some hid]
    exact hid
  | none =>
    rw [expose_of_none hid]
    unfold idOf?
    rw [Dictionary.get?_insert, if_pos rfl]

/-- An object that was exposed has the id that was given. -/
theorem hasId_expose (o : ObjectRef) (w : World) : (expose o w).2.HasId o (expose o w).1 := by
  intro s hs
  have hsession : (w.machine.session.map fun s => { s with
      registry := ((w.machine.session.getD default).registry.expose ObjectRef.index o).2 }) =
      some s := hs
  obtain ⟨s₀, hs₀, rfl⟩ := Option.map_eq_some_iff.mp hsession
  show _ = some ((w.machine.session.getD default).registry.expose ObjectRef.index o).1
  rw [hs₀]
  exact Registry.idOf?_expose ..

/-- An object whose id is kept or replaced has the id that is used. -/
theorem hasId_freshId {o : ObjectRef} {id : Nat} {w : World} (h : w.HasId o id) :
    (freshId o id w).2.HasId o (freshId o id w).1 := by
  have hread : readSession w = (w.machine.session.getD default, w) := rfl
  unfold freshId
  rw [bind_of_eq hread]
  split
  · exact hasId_expose o _
  · exact h

/-- A change of the registry of the running session. -/
theorem Regime.registry {Q : World → Prop} (hQ : R.Has Q) {w : World} (hw : Q w) {r : Registry}
    (h : ∀ s, w.machine.session = some s → (∃ o, r = (s.registry.expose ObjectRef.index o).2) ∨
      ∃ id, r = (s.registry.revoke ObjectRef.index id).2) :
    Q (modifySession (fun s => { s with registry := r }) w).2 :=
  R.step hQ hw (fun _ => .registry r h) (.modifySession fun s _ => .refl s.catalog)

theorem orderly_expose (o : ObjectRef) : Orderly R (expose o) := by
  refine .of_action fun Q w hQ hw => R.registry hQ hw fun s hs => .inl ⟨o, ?_⟩
  show (((w.machine.session.getD default).registry.expose ObjectRef.index o).2) = _
  rw [hs]
  rfl

theorem orderly_revoke (id : Nat) : Orderly R (revoke id) := by
  refine .of_action fun Q w hQ hw => ?_
  have hrevoked : Q (modifySession (fun s => { s with
      registry := ((w.machine.session.getD default).registry.revoke ObjectRef.index id).2 })
        w).2 := by
    refine R.registry hQ hw fun s hs => .inr ⟨id, ?_⟩
    rw [hs]
    rfl
  exact (orderly_discard _ none Q hQ _ hrevoked).2

theorem orderly_setMaterialized (id : Nat) (present : Bool) :
    Orderly R (setMaterialized id present) :=
  orderly_modifySession fun _ => rfl

theorem orderly_freshId (o : ObjectRef) (id : Nat) : Orderly R (freshId o id) := by
  refine .bind orderly_readSession fun s => ?_
  split
  · exact .bind (orderly_setMaterialized id false) fun _ =>
      .bind (orderly_revoke id) fun _ => orderly_expose o
  · exact .pure id

/-- Looking for a table of the registry table changes nothing. -/
theorem registryTable?_world (name : String) (w : World) : (registryTable? name w).2 = w := by
  have hkeeps : Keeps (· = w) (registryTable? name) := by
    refine .bind keeps_get fun w' => ?_
    cases w'.fieldOf w'.machine.registry name with
    | table t => exact keeps_pure _
    | _ => exact keeps_pure _
  exact (hkeeps w rfl).2

/-- A new userdata for an object that scripts can see, under the id it has. -/
theorem Regime.newProxy {Q : World → Prop} (hQ : R.Has Q) {w : World} (hw : Q w) {o : ObjectRef}
    {cell : HostObject} (hsees : w.Sees o cell) {id : Nat} (hid : w.HasId o id)
    (proxies : TableRef) : Q ((do
      let u ← newUserdata (.proxy id) (← registryTable? cell.proxyTableName)
      rawSetInt proxies id (.userdata u)
      setMaterialized id true
      return .userdata u : Action Value) w).2 := by
  have hrest (u : UserdataRef) : Orderly R (do
      rawSetInt proxies id (.userdata u)
      setMaterialized id true
      return .userdata u : Action Value) :=
    .bind (orderly_rawSetInt _ _ _) fun _ => .bind (orderly_setMaterialized _ _) fun _ => .pure _
  obtain ⟨metatable, htable⟩ : ∃ mt, registryTable? cell.proxyTableName w = (mt, w) :=
    ⟨_, Prod.ext rfl (registryTable?_world _ w)⟩
  let w₁ : World := { w with
    userdata := w.userdata.add { payload := .proxy id, metatable, home := w.machine.id } }
  have hw₁ : Q w₁ := R.step hQ hw
    (fun _ => .newProxy id metatable fun s hs => ⟨o, cell, hid s hs, hsees.1, hsees.2 s hs⟩)
    (.of_same rfl rfl rfl)
  have hmade : newUserdata (.proxy id) metatable w = (⟨w.userdata.next⟩, w₁) := rfl
  rw [bind_of_eq htable, bind_of_eq hmade]
  exact (hrest _ Q hQ _ hw₁).2

/-- The proxy of an object that scripts can see. -/
theorem Regime.proxyOf {Q : World → Prop} (hQ : R.Has Q) {w : World} (hw : Q w) {o : ObjectRef}
    {cell : HostObject} (hsees : w.Sees o cell) : Q (proxyOf o cell w).2 := by
  let id := (expose o w).1
  let w₁ := (expose o w).2
  have hw₁ : Q w₁ := (orderly_expose o Q hQ w hw).2
  have hw₂ : Q (freshId o id w₁).2 := (orderly_freshId o id Q hQ w₁ hw₁).2
  have hsees₂ : (freshId o id w₁).2.Sees o cell :=
    (sees_freshId o id w₁ (sees_expose o w hsees).2).2
  have hnew := R.newProxy hQ hw₂ hsees₂ (hasId_freshId (hasId_expose o w))
    (readSession w₁).1.objects
  have hexpose : expose o w = (id, w₁) := rfl
  have hread : readSession w₁ = ((readSession w₁).1, w₁) := rfl
  have hget : rawGetInt (readSession w₁).1.objects id w₁ =
      ((rawGetInt (readSession w₁).1.objects id w₁).1, w₁) := rfl
  have hfresh : freshId o id w₁ = ((freshId o id w₁).1, (freshId o id w₁).2) := rfl
  unfold ScriptBridge.proxyOf
  rw [bind_of_eq hexpose, bind_of_eq hread, bind_of_eq hget]
  cases (rawGetInt (readSession w₁).1.objects id w₁).1 with
  | userdata u => exact hw₁
  | _ =>
    dsimp only
    rw [bind_of_eq hfresh]
    exact hnew

theorem orderly_objectValue (o : ObjectRef) : Orderly R (objectValue o) := by
  refine .of_action fun Q w hQ hw => ?_
  have hread : readObject? o w = (w.objects.get? o.index, w) := rfl
  have hsession : readSession w = (w.machine.session.getD default, w) := rfl
  unfold objectValue
  rw [bind_of_eq hread]
  cases hcell : w.objects.get? o.index with
  | none => exact hw
  | some cell =>
    dsimp only
    rw [bind_of_eq hsession]
    split
    · exact hw
    · rename_i hlisted
      refine R.proxyOf hQ hw ⟨hcell, fun s hs => ?_⟩
      rw [hs] at hlisted
      exact Bool.eq_false_iff.mpr hlisted

theorem orderly_typeObject (cls : Class) : Orderly R (typeObject cls) := by
  refine .bind orderly_readSession fun s => ?_
  cases s.typeObjects.get? cls.name with
  | some o => exact .pure o
  | none =>
    exact .bind (orderly_newObject _ _) fun _ =>
      .bind (orderly_modifySession fun _ => rfl) fun _ => .pure _

theorem orderly_typeValue (cls : Class) : Orderly R (typeValue cls) :=
  .bind (orderly_typeObject cls) fun o => orderly_objectValue o

theorem orderly_forget (id : Nat) : Orderly R (forget id) := by
  refine .bind (orderly_setMaterialized id false) fun _ =>
    .bind orderly_readSession fun s => .bind (orderly_rawGetInt _ _) fun v => ?_
  have hrevoke : Orderly R (do let _ ← revoke id : Action Unit) :=
    .bind (orderly_revoke id) fun _ => .pure ()
  dsimp only
  split
  · exact .bind (orderly_rawSetInt _ _ _) fun _ => hrevoke
  · exact hrevoke

theorem orderly_objectBehind? (v : Value) : Orderly R (objectBehind? v) :=
  .bind .get fun _ => .pure _

theorem orderly_toHandle (v : Value) : Orderly R (toHandle v) :=
  Alike.pushed (x := pure ())
    (f := fun _ v => do
      let r ← createRef v
      newHandle ⟨(← readSession).id, r⟩)
    v (.pure ()) fun _ v =>
      .bind (orderly_createRef v) fun _ => .bind orderly_readSession fun _ =>
        orderly_newHandle _

theorem orderly_handleValue (h : HandleRef) : Orderly R (handleValue h) := by
  refine .bind .get fun w => ?_
  cases w.handles.get? h.index with
  | none => exact .pure _
  | some cell =>
    refine .bind orderly_readSession fun s => ?_
    split
    · exact orderly_readRef _
    · exact .pure _

theorem orderly_forM {m : Type → Type} [Monad m] [MonadStateOf World m] [Program m] {α : Type}
    {f : α → m Unit} (h : ∀ a, Orderly R (f a)) (l : List α) : Orderly R (l.forM f) :=
  fun Q hQ => agree_forM (fun a => h a Q hQ) l

theorem orderly_collectReleased : Orderly R collectReleased :=
  .bind orderly_settle fun _ => .bind orderly_readSession fun _ =>
    .bind (orderly_modifySession fun _ => rfl) fun _ =>
      .bind (orderly_forM orderly_releaseRef _) fun _ =>
        .bind orderly_settle fun _ => .pure _

theorem orderly_toValue (v : HostValue) : Orderly R v.toValue := by
  cases v with
  | object o => exact orderly_objectValue o
  | handle kind h => exact orderly_handleValue h
  | _ => exact .pure _

end ScriptBridge
