import ScriptBridge.Proofs.Course.Regime
import ScriptBridge.Vm.Collect
import ScriptBridge.Vm.Reference

/-!
# Steps of a machine

Reclaiming memory, new cells, exceptions, raw table access and references are orderly under every
regime: each change they make is a small step.
-/

namespace ScriptBridge

variable {R : Regime}

/-! ## Memory -/

/-- A property of the regime is kept by settling. -/
theorem Regime.settle {Q : World → Prop} (hQ : R.Has Q) {w : World} (hw : Q w) : Q w.settle :=
  World.settle_keeps
    (fun _ _ _ _ hw _ => R.step hQ hw (fun _ => .books ..) (.of_same rfl rfl rfl))
    (fun _ d rest hfirst hw hfree =>
      R.step hQ hw (fun _ => .reclaim d rest hfirst hfree) (.reclaimed _ d rest)) hw

theorem orderly_settle : Orderly R settle :=
  .of_action fun _ _ hQ hw => R.settle hQ hw

theorem orderly_discard (refs : List Ref) (during : Option TableRef := none) :
    Orderly R (discard refs during) := by
  unfold discard
  split
  · exact .pure ()
  · exact .modify (fun _ _ => .books ..) fun _ => .of_same rfl rfl rfl

theorem orderly_release (refs : List Ref) (during : Option TableRef := none) :
    Orderly R (release refs during) :=
  .bind (orderly_discard refs during) fun _ => orderly_settle

theorem orderly_settleBeside (refs : List Ref) : Orderly R (settleBeside refs) := by
  refine .of_action fun Q w hQ hw => ?_
  have hheld : Q { w with held := refs ++ w.held } := R.step hQ hw (fun _ => .books ..)
    (.of_same rfl rfl rfl)
  exact R.step hQ (R.settle hQ hheld) (fun _ => .books ..) (.of_same rfl rfl rfl)

theorem orderly_hold (refs : List Ref) : Orderly R (hold refs) :=
  .modify (fun _ _ => .books ..) fun _ => .of_same rfl rfl rfl

theorem orderly_handOver (refs : List Ref) : Orderly R (handOver refs) :=
  .modify (fun _ _ => .books ..) fun _ => .of_same rfl rfl rfl

theorem orderly_unhold (refs : List Ref) : Orderly R (unhold refs) :=
  .bind (orderly_handOver refs) fun _ => orderly_discard refs

/-! ## Cells and parts of the world -/

theorem orderly_readMachine : Orderly R readMachine := .bind .get fun _ => .pure _

/-- A change of a session that keeps what lasts. -/
theorem orderly_modifySession {f : Session → Session} (h : ∀ s, (f s).lasting = s.lasting) :
    Orderly R (modifySession f) :=
  .modify (fun _ _ => .session f fun s _ => .of_lasting (h s)) fun _ =>
    .modifySession fun s _ => (congrArg (·.2.2.2.1) (h s) : (f s).catalog = s.catalog) ▸ .refl _

/-- Classes of arrays join the catalog of the running session. -/
theorem Regime.catalog {Q : World → Prop} (hQ : R.Has Q) {w : World} (hw : Q w) {c : Catalog}
    (h : ∀ s, w.machine.session = some s → s.catalog.Grows c) :
    Q (modifySession (fun s => { s with catalog := c }) w).2 :=
  R.step hQ hw
    (fun _ => .session _ fun s hs =>
      ⟨rfl, rfl, rfl, fun hk => hk.grows (h s hs), rfl, rfl, rfl, fun _ _ hk => hk⟩)
    (.modifySession h)

theorem orderly_readObject? (o : ObjectRef) : Orderly R (readObject? o) :=
  .bind .get fun _ => .pure _

theorem orderly_newTable (t : Table) : Orderly R (newTable t) :=
  .modifyGet (fun _ _ => .newTable t) fun _ => .of_same rfl rfl rfl

theorem orderly_newFunction (f : Function) : Orderly R (newFunction f) :=
  .modifyGet (fun _ _ => .newFunction f) fun _ => .of_same rfl rfl rfl

/-- A userdata that is no proxy. -/
theorem orderly_newUserdata {payload : Payload} (h : ∀ id, payload ≠ .proxy id)
    (metatable : Option TableRef) : Orderly R (newUserdata payload metatable) :=
  .modifyGet (fun _ _ => .newUserdata payload metatable h) fun _ => .of_same rfl rfl rfl

theorem orderly_newObject (cls : Class) (data : ObjectData) : Orderly R (newObject cls data) :=
  .modifyGet (fun _ _ => .newObject cls data) fun w =>
    ⟨⟨w.objects.sameContents_add _, .refl _⟩, .refl _⟩

theorem orderly_newHandle (h : Handle) : Orderly R (newHandle h) :=
  .modifyGet (fun _ _ => .newHandle h) fun _ => .of_same rfl rfl rfl

theorem orderly_newDispatcher (d : Dispatcher) : Orderly R (newDispatcher d) :=
  .modifyGet (fun _ _ => .newDispatcher d) fun _ => .of_same rfl rfl rfl

theorem orderly_newCell (c : Cell) : Orderly R (newCell c) :=
  .modifyGet (fun _ _ => .newCell c) fun w =>
    ⟨⟨.refl _, w.cells.sameContents_add _⟩, .refl _⟩

/-! ## Exceptions -/

theorem orderly_newException (cause : Cause) : Orderly R (newException cause) :=
  .modifyGet (fun _ _ => .books ..) fun _ => .of_same rfl rfl rfl

theorem orderly_namedException (name : String) : Orderly R (namedException name) := by
  refine .bind .get fun w => ?_
  cases w.named.get? name with
  | some e => exact .pure e
  | none =>
    exact .bind (orderly_newException _) fun _ =>
      .bind (.modify (fun _ _ => .books ..) fun _ => .of_same rfl rfl rfl) fun _ => .pure _

theorem orderly_throwCause {α : Type} (cause : Cause) :
    Orderly R (throwCause cause : Host α) :=
  .bind (.lift (orderly_newException cause)) fun _ => .throw _

theorem orderly_build (spec : ExceptionSpec) : Orderly R spec.build := by
  induction spec with
  | named name => exact orderly_namedException name
  | duringInvoke callable inner ih =>
    exact .bind ih fun _ => orderly_newException _
  | _ => exact orderly_newException _

theorem orderly_valueAt (i : Int) : Orderly R (valueAt i) :=
  .bind orderly_readMachine fun _ => .pure _

theorem orderly_location (level : Nat) : Orderly R (location level) :=
  .bind .get fun _ => .pure _

theorem orderly_raiseMessage {α : Type} (message : String) :
    Orderly R (raiseMessage message : Script α) :=
  .throw _

theorem orderly_raiseAt {α : Type} (level : Nat) (message : String) :
    Orderly R (raiseAt level message : Script α) :=
  .bind (.lift (orderly_location level)) fun _ => orderly_raiseMessage _

/-! ## Tables -/

theorem orderly_tableAt (i : Int) : Orderly R (tableAt i) := by
  refine .bind (.lift (orderly_valueAt i)) fun v => ?_
  cases v with
  | table t => exact .pure t
  | _ => exact orderly_raiseMessage _

theorem orderly_setTable (t : TableRef) (table : Table) : Orderly R (setTable t table) :=
  .modify (fun _ _ => .setTable t table) fun _ => .of_same rfl rfl rfl

theorem orderly_writeTable (t : TableRef) (change : Table × List Value) :
    Orderly R (writeTable t change) :=
  .bind (orderly_setTable t _) fun _ => orderly_discard _ _

theorem orderly_rawGet (t : TableRef) (key : Value) : Orderly R (rawGet t key) :=
  .bind .get fun _ => .pure _

theorem orderly_rawGetInt (t : TableRef) (n : Int) : Orderly R (rawGetInt t n) :=
  .bind .get fun _ => .pure _

theorem orderly_rawGetField (t : TableRef) (name : String) : Orderly R (rawGetField t name) :=
  .bind .get fun _ => .pure _

theorem orderly_rawSet (t : TableRef) (key value : Value) : Orderly R (rawSet t key value) := by
  refine .bind .get fun w => ?_
  cases (w.table t).set key value with
  | ok change =>
    exact .bind (.lift (orderly_writeTable t change)) fun _ => .lift (orderly_discard _ _)
  | error e =>
    exact .bind (.lift (orderly_discard _ _)) fun _ => orderly_raiseMessage _

theorem orderly_rawSetField (t : TableRef) (name : String) (value : Value) :
    Orderly R (rawSetField t name value) :=
  .bind .get fun _ => .bind (orderly_writeTable t _) fun _ => orderly_discard _ _

theorem orderly_rawSetInt (t : TableRef) (n : Int) (value : Value) :
    Orderly R (rawSetInt t n value) :=
  .bind .get fun _ => .bind (orderly_writeTable t _) fun _ => orderly_discard _ _

theorem orderly_rawLength (v : Value) : Orderly R (rawLength v) := by
  cases v with
  | table t => exact .bind .get fun _ => .pure _
  | _ => exact .pure _

theorem orderly_setTableMetatable (t : TableRef) (metatable : Option TableRef) :
    Orderly R (setTableMetatable t metatable) :=
  .bind .get fun _ => .bind (orderly_setTable t _) fun _ => orderly_discard _ _

theorem orderly_setUserdataMetatable (u : UserdataRef) (metatable : Option TableRef) :
    Orderly R (setUserdataMetatable u metatable) :=
  .bind .get fun _ =>
    .bind (.modify (fun _ _ => .setMetatable u metatable) fun _ => .of_same rfl rfl rfl) fun _ =>
      orderly_discard _

/-! ## References -/

theorem orderly_takeReference : Orderly R takeReference := by
  refine .bind .get fun w => ?_
  dsimp only
  split
  · exact .bind (orderly_rawGetInt _ _) fun _ =>
      .bind (orderly_rawSetField _ _ _) fun _ => .pure _
  · exact .bind (.modify (fun _ _ => .machine ..) fun _ => .of_same rfl rfl rfl) fun _ => .pure _

theorem orderly_createRef (v : Value) : Orderly R (createRef v) := by
  unfold createRef
  split
  · exact .pure _
  · exact .bind orderly_takeReference fun _ =>
      .bind orderly_readMachine fun _ => .bind (orderly_rawSetInt _ _ _) fun _ => .pure _

theorem orderly_readRef (r : Int) : Orderly R (readRef r) := by
  unfold readRef
  split
  · exact .pure _
  · exact .bind orderly_readMachine fun _ => orderly_rawGetInt _ _

theorem orderly_releaseRef (r : Int) : Orderly R (releaseRef r) := by
  unfold releaseRef
  split
  · exact .bind orderly_readMachine fun _ => .bind (orderly_rawGetField _ _) fun _ =>
      .bind (orderly_rawSetInt _ _ _) fun _ => orderly_rawSetField _ _ _
  · exact .pure ()

end ScriptBridge
