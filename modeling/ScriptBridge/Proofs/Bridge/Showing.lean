import ScriptBridge.Bridge.Conversion
import ScriptBridge.Proofs.Program

/-!
# What pushing an object changes

Finding the value of an object gives ids out and takes them back, makes userdata and writes tables.
It leaves the objects themselves as they are, the functions and dispatchers behind them, and what
the session knows of classes and members.
-/

namespace ScriptBridge

/-- What a session knows besides its ids. -/
def Session.knowledge (s : Session) :
    Options × Catalog × Dictionary (String × Binding × String) FoundMember :=
  (s.options, s.catalog, s.members)

/-- At most ids, userdata and tables are other ones. -/
structure World.Shown (w w' : World) : Prop where
  objects : w'.objects = w.objects
  functions : w'.functions = w.functions
  dispatchers : w'.dispatchers = w.dispatchers
  session : w'.machine.session.map Session.knowledge = w.machine.session.map Session.knowledge

variable {w w' : World}

theorem World.Shown.refl (w : World) : w.Shown w := ⟨rfl, rfl, rfl, rfl⟩

theorem World.Shown.trans {w'' : World} (h : w.Shown w') (h' : w'.Shown w'') : w.Shown w'' :=
  ⟨h'.objects.trans h.objects, h'.functions.trans h.functions,
    h'.dispatchers.trans h.dispatchers, h'.session.trans h.session⟩

theorem World.Shown.exists_session (h : w.Shown w') {s : Session}
    (hs : w.machine.session = some s) :
    ∃ s', w'.machine.session = some s' ∧ s'.knowledge = s.knowledge := by
  have hsession := h.session
  rw [hs] at hsession
  obtain ⟨s', hs', he⟩ := Option.map_eq_some_iff.mp hsession
  exact ⟨s', hs', he⟩

/-! ## Steps -/

theorem shown_readSession : Keeps w.Shown readSession :=
  keeps_get.bind fun _ => keeps_pure _

/-- A change of the session that leaves alone what it knows. -/
theorem shown_modifySession {f : Session → Session} (h : ∀ s, (f s).knowledge = s.knowledge) :
    Keeps w.Shown (modifySession f) := by
  refine keeps_modify fun w' hw => hw.trans ⟨rfl, rfl, rfl, ?_⟩
  show (w'.machine.session.map f).map Session.knowledge = _
  rw [Option.map_map]
  exact congrArg (w'.machine.session.map ·) (funext h)

theorem shown_discard (refs : List Ref) (during : Option TableRef := none) :
    Keeps w.Shown (discard refs during) := by
  unfold discard
  split
  · exact keeps_pure ()
  · exact keeps_modify fun _ hw => hw.trans ⟨rfl, rfl, rfl, rfl⟩

theorem shown_rawGetInt (t : TableRef) (n : Int) : Keeps w.Shown (rawGetInt t n) :=
  keeps_get.bind fun _ => keeps_pure _

theorem shown_rawSetInt (t : TableRef) (n : Int) (v : Value) : Keeps w.Shown (rawSetInt t n v) :=
  keeps_get.bind fun _ =>
    ((keeps_modify fun _ hw => hw.trans ⟨rfl, rfl, rfl, rfl⟩).bind fun _ =>
      shown_discard _ _).bind fun _ => shown_discard _ _

theorem shown_registryTable? (name : String) : Keeps w.Shown (registryTable? name) := by
  refine keeps_get.bind fun w' => ?_
  cases w'.fieldOf w'.machine.registry name with
  | table t => exact keeps_pure _
  | _ => exact keeps_pure _

theorem shown_newUserdata (payload : Payload) (metatable : Option TableRef) :
    Keeps w.Shown (newUserdata payload metatable) :=
  keeps_modifyGet fun _ hw => hw.trans ⟨rfl, rfl, rfl, rfl⟩

/-! ## Proxies -/

theorem shown_expose (o : ObjectRef) : Keeps w.Shown (expose o) :=
  .bind shown_readSession fun _ => .bind (shown_modifySession fun _ => rfl) fun _ => keeps_pure _

theorem shown_revoke (id : Nat) : Keeps w.Shown (revoke id) :=
  .bind shown_readSession fun _ => .bind (shown_modifySession fun _ => rfl) fun _ =>
    .bind (shown_discard _) fun _ => keeps_pure _

theorem shown_setMaterialized (id : Nat) (present : Bool) :
    Keeps w.Shown (setMaterialized id present) :=
  shown_modifySession fun _ => rfl

theorem shown_freshId (o : ObjectRef) (id : Nat) : Keeps w.Shown (freshId o id) := by
  refine shown_readSession.bind fun s => ?_
  split
  · exact (shown_setMaterialized id false).bind fun _ =>
      (shown_revoke id).bind fun _ => shown_expose o
  · exact keeps_pure id

theorem shown_proxyOf (ref : ObjectRef) (o : HostObject) : Keeps w.Shown (proxyOf ref o) := by
  refine (shown_expose ref).bind fun id =>
    shown_readSession.bind fun s => (shown_rawGetInt _ _).bind fun v => ?_
  cases v with
  | userdata u => exact keeps_pure _
  | _ =>
    exact (shown_freshId ref id).bind fun _ => (shown_registryTable? _).bind fun _ =>
      (shown_newUserdata _ _).bind fun _ => (shown_rawSetInt _ _ _).bind fun _ =>
        (shown_setMaterialized _ true).bind fun _ => keeps_pure _

theorem shown_objectValue (ref : ObjectRef) : Keeps w.Shown (objectValue ref) := by
  refine Program.Agree.bind (x := readObject? ref) (keeps_get.bind fun _ => keeps_pure _)
    fun o => ?_
  cases o with
  | none => exact keeps_pure _
  | some o =>
    refine shown_readSession.bind fun s => ?_
    split
    · exact keeps_pure _
    · exact shown_proxyOf ref o

/-- Finding the value of an object shows it. -/
theorem World.shown_of_objectValue {o : ObjectRef} {v : Value} (h : objectValue o w = (v, w')) :
    w.Shown w' := by
  have hshown := (shown_objectValue o w (.refl w)).2
  rwa [h] at hshown

end ScriptBridge
