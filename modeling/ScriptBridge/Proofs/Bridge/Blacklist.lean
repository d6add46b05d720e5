import ScriptBridge.Proofs.Bridge.Discreet
import ScriptBridge.Proofs.Bridge.Opening
import ScriptBridge.Proofs.Bridge.ProxyIdentity
import ScriptBridge.Proofs.Course.Command
import ScriptBridge.Proofs.Course.Oversight
import ScriptBridge.Proofs.Host.Namespace
import ScriptBridge.Script.Scenario

/-!
# The blacklist

Objects of blacklisted namespaces reach scripts as texts only. `Discreet` holds of the first world
of a scenario, courses keep it, and so does whatever makes, changes or removes a machine. So it
holds all the way through every scenario, under any options.
-/

namespace ScriptBridge

variable {w w' : World} {o : Options} {α ε : Type}

/-! ## Courses -/

/-- The stable property that no blacklisted object has a proxy. -/
def Stable.discreet (o : Options) : Stable where
  Holds w b := w.Discreet o b
  step h hstep := h.step hstep
  learned key found h _ := h.learned key found
  stack _ h := h.advance (.of_running rfl (.unchanged rfl rfl rfl) (Nat.le_refl _) (.of_eq rfl)
    (fun _ _ hu => .inl (.userdata hu)) fun _ hp => .taken hp)
  frames _ h := h.advance (.of_running rfl (.unchanged rfl rfl rfl) (Nat.le_refl _) (.of_eq rfl)
    (fun _ _ hu => .inl (.userdata hu)) fun _ hp => .taken hp)
  activations _ h := h.advance (.quiet rfl rfl (Nat.le_refl _) (.of_eq rfl)
    fun _ u hu => ⟨u, hu, rfl, rfl⟩)

namespace World

/-- Between commands nothing is taken from a graveyard. -/
theorem Discreet.forget {b : List Pending} (h : w.Discreet o b) : w.Discreet o [] :=
  h.advance ⟨rfl, fun m hm => ⟨m, .refl hm⟩, Nat.le_refl _, .of_eq rfl,
    fun _ _ hu => .inl (.userdata hu), fun _ hp => absurd hp List.not_mem_nil⟩

end World

theorem agree_of_alike {x y : Action α} (h : Alike ((Stable.discreet o).regime false) x y) :
    Agree (·.Discreet o []) x y := by
  intro w hw
  obtain ⟨hsame, b, hcourse⟩ := alike_action_iff.mp h w [] hw
  have hafter : (x w).2.Discreet o b := (Stable.discreet o).course hcourse hw
  exact ⟨hsame, hafter.forget⟩

/-- A program that is orderly under every regime leaves a discreet world discreet. -/
theorem discreet_of_orderly {x : Action α} (h : ∀ R : Regime, Orderly R x) (hw : w.Discreet o []) :
    (x w).2.Discreet o [] :=
  Action.keeps_iff.mp (agree_of_alike (h _)) w hw

/-! ## Machines -/

namespace World

/-- What machines carry depends on the userdata, and on graveyards and whose they are. -/
theorem HasPayload.of_same {id : Nat} {p : Payload} (h : w'.HasPayload [] id p)
    (huserdata : w'.userdata = w.userdata)
    (hgraveyards : ∀ m' ∈ w'.machines, m'.graveyard = [] ∨
      ∃ m ∈ w.machines, m.id = m'.id ∧ m.graveyard = m'.graveyard) : w.HasPayload [] id p := by
  cases h with
  | userdata hu =>
    rw [huserdata] at hu
    exact .userdata hu
  | buried hm hp =>
    rcases hgraveyards _ hm with hnil | ⟨m, hm, hid, hsame⟩
    · rw [hnil] at hp
      exact absurd hp List.not_mem_nil
    · rw [← hid]
      rw [← hsame] at hp
      exact .buried hm hp
  | taken hp => exact absurd hp List.not_mem_nil

/-- Machines may come in another order or go, and a new one has no session and no graveyard. -/
theorem Discreet.regrouped (h : w.Discreet o []) (hids : (w'.machines.map Machine.id).Nodup)
    (hmachines : ∀ m ∈ w'.machines, m ∈ w.machines ∨
      m.id < w.tables.next ∧ m.session = none ∧ m.graveyard = [])
    (htables : w'.tables = w.tables) (huserdata : w'.userdata = w.userdata)
    (hobjects : w'.objects = w.objects) : w'.Discreet o [] := by
  have hcarries (id : Nat) (p : Payload) (hp : w'.HasPayload [] id p) : w.HasPayload [] id p := by
    refine hp.of_same huserdata fun m hm => ?_
    rcases hmachines m hm with hm | ⟨-, -, hnil⟩
    · exact .inr ⟨m, hm, rfl, rfl⟩
    · exact .inl hnil
  have hold (m : Machine) (hm : m ∈ w'.machines) (s : Session) (hs : m.session = some s) :
      m ∈ w.machines := by
    rcases hmachines m hm with hm | ⟨-, hnone, -⟩
    · exact hm
    · rw [hnone] at hs
      cases hs
  refine ⟨hids, fun m hm => ?_, fun id p hp => ?_, fun m hm s hs => ?_, fun m hm s hs => ?_,
    fun m hm s hs => ?_, fun m hm s hs p hp => ?_⟩
  · rw [htables]
    rcases hmachines m hm with hm | ⟨hlt, -⟩
    · exact h.lt_next m hm
    · exact hlt
  · rw [htables]
    exact h.home_lt id p (hcarries id p hp)
  · exact h.options m (hold m hm s hs) s hs
  · exact h.keyed m (hold m hm s hs) s hs
  · exact h.paired m (hold m hm s hs) s hs
  · exact (h.showable m (hold m hm s hs) s hs p (hcarries _ p hp)).later (.of_eq hobjects) (.refl s)

/-- A machine that nothing belongs to. -/
structure Unused (w : World) (m : Machine) : Prop where
  lt_next : m.id < w.tables.next
  other : ∀ m' ∈ w.machines, m'.id ≠ m.id
  session : m.session = none
  graveyard : m.graveyard = []
  unborne : ∀ p, ¬ w.HasPayload [] m.id p

end World

theorem newMachine_unused (h : w.Discreet o []) (limits : Limits) :
    (newMachine limits w).2.Discreet o [] ∧
      (newMachine limits w).2.Unused (newMachine limits w).1 := by
  have hkept : (newMachine limits w).2.Discreet o [] := by
    refine discreet_of_orderly (fun R => ?_) h
    exact .bind (orderly_newTable _) fun _ => .bind (orderly_newTable _) fun _ => .pure _
  have hnext : (newMachine limits w).2.tables.next = w.tables.next + 2 := by
    show ((w.tables.add {}).add {}).next = _
    rw [Store.next_add, Store.next_add]
  refine ⟨hkept, ⟨?_, fun m hm => ?_, rfl, rfl, fun p hp => ?_⟩⟩
  · rw [hnext]
    exact Nat.lt_add_of_pos_right Nat.two_pos
  · exact Nat.ne_of_lt (h.lt_next m hm)
  · -- What belongs to a machine was made after it, but the id of this one is the next to be given.
    have hbefore := hp.of_same (w := w) rfl fun m hm => .inr ⟨m, hm, rfl, rfl⟩
    exact Nat.lt_irrefl _ (h.home_lt _ p hbefore)

theorem park_discreet {m : Machine} (h : w.Discreet o []) (hm : w.Unused m) :
    (park m w).2.Discreet o [] := by
  refine h.regrouped ?_ (fun m' hm' => ?_) rfl rfl rfl
  · refine List.nodup_cons.mpr ⟨fun hmem => ?_, h.nodup⟩
    obtain ⟨m', hm', hid⟩ := List.mem_map.mp hmem
    exact hm.other m' hm' hid
  · rcases List.mem_cons.mp hm' with rfl | hm'
    · exact .inr ⟨hm.lt_next, hm.session, hm.graveyard⟩
    · exact .inl hm'

theorem keeps_resume (id : Nat) : Keeps (·.Discreet o []) (resume id) := by
  refine keeps_modify fun w h => ?_
  cases hfind : w.parked.find? (·.id == id) with
  | none => exact h
  | some m =>
    have hm : m ∈ w.parked := List.mem_of_find?_eq_some hfind
    have hid := List.find?_some hfind
    replace hid : m.id = id := beq_iff_eq.mp hid
    have hrest : List.Sublist (w.machine :: w.parked.filter (·.id != id)) w.machines :=
      List.filter_sublist.cons_cons _
    refine h.regrouped ?_ (fun m' hm' => .inl ?_) rfl rfl rfl
    · -- The machine that comes to the front is taken out of those set aside.
      refine List.nodup_cons.mpr ⟨fun hmem => ?_, h.nodup.sublist (hrest.map _)⟩
      rcases List.mem_cons.mp hmem with hsame | hmem
      · refine (List.nodup_cons.mp h.nodup).1 ?_
        rw [← hsame]
        exact List.mem_map_of_mem hm
      · obtain ⟨m', hm', hsame⟩ := List.mem_map.mp hmem
        have hne := (List.mem_filter.mp hm').2
        rw [hsame, hid] at hne
        exact absurd hne (by simp)
    · rcases List.mem_cons.mp hm' with rfl | hm'
      · exact List.mem_cons_of_mem _ hm
      · exact hrest.subset hm'

theorem keeps_leaveMachine (id : Nat) : Keeps (·.Discreet o []) (leaveMachine id) := by
  refine .bind (agree_of_alike orderly_readMachine) fun gone => .bind (keeps_resume id) fun _ =>
    .bind (keeps_modify fun w h => ?_) fun _ => agree_of_alike (orderly_release _)
  have hrest : List.Sublist (w.machine :: w.parked.filter (·.id != gone.id)) w.machines :=
    List.filter_sublist.cons_cons _
  exact h.regrouped (h.nodup.sublist (hrest.map _)) (fun m hm => .inl (hrest.subset hm)) rfl rfl rfl

/-! ## Opening -/

namespace World

/-- Tables and functions were made and written. -/
structure Furnished (w w' : World) : Prop where
  machine : w'.machine = w.machine
  parked : w'.parked = w.parked
  userdata : w'.userdata = w.userdata
  objects : w'.objects = w.objects
  tables : w.tables.next ≤ w'.tables.next

theorem Furnished.refl (w : World) : w.Furnished w := ⟨rfl, rfl, rfl, rfl, Nat.le_refl _⟩

end World

theorem furnished_newTable (t : Table) : Keeps w.Furnished (newTable t) := by
  refine keeps_modifyGet fun w' h =>
    ⟨h.machine, h.parked, h.userdata, h.objects, Nat.le_trans h.tables ?_⟩
  exact Nat.le_trans (Nat.le_succ _) (Nat.le_of_eq (Store.next_add _ _).symm)

theorem furnished_newFunction (f : Function) : Keeps w.Furnished (newFunction f) :=
  keeps_modifyGet fun _ h => ⟨h.machine, h.parked, h.userdata, h.objects, h.tables⟩

theorem furnished_discard (refs : List Ref) (during : Option TableRef) :
    Keeps w.Furnished (discard refs during) := by
  unfold discard
  split
  · exact keeps_pure ()
  · exact keeps_modify fun _ h => ⟨h.machine, h.parked, h.userdata, h.objects, h.tables⟩

theorem furnished_setTable (t : TableRef) (table : Table) :
    Keeps w.Furnished (setTable t table) := by
  refine keeps_modify fun w' h =>
    ⟨h.machine, h.parked, h.userdata, h.objects, Nat.le_trans h.tables ?_⟩
  exact Nat.le_of_eq (Store.next_modify _ _ _).symm

theorem furnished_rawSetField (t : TableRef) (name : String) (v : Value) :
    Keeps w.Furnished (rawSetField t name v) :=
  keeps_get.bind fun _ => .bind ((furnished_setTable _ _).bind fun _ => furnished_discard _ _)
    fun _ => furnished_discard _ _

theorem furnished_newWeakTable : Keeps w.Furnished newWeakTable :=
  (furnished_newTable _).bind fun _ => (furnished_rawSetField _ _ _).bind fun _ =>
    (furnished_newTable _).bind fun _ => .bind
      (keeps_get.bind fun _ => (furnished_setTable _ _).bind fun _ => furnished_discard _ _)
      fun _ => keeps_pure _

theorem furnished_writeHandlers (t : TableRef) (handlers : List (String × String × Handler)) :
    Keeps w.Furnished (writeHandlers t handlers) := by
  induction handlers with
  | nil => exact keeps_pure ()
  | cons h rest ih =>
    exact (furnished_newFunction _).bind fun _ => (furnished_rawSetField _ _ _).bind fun _ => ih

theorem furnished_writeMetatables (registry : TableRef)
    (metatables : List (String × List (String × String × Handler))) :
    Keeps w.Furnished (writeMetatables registry metatables) := by
  induction metatables with
  | nil => exact keeps_pure ()
  | cons m rest ih =>
    exact (furnished_newTable _).bind fun _ => (furnished_writeHandlers _ _).bind fun _ =>
      (furnished_rawSetField _ _ _).bind fun _ => ih

/-- A session is attached after its tables were written. -/
theorem install_furnished (w : World) (options : Options) (adapters : AdapterPolicy) :
    ∃ w' objects, w.Furnished w' ∧ (install options adapters w).2 =
      { w' with machine := w'.machine.attached options adapters objects } := by
  let objects : TableRef := (newWeakTable w).1
  let w₁ : World := (newWeakTable w).2
  let w₂ : World := (rawSetField w.machine.registry proxiesName (.table objects) w₁).2
  let w₃ : World := (writeMetatables w.machine.registry metatables w₂).2
  have hw₁ : w.Furnished w₁ := Action.keeps_iff.mp furnished_newWeakTable w (.refl w)
  have hw₂ : w.Furnished w₂ := Action.keeps_iff.mp (furnished_rawSetField _ _ _) w₁ hw₁
  have hw₃ : w.Furnished w₃ := Action.keeps_iff.mp (furnished_writeMetatables _ _) w₂ hw₂
  have hattach := World.attach_eq options.registerGlobals w.machine.globals globalHandlers
    (·.attached options adapters objects) w₃
  refine ⟨if options.registerGlobals then (writeHandlers w.machine.globals globalHandlers w₃).2
    else w₃, objects, ?_, ?_⟩
  · split
    · exact Action.keeps_iff.mp (furnished_writeHandlers _ _) w₃ hw₃
    · exact hw₃
  · unfold install
    rw [bind_of_eq (show readMachine w = (w.machine, w) from rfl),
      bind_of_eq (show newWeakTable w = (objects, w₁) from rfl),
      bind_of_eq (World.run_unit _ _), bind_of_eq (World.run_unit _ _)]
    exact congrArg Prod.snd hattach

/-- A new session has given no id yet, and nothing carries one for it. -/
theorem World.Discreet.installed (h : w.Discreet o [])
    (hnew : ∀ p, ¬ w.HasPayload [] w.machine.id p) (hw : w.Furnished w') (adapters : AdapterPolicy)
    (objects : TableRef) :
    World.Discreet { w' with machine := w'.machine.attached o adapters objects } o [] := by
  have h' : w'.Discreet o [] := by
    refine h.advance (.quiet hw.machine hw.parked hw.tables (.of_eq hw.objects) fun i u hu => ?_)
    rw [hw.userdata] at hu
    exact ⟨u, hu, rfl, rfl⟩
  let w₁ : World := { w' with machine := w'.machine.attached o adapters objects }
  have hself : w'.machine ∈ w'.machines := List.mem_cons_self
  have hcarries (id : Nat) (p : Payload) (hp : w₁.HasPayload [] id p) : w'.HasPayload [] id p := by
    refine hp.of_same rfl fun m hm => .inr ?_
    rcases List.mem_cons.mp hm with rfl | hm
    · exact ⟨w'.machine, hself, rfl, rfl⟩
    · exact ⟨m, List.mem_cons_of_mem _ hm, rfl, rfl⟩
  -- So nothing needs to be shown of the registry of the new session.
  have hunused (p : Payload) : ¬ w'.HasPayload [] w'.machine.id p := by
    intro hp
    rw [hw.machine] at hp
    refine hnew p (hp.of_same hw.userdata fun m hm => .inr ⟨m, ?_, rfl, rfl⟩)
    rw [World.machines, hw.machine, hw.parked] at hm
    exact hm
  have hsession (s : Session) (hs : w₁.machine.session = some s) :
      s = { id := w'.machine.id, options := o, adapters, objects } :=
    (Option.some.inj hs).symm
  refine ⟨h'.nodup, fun m hm => ?_, fun id p hp => h'.home_lt id p (hcarries id p hp),
    fun m hm s hs => ?_, fun m hm s hs => ?_, fun m hm s hs => ?_, fun m hm s hs p hp => ?_⟩
  · rcases List.mem_cons.mp hm with rfl | hm
    · show w'.machine.id < w'.tables.next
      exact h'.lt_next _ hself
    · exact h'.lt_next m (List.mem_cons_of_mem _ hm)
  · rcases List.mem_cons.mp hm with rfl | hm
    · rw [hsession s hs]
    · exact h'.options m (List.mem_cons_of_mem _ hm) s hs
  · rcases List.mem_cons.mp hm with rfl | hm
    · rw [hsession s hs]
      exact Catalog.isKeyed_initial
    · exact h'.keyed m (List.mem_cons_of_mem _ hm) s hs
  · rcases List.mem_cons.mp hm with rfl | hm
    · rw [hsession s hs]
      exact .empty _
    · exact h'.paired m (List.mem_cons_of_mem _ hm) s hs
  · rcases List.mem_cons.mp hm with rfl | hm
    · exact absurd (hcarries _ p hp) (hunused p)
    · exact (h'.showable m (List.mem_cons_of_mem _ hm) s hs p (hcarries _ p hp)).later
        (.of_eq rfl) (.refl s)

theorem keeps_openSession (adapters : AdapterPolicy) :
    Keeps (·.Discreet o []) (openSession o adapters) := by
  refine Action.keeps_iff.mpr fun w h => ?_
  let limits : Limits := { maxCallDepth := o.maxCallDepth }
  let m : Machine := (newMachine limits w).1
  let w₁ : World := (newMachine limits w).2
  let w₂ : World := (park m w₁).2
  obtain ⟨hmade, hunused⟩ : w₁.Discreet o [] ∧ w₁.Unused m := newMachine_unused h limits
  have hparked : w₂.Discreet o [] := park_discreet hmade hunused
  have hcarries (p : Payload) : ¬ w₂.HasPayload [] m.id p := by
    intro hp
    refine hunused.unborne p (hp.of_same rfl fun m' hm' => ?_)
    rcases List.mem_cons.mp hm' with rfl | hm'
    · exact .inl rfl
    · exact .inr ⟨m', hm', rfl, rfl⟩
  obtain ⟨w₃, objects, hw₃, hinstall⟩ := install_furnished w₂ o adapters
  have hinstalled : (install o adapters w₂).2.Discreet o [] := by
    rw [hinstall]
    exact hparked.installed hcarries hw₃ adapters objects
  unfold openSession
  rw [bind_of_eq (show newMachine limits w = (m, w₁) from rfl),
    bind_of_eq (World.run_unit (park m) w₁), bind_of_eq (World.run_unit (install o adapters) w₂)]
  generalize (install o adapters w₂).2 = w₄ at hinstalled
  exact hinstalled.advance (.quiet rfl rfl (Nat.le_refl _) (.of_eq rfl)
    fun _ u hu => ⟨u, hu, rfl, rfl⟩)

/-! ## Closing -/

theorem orderly_removeSubscription {R : Regime} [R.Stores] (subscription handler : ObjectRef) :
    Orderly R (removeSubscription subscription handler) := by
  refine .bind (orderly_readObject? subscription) fun found => ?_
  split
  · exact .bind (orderly_unsubscribe _ _ _).attempt fun _ => .pure _
  · exact .pure ()

theorem orderly_removeSubscriptions {R : Regime} [R.Stores]
    (events : List (ObjectRef × ObjectRef)) : Orderly R (removeSubscriptions events) := by
  induction events with
  | nil => exact .pure ()
  | cons e rest ih =>
    exact .bind (orderly_removeSubscription _ _) fun _ => .bind (orderly_unhold _) fun _ =>
      .bind orderly_settle fun _ => ih

/-- A new machine takes the place of one that goes. -/
theorem keeps_replaceMachine (gone : Nat) : Keeps (·.Discreet o []) (do
    let m ← newMachine {}
    modify fun w =>
      { w with
        parked := m :: w.parked
        sessions := w.sessions.map fun id => if id == gone then m.id else id }
    leaveMachine m.id : Action Unit) := by
  refine Action.keeps_iff.mpr fun w h => ?_
  let m : Machine := (newMachine {} w).1
  let w₁ : World := (newMachine {} w).2
  let w₂ : World := { w₁ with
    parked := m :: w₁.parked
    sessions := w₁.sessions.map fun id => if id == gone then m.id else id }
  obtain ⟨hmade, hunused⟩ : w₁.Discreet o [] ∧ w₁.Unused m := newMachine_unused h {}
  have hjoined : w₂.Discreet o [] := by
    refine hmade.regrouped ?_ (fun m' hm' => ?_) rfl rfl rfl
    · have hparked : (park m w₁).2.Discreet o [] := park_discreet hmade hunused
      exact ((List.Perm.swap _ _ _).nodup_iff).mp hparked.nodup
    · rcases List.mem_cons.mp hm' with rfl | hm'
      · exact .inl List.mem_cons_self
      · rcases List.mem_cons.mp hm' with rfl | hm'
        · exact .inr ⟨hunused.lt_next, hunused.session, hunused.graveyard⟩
        · exact .inl (List.mem_cons_of_mem _ hm')
  exact Action.keeps_iff.mp (keeps_leaveMachine m.id) w₂ hjoined

theorem keeps_closeSession : Keeps (·.Discreet o []) closeSession := by
  have hrest (refs : List Ref) : Keeps (·.Discreet o []) (do
      release refs
      let events := (← readSession).events
      hold (events.flatMap fun e => [.object e.1, .object e.2])
      modifySession ({ · with events := [] })
      removeSubscriptions events
      let gone := (← readMachine).id
      let m ← newMachine {}
      modify fun w =>
        { w with
          parked := m :: w.parked
          sessions := w.sessions.map fun id => if id == gone then m.id else id }
      leaveMachine m.id : Action Unit) :=
    .bind (agree_of_alike (orderly_release refs)) fun _ =>
      .bind (agree_of_alike orderly_readSession) fun _ =>
        .bind (agree_of_alike (orderly_hold _)) fun _ =>
          .bind (agree_of_alike (orderly_modifySession fun _ => rfl)) fun _ =>
            .bind (agree_of_alike (orderly_removeSubscriptions _)) fun _ =>
              .bind (agree_of_alike orderly_readMachine) fun m => keeps_replaceMachine m.id
  refine Action.keeps_iff.mpr fun w h => ?_
  have hset : World.Discreet { w with kept := [], wrappers := [] } o [] :=
    h.advance (.quiet rfl rfl (Nat.le_refl _) (.of_eq rfl) fun _ u hu => ⟨u, hu, rfl, rfl⟩)
  exact Action.keeps_iff.mp (hrest _) _ hset

/-! ## Commands -/

/-- What is done on a machine of its own. -/
theorem agree_detached {x y : Action α} (h : Agree (·.Discreet o []) x y) :
    Agree (·.Discreet o []) (detached x) (detached y) := by
  intro w hw
  let m : Machine := (newMachine {} w).1
  let w₁ : World := (newMachine {} w).2
  obtain ⟨hmade, hunused⟩ : w₁.Discreet o [] ∧ w₁.Unused m := newMachine_unused hw {}
  obtain ⟨hsame, hafter⟩ := h _ (park_discreet hmade hunused)
  have hrun (z : Action α) : detached z w =
      ((z (park m w₁).2).1, (leaveMachine w.machine.id (z (park m w₁).2).2).2) := rfl
  rw [hrun x, hrun y, ← hsame]
  exact ⟨rfl, Action.keeps_iff.mp (keeps_leaveMachine _) _ hafter⟩

section

variable {E E' : Engine} (hE : E.Alike (Stable.discreet o).conduct E')

include hE

theorem agree_runDetached (name : String) (d : DispatcherRef) (arguments : List Literal) :
    Agree (·.Discreet o []) (runDetached E name d arguments) (runDetached E' name d arguments) := by
  let C : Conduct := (Stable.discreet o).conduct
  refine agree_detached (agree_of_alike (.bind (orderly_functionOf name d) fun f =>
    .bind (C.push _) fun _ => .bind (orderly_buildLiterals arguments) fun vs => ?_))
  have hcall : Orderly (C.regime false) (pushAll vs) := orderly_pushAll vs
  refine .bind hcall fun _ => .bind (alike_protectedCall hE.run).attempt fun status => ?_
  cases status with
  | error e => exact .pure _
  | ok status =>
    exact .bind C.popValue fun v => .bind (orderly_showValue v) fun view =>
      .bind (orderly_discard _) fun _ => .pure _

theorem agree_runCommand (c : Command) :
    Agree (·.Discreet o []) (runCommand E c) (runCommand E' c) := by
  cases c with
  | callDetached wrapper arguments =>
    refine .bind (agree_of_alike (orderly_wrapper? wrapper)) fun d => ?_
    cases d with
    | some d => exact agree_runDetached hE wrapper d arguments
    | none => exact keeps_pure _
  | _ => exact agree_of_alike (alike_runCommand hE _ id)

theorem agree_stepCommand (c : Command) :
    Agree (·.Discreet o []) (stepCommand E c) (stepCommand E' c) :=
  .bind (agree_runCommand hE c) fun _ => agree_of_alike (.bind orderly_settle fun _ =>
    .bind orderly_takeTrace fun _ => .bind orderly_readMachine fun _ =>
      .bind (orderly_mapM orderly_showValue _) fun _ => .pure _)

theorem agree_runSessionCommand (c : SessionCommand) :
    Agree (·.Discreet o []) (runSessionCommand E c) (runSessionCommand E' c) := by
  cases c with
  | switch k =>
    refine keeps_get.bind fun w => ?_
    split
    · exact .bind (keeps_resume _) fun _ => keeps_pure _
    · exact keeps_pure _
  | bag name =>
    refine .bind (agree_of_alike (.bind .get fun w => .bind (orderly_readBag? _) fun b => ?_))
      fun _ => keeps_pure _
    cases b <;> exact .pure _
  | close =>
    refine .bind (agree_of_alike orderly_readMachine) fun m => ?_
    split
    · exact keeps_pure _
    · exact .bind (keeps_get.bind fun _ => keeps_pure _) fun _ =>
        .bind keeps_closeSession fun _ => keeps_pure _
  | command c =>
    refine .bind (agree_of_alike orderly_readMachine) fun m => ?_
    split
    · exact keeps_pure _
    · exact .bind (agree_stepCommand hE c) fun _ => keeps_pure _

end

/-! ## Scenarios -/

theorem start_discreet (limits : Limits) : (World.start limits).Discreet o [] := by
  have hcarries (id : Nat) (p : Payload) : ¬ (World.start limits).HasPayload [] id p := by
    intro hp
    cases hp with
    | userdata hu => cases hu
    | buried hm hp =>
      obtain rfl := List.mem_singleton.mp hm
      exact absurd hp List.not_mem_nil
    | taken hp => exact absurd hp List.not_mem_nil
  have hnone (m : Machine) (hm : m ∈ (World.start limits).machines) (s : Session) :
      m.session ≠ some s := by
    obtain rfl := List.mem_singleton.mp hm
    exact nofun
  refine ⟨List.nodup_singleton _, fun m hm => ?_, fun id p hp => absurd hp (hcarries id p),
    fun m hm s hs => absurd hs (hnone m hm s), fun m hm s hs => absurd hs (hnone m hm s),
    fun m hm s hs => absurd hs (hnone m hm s), fun m hm s hs => absurd hs (hnone m hm s)⟩
  obtain rfl := List.mem_singleton.mp hm
  exact Nat.zero_lt_two

namespace Scenario

/-- Opens the sessions of a scenario under some options and carries out its commands. -/
def play (s : Scenario) (E : Engine) (o : Options) (adapters : AdapterPolicy) :
    Action (List Item) := do
  s.openAll E o adapters
  s.commands.mapM (runSessionCommand E)

theorem run?_eq (s : Scenario) : s.run? = s.configuration.read?.map fun c =>
    (s.play Engine.standard c.1 c.2 (World.start {})).1 := by
  unfold run?
  cases s.configuration.read? <;> rfl

variable {E E' : Engine}

theorem agree_importAll (hE : E.Alike (Stable.discreet o).conduct E') (names : List String)
    (id : Nat) : Agree (·.Discreet o []) (importAll E names id) (importAll E' names id) := by
  refine (keeps_resume id).bind fun _ => agree_forM (fun name => ?_) names
  have himport : Alike ((Stable.discreet o).conduct.regime false) (attempt (importClass E name))
      (attempt (importClass E' name)) :=
    (alike_importClass hE.run name).attempt
  exact (agree_of_alike himport).bind fun _ => agree_of_alike orderly_settle

theorem agree_play (hE : E.Alike (Stable.discreet o).conduct E') (s : Scenario)
    (adapters : AdapterPolicy) :
    Agree (·.Discreet o []) (s.play E o adapters) (s.play E' o adapters) := by
  have hopen (i : Nat) : Keeps (·.Discreet o []) (s.openOne o adapters) :=
    (keeps_openSession adapters).bind fun _ =>
      agree_forM (fun c => agree_of_alike (orderly_declare c)) s.classes
  have hopenAll : Agree (·.Discreet o []) (s.openAll E o adapters) (s.openAll E' o adapters) := by
    refine (agree_forM hopen _).bind fun _ => (agree_of_alike orderly_settle).bind fun _ =>
      keeps_get.bind fun w => (agree_forM (agree_importAll hE s.imports) _).bind fun _ => ?_
    cases w.sessions.head? with
    | some id => exact keeps_resume id
    | none => exact keeps_pure ()
  exact hopenAll.bind fun _ => agree_mapM (agree_runSessionCommand hE) s.commands

end Scenario

/-! ## What is hidden -/

/-- The object behind a userdata in the machine that made it. -/
def World.seenAs? (w : World) (m : Machine) (u : UserdataRef) : Option HostObject := do
  let cell ← w.userdata.get? u.index
  if cell.home = m.id then
    let ref ← ({ w with machine := m } : World).objectBehind? (.userdata u)
    w.objects.get? ref.index
  else none

/-- No machine has a userdata of its own behind which there is an object of a blacklisted
namespace. -/
def World.HidesBlacklisted (w : World) (o : Options) : Prop :=
  ∀ m ∈ w.machines, ∀ u cell, w.seenAs? m u = some cell →
    o.isBlacklisted cell.cls.namespaceName = false

instance (w : World) (o : Options) : Decidable (w.HidesBlacklisted o) :=
  decidable_of_iff (∀ m ∈ w.machines, ∀ i < w.userdata.next,
      (w.seenAs? m ⟨i⟩).all fun cell => !o.isBlacklisted cell.cls.namespaceName) <| by
    refine forall₂_congr fun m _ => ⟨fun h u cell hseen => ?_, fun h i _ => ?_⟩
    · have hlt : u.index < w.userdata.next := by
        obtain ⟨c, hc, -⟩ := Option.bind_eq_some_iff.mp hseen
        exact Store.lt_next _ hc
      have hall := h u.index hlt
      rw [hseen] at hall
      simpa using hall
    · cases hseen : w.seenAs? m ⟨i⟩ with
      | none => rfl
      | some cell => simpa using h ⟨i⟩ cell hseen

theorem World.Discreet.hides {b : List Pending} (h : w.Discreet o b) : w.HidesBlacklisted o := by
  intro m hm u cell hseen
  unfold World.seenAs? at hseen
  simp only [Option.bind_eq_bind, Option.bind_eq_some_iff] at hseen
  obtain ⟨c, hc, hseen⟩ := hseen
  split at hseen
  · rename_i hhome
    obtain ⟨ref, hbehind, hcell⟩ := Option.bind_eq_some_iff.mp hseen
    unfold World.objectBehind? at hbehind
    simp only [Option.bind_eq_bind, Option.bind_eq_some_iff] at hbehind
    obtain ⟨id, hid, s, hs, hresolve⟩ := hbehind
    obtain ⟨c', hc', hpayload⟩ := World.proxyId?_eq_some.mp hid
    have hsame : c' = c := Option.some.inj ((proxyCell?_eq_some.mp hc').1.symm.trans hc)
    subst hsame
    have hcarried : w.HasPayload b m.id c'.payload := hhome ▸ .userdata hc
    obtain ⟨-, hobject⟩ := h.showable m hm s hs _ hcarried id hpayload
    rw [← h.options m hm s hs]
    exact (hobject ref hresolve).2 cell hcell
  · cases hseen

/-! ## What pushing gives -/

/-- An object of a blacklisted namespace is pushed as its text, and nothing else changes. -/
theorem pushObject_of_blacklisted {s : Session} (hs : w.machine.session = some s) {ref : ObjectRef}
    {cell : HostObject} (hcell : w.objects.get? ref.index = some cell)
    (hlisted : s.options.isBlacklisted cell.cls.namespaceName = true) :
    pushObject ref w = ((), { w with machine := w.machine.push (.text cell.text) }) := by
  have hvalue := objectValue_of_session hs hcell
  rw [hlisted, if_pos rfl] at hvalue
  unfold pushObject
  rw [bind_of_eq hvalue]
  rfl

/-- The array classes of a catalog are in the namespaces of the classes in them. -/
theorem Catalog.arrayClass_namespaceName {c : Catalog} (h : c.IsKeyed) {element : HostType}
    {cls : Class} (he : element.innermost = .named cls.name) :
    (c.arrayClass element).1.namespaceName = cls.namespaceName := by
  rw [← ScriptBridge.arrayClass_namespaceName he]
  unfold Class.namespaceName
  rw [Catalog.arrayClass_name h]
  rfl

/-- Objects of blacklisted namespaces never become references. All the way through a scenario under
any options, whatever its commands and to whatever depth they nest, no machine has a userdata behind
which there is such an object: at no point does another engine take over from the overseen one. The
sessions have the options of the scenario, and their array classes are blacklisted just as the
classes in them. Wherever such an object is pushed its text arrives, and the session, with its
registry of ids, stays as it was. And a namespace is blacklisted exactly when its parts begin with
the parts of an entry. -/
theorem blacklisted_hidden (d : Nat) (s : Scenario) (o : Options) (adapters : AdapterPolicy) :
    (∀ J : Engine, s.play (.overseen (·.HidesBlacklisted o) J d) o adapters (World.start {}) =
        s.play (.ofDepth d) o adapters (World.start {})) ∧
      (s.play (.ofDepth d) o adapters (World.start {})).2.HidesBlacklisted o ∧
      (∀ m ∈ (s.play (.ofDepth d) o adapters (World.start {})).2.machines, ∀ session,
        m.session = some session → session.options = o ∧
          ∀ (element : HostType) (cls : Class), element.innermost = .named cls.name →
            o.isBlacklisted (session.catalog.arrayClass element).1.namespaceName =
              o.isBlacklisted cls.namespaceName) ∧
      (∀ (w : World) (session : Session) (ref : ObjectRef) (cell : HostObject),
        w.machine.session = some session → session.options = o →
        w.objects.get? ref.index = some cell → o.isBlacklisted cell.cls.namespaceName = true →
        pushObject ref w = ((), { w with machine := w.machine.push (.text cell.text) }) ∧
          pushHost (.object ref) w =
            ((), { w with machine := w.machine.push (.text cell.text) })) ∧
      ∀ namespaceName, o.isBlacklisted namespaceName = true ↔
        ∃ entry ∈ o.blacklistedNamespaces, nameParts entry <+: nameParts namespaceName := by
  have hstart : (World.start {}).Discreet o [] := start_discreet {}
  have hplay := Scenario.agree_play (Engine.ofDepth_alike (Stable.discreet o).conduct d) s adapters
  have hafter := (hplay _ hstart).2
  refine ⟨fun J => ?_, hafter.hides, fun m hm session hsession => ?_, ?_, o.isBlacklisted_iff⟩
  · have hwatched : (Engine.overseen (·.HidesBlacklisted o) J d).Alike (Stable.discreet o).conduct
        (.ofDepth d) :=
      Engine.overseen_alike (Stable.passes (P := Stable.discreet o) fun w b h => h.hides) J d
    exact (Scenario.agree_play hwatched s adapters _ hstart).1
  · refine ⟨hafter.options m hm session hsession, fun element cls he => ?_⟩
    rw [Catalog.arrayClass_namespaceName (hafter.keyed m hm session hsession) he]
  · rintro w session ref cell hsession rfl hcell hlisted
    have hpush := pushObject_of_blacklisted hsession hcell hlisted
    exact ⟨hpush, hpush⟩

/-- Options that blacklist one namespace. -/
def Options.guarded : Options := { blacklistedNamespaces := ["demo.secret"] }

/-- A world whose session has an object of this namespace at hand. -/
def World.guarding : World where
  objects := .add {} ⟨{ name := "demo.secret.Key" }, .foreign⟩
  machine := { (default : Machine) with
    session := some { id := 0, options := .guarded, adapters := .build, objects := ⟨0⟩ } }

/-- Declares a class of this namespace and hands an object of it to the machine. -/
def Scenario.guarding : Scenario where
  classes := [.full "demo.secret.Key" {}]
  commands := [.command (.push (.foreign "demo.secret.Key"))]

/-- The key is pushed as its text, a neighbour of its namespace is told apart, and the scenario
hides it. -/
theorem blacklisted_hidden_guarding :
    pushHost (.object ⟨0⟩) World.guarding = ((), { World.guarding with
      machine := World.guarding.machine.push (.text "demo.secret.Key") }) ∧
    Options.guarded.isBlacklisted "demo.secrets" = false ∧
    (Scenario.guarding.play (.overseen (·.HidesBlacklisted .guarded) .exhausted 3) .guarded .build
      (World.start {})).2.HidesBlacklisted .guarded := by
  obtain ⟨hsame, hhides, -, hpush, hiff⟩ :=
    blacklisted_hidden 3 Scenario.guarding .guarded .build
  refine ⟨?_, ?_, ?_⟩
  · exact (hpush World.guarding _ ⟨0⟩ _ rfl rfl rfl (by decide)).2
  · rw [← Bool.not_eq_true, hiff]
    decide
  · rw [hsame]
    exact hhides

end ScriptBridge
