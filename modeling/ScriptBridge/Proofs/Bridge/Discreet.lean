import Mathlib.Data.List.Nodup
import ScriptBridge.Proofs.Course.Step
import ScriptBridge.Proofs.Host.Registry

/-!
# Proxies of what may be seen

A session gives scripts no proxy of an object that its options blacklist. The invariant behind that
is about everything that carries an id: the userdata a machine made, those in its graveyard, and
those that were taken from the graveyard and may come back. None of their ids stands, or will ever
stand, for a blacklisted object.

1. `Showable` says so of a payload. Ids are not given twice and objects keep their classes, so a
   payload stays showable.
2. `Discreet` says so of all machines of a world, the running one and those set aside.
3. `Discreet.step` goes through the kinds of steps. Proxies are made only for objects that may be
   seen, so every step leaves the world discreet.
-/

namespace ScriptBridge

variable {w w' : World} {b b' : List Pending} {s s' : Session} {p : Payload} {o : Options}

/-! ## Payloads -/

namespace World

/-- A payload is no proxy, or it carries an id that was given before and does not stand for a
blacklisted object. -/
def Showable (w : World) (s : Session) (p : Payload) : Prop :=
  ∀ id, p = .proxy id → id ≤ s.registry.lastId ∧
    ∀ o, s.registry.resolve? id = some o → o.index < w.objects.next ∧
      ∀ cell, w.objects.get? o.index = some cell →
        s.options.isBlacklisted cell.cls.namespaceName = false

/-- Objects keep their classes, and new ones get new places. -/
structure KeepsClasses (w w' : World) : Prop where
  next : w.objects.next ≤ w'.objects.next
  cls : ∀ i cell', i < w.objects.next → w'.objects.get? i = some cell' →
    ∃ cell, w.objects.get? i = some cell ∧ cell'.cls = cell.cls

theorem KeepsClasses.of_eq (h : w'.objects = w.objects) : w.KeepsClasses w' := by
  refine ⟨Nat.le_of_eq (by rw [h]), fun i cell' _ hcell => ⟨cell', ?_, rfl⟩⟩
  rw [← h]
  exact hcell

end World

/-- A later session of the same machine: old ids find no other objects. -/
structure Session.Continues (s s' : Session) : Prop where
  options : s'.options = s.options
  keyed : s.catalog.IsKeyed → s'.catalog.IsKeyed
  paired : s.registry.Paired ObjectRef.index → s'.registry.Paired ObjectRef.index
  lastId : s.registry.lastId ≤ s'.registry.lastId
  resolve : ∀ id o, id ≤ s.registry.lastId → s'.registry.resolve? id = some o →
    s.registry.resolve? id = some o

theorem Session.Continues.of_eq (ho : s'.options = s.options)
    (hc : s.catalog.IsKeyed → s'.catalog.IsKeyed) (hr : s'.registry = s.registry) :
    s.Continues s' :=
  ⟨ho, hc, fun h => hr ▸ h, Nat.le_of_eq (by rw [hr]), fun _ _ _ h => hr ▸ h⟩

theorem Session.Continues.refl (s : Session) : s.Continues s := .of_eq rfl (fun h => h) rfl

theorem Session.Continues.of_change (c : Registry.Change) :
    s.Continues { s with registry := c.run ObjectRef.index s.registry } := by
  refine ⟨rfl, fun h => h, fun h => Registry.Change.run_paired h c,
    Registry.Change.lastId_le s.registry c, ?_⟩
  intro id o hid h
  rw [Registry.Change.resolve?_run c hid] at h
  split at h
  · cases h
  · exact h

theorem World.Showable.later (h : w.Showable s p) (hw : w.KeepsClasses w')
    (hs : s.Continues s') : w'.Showable s' p := by
  rintro id rfl
  obtain ⟨hid, hseen⟩ := h id rfl
  refine ⟨Nat.le_trans hid hs.lastId, fun o ho => ?_⟩
  obtain ⟨hlt, hcls⟩ := hseen o (hs.resolve id o hid ho)
  refine ⟨Nat.lt_of_lt_of_le hlt hw.next, fun cell' hcell' => ?_⟩
  obtain ⟨cell, hcell, hsame⟩ := hw.cls _ cell' hlt hcell'
  rw [hs.options, hsame]
  exact hcls cell hcell

/-! ## Machines -/

namespace World

/-- What carries payloads for the machine of an id. -/
inductive HasPayload (w : World) (b : List Pending) : Nat → Payload → Prop
  | userdata {i : Nat} {u : Userdata} (h : w.userdata.get? i = some u) :
      HasPayload w b u.home u.payload
  | buried {m : Machine} {p : Pending} (hm : m ∈ w.machines) (hp : p ∈ m.graveyard) :
      HasPayload w b m.id p.payload
  | taken {p : Pending} (hp : p ∈ b) : HasPayload w b w.machine.id p.payload

/-- In the sessions of some options no machine has a proxy of a blacklisted object, nor can it get
one back. -/
structure Discreet (w : World) (o : Options) (b : List Pending) : Prop where
  nodup : (w.machines.map Machine.id).Nodup
  lt_next : ∀ m ∈ w.machines, m.id < w.tables.next
  home_lt : ∀ id p, w.HasPayload b id p → id < w.tables.next
  options : ∀ m ∈ w.machines, ∀ s, m.session = some s → s.options = o
  keyed : ∀ m ∈ w.machines, ∀ s, m.session = some s → s.catalog.IsKeyed
  paired : ∀ m ∈ w.machines, ∀ s, m.session = some s → s.registry.Paired ObjectRef.index
  showable : ∀ m ∈ w.machines, ∀ s, m.session = some s → ∀ p, w.HasPayload b m.id p →
    w.Showable s p

/-- A machine as it was before a step. -/
structure Precedes (w : World) (b : List Pending) (m m' : Machine) : Prop where
  mem : m ∈ w.machines
  id : m'.id = m.id
  session : ∀ s', m'.session = some s' → ∃ s, m.session = some s ∧ s.Continues s'
  graveyard : ∀ p ∈ m'.graveyard, w.HasPayload b m.id p.payload

/-- A world after a step: its machines are those of the world before, and they carry nothing new
but what may be shown by the running one. -/
structure Advances (w : World) (b : List Pending) (w' : World) (b' : List Pending) : Prop where
  ids : w'.machines.map Machine.id = w.machines.map Machine.id
  machines : ∀ m' ∈ w'.machines, ∃ m, w.Precedes b m m'
  tables : w.tables.next ≤ w'.tables.next
  classes : w.KeepsClasses w'
  userdata : ∀ i u', w'.userdata.get? i = some u' → w.HasPayload b u'.home u'.payload ∨
    u'.home = w.machine.id ∧ ∀ s, w.machine.session = some s → w.Showable s u'.payload
  taken : ∀ p ∈ b', w.HasPayload b w.machine.id p.payload

theorem eq_of_id (h : w.Discreet o b) {m m' : Machine} (hm : m ∈ w.machines) (hm' : m' ∈ w.machines)
    (hid : m.id = m'.id) : m = m' :=
  List.inj_on_of_nodup_map h.nodup hm hm' hid

/-- What the machines carry after a step they carried before, or it may be shown. -/
theorem Advances.payloads (h : w.Advances b w' b') {id : Nat} {p : Payload}
    (hp : w'.HasPayload b' id p) : w.HasPayload b id p ∨
      id = w.machine.id ∧ ∀ s, w.machine.session = some s → w.Showable s p := by
  cases hp with
  | userdata hu => exact h.userdata _ _ hu
  | buried hm hp =>
    obtain ⟨m, hprev⟩ := h.machines _ hm
    rw [hprev.id]
    exact .inl (hprev.graveyard _ hp)
  | taken hp =>
    have hid : w'.machine.id = w.machine.id := (List.cons.inj h.ids).1
    rw [hid]
    exact .inl (h.taken _ hp)

theorem Discreet.advance (h : w.Discreet o b) (ha : w.Advances b w' b') : w'.Discreet o b' := by
  have hlt : ∀ m' ∈ w'.machines, m'.id < w'.tables.next := by
    intro m' hm'
    obtain ⟨m, hprev⟩ := ha.machines m' hm'
    rw [hprev.id]
    exact Nat.lt_of_lt_of_le (h.lt_next m hprev.mem) ha.tables
  refine ⟨ha.ids ▸ h.nodup, hlt, ?_, ?_, ?_, ?_, ?_⟩
  · intro id p hp
    rcases ha.payloads hp with hp | ⟨rfl, -⟩
    · exact Nat.lt_of_lt_of_le (h.home_lt id p hp) ha.tables
    · exact Nat.lt_of_lt_of_le (h.lt_next _ List.mem_cons_self) ha.tables
  · intro m' hm' s' hs'
    obtain ⟨m, hprev⟩ := ha.machines m' hm'
    obtain ⟨s, hs, hcontinues⟩ := hprev.session s' hs'
    exact hcontinues.options.trans (h.options m hprev.mem s hs)
  · intro m' hm' s' hs'
    obtain ⟨m, hprev⟩ := ha.machines m' hm'
    obtain ⟨s, hs, hcontinues⟩ := hprev.session s' hs'
    exact hcontinues.keyed (h.keyed m hprev.mem s hs)
  · intro m' hm' s' hs'
    obtain ⟨m, hprev⟩ := ha.machines m' hm'
    obtain ⟨s, hs, hcontinues⟩ := hprev.session s' hs'
    exact hcontinues.paired (h.paired m hprev.mem s hs)
  · intro m' hm' s' hs' p hp
    obtain ⟨m, hprev⟩ := ha.machines m' hm'
    obtain ⟨s, hs, hcontinues⟩ := hprev.session s' hs'
    rw [hprev.id] at hp
    -- What is new belongs to the running machine, and no other machine has its id.
    have hshowable : w.Showable s p := by
      rcases ha.payloads hp with hp | ⟨hid, hnew⟩
      · exact h.showable m hprev.mem s hs p hp
      · obtain rfl := eq_of_id h hprev.mem List.mem_cons_self hid
        exact hnew s hs
    exact hshowable.later ha.classes hcontinues

/-! ## Kinds of steps -/

theorem Precedes.refl {m : Machine} (hm : m ∈ w.machines) : w.Precedes b m m where
  mem := hm
  id := rfl
  session s' hs' := ⟨s', hs', .refl s'⟩
  graveyard _ hp := .buried hm hp

/-- The running machine after a step of its own. -/
theorem Precedes.running {m' : Machine} {f : Session → Session} (hid : m'.id = w.machine.id)
    (hsession : m'.session = w.machine.session.map f)
    (hf : ∀ s, w.machine.session = some s → s.Continues (f s))
    (hgraveyard : m'.graveyard ⊆ w.machine.graveyard) : w.Precedes b w.machine m' where
  mem := List.mem_cons_self
  id := hid
  session s' hs' := by
    rw [hsession] at hs'
    obtain ⟨s, hs, rfl⟩ := Option.map_eq_some_iff.mp hs'
    exact ⟨s, hs, hf s hs⟩
  graveyard _ hp := .buried List.mem_cons_self (hgraveyard hp)

/-- The running machine after a step that leaves its session and its graveyard alone. -/
theorem Precedes.unchanged {m' : Machine} (hid : m'.id = w.machine.id)
    (hsession : m'.session = w.machine.session) (hgraveyard : m'.graveyard = w.machine.graveyard) :
    w.Precedes b w.machine m' :=
  .running hid (hsession.trans Option.map_id'.symm) (fun s _ => .refl s)
    (fun _ hp => hgraveyard ▸ hp)

namespace Advances

/-- A step of the running machine. -/
theorem of_running (hparked : w'.parked = w.parked) (hm : w.Precedes b w.machine w'.machine)
    (htables : w.tables.next ≤ w'.tables.next) (hclasses : w.KeepsClasses w')
    (huserdata : ∀ i u', w'.userdata.get? i = some u' → w.HasPayload b u'.home u'.payload ∨
      u'.home = w.machine.id ∧ ∀ s, w.machine.session = some s → w.Showable s u'.payload)
    (htaken : ∀ p ∈ b', w.HasPayload b w.machine.id p.payload) : w.Advances b w' b' := by
  have hmachines : w'.machines = w'.machine :: w.parked := by
    rw [World.machines, hparked]
  refine ⟨?_, ?_, htables, hclasses, huserdata, htaken⟩
  · rw [hmachines, List.map_cons, hm.id]
    rfl
  · rw [hmachines]
    intro m' hm'
    rcases List.mem_cons.mp hm' with rfl | hm'
    · exact ⟨w.machine, hm⟩
    · exact ⟨m', .refl (List.mem_cons_of_mem _ hm')⟩

/-- A step that changes no machine and makes no userdata. -/
theorem quiet (hmachine : w'.machine = w.machine) (hparked : w'.parked = w.parked)
    (htables : w.tables.next ≤ w'.tables.next) (hclasses : w.KeepsClasses w')
    (huserdata : ∀ i u', w'.userdata.get? i = some u' → ∃ u, w.userdata.get? i = some u ∧
      u'.home = u.home ∧ u'.payload = u.payload) : w.Advances b w' b := by
  refine of_running hparked ?_ htables hclasses ?_ fun p hp => .taken hp
  · rw [hmachine]
    exact .refl List.mem_cons_self
  · intro i u' hu'
    obtain ⟨u, hu, hhome, hpayload⟩ := huserdata i u' hu'
    rw [hhome, hpayload]
    exact .inl (.userdata hu)

/-- A new userdata. -/
theorem newUserdata {u : Userdata} (hhome : u.home = w.machine.id)
    (hpayload : w.HasPayload b u.home u.payload ∨
      ∀ s, w.machine.session = some s → w.Showable s u.payload) :
    w.Advances b { w with userdata := w.userdata.add u } b := by
  refine of_running rfl (.refl List.mem_cons_self) (Nat.le_refl _) (.of_eq rfl) ?_
    fun p hp => .taken hp
  intro i u' hu'
  rw [Store.get?_add] at hu'
  split at hu'
  · cases hu'
    exact hpayload.imp_right fun h => ⟨hhome, h⟩
  · exact .inl (.userdata hu')

end Advances

/-! ## Emptying a cell -/

theorem classes_erase (i : Nat) : w.KeepsClasses { w with objects := w.objects.erase i } where
  next := Nat.le_of_eq (Store.next_erase _ _).symm
  cls _ cell' _ hcell' := ⟨cell', Store.get?_of_erase _ hcell', rfl⟩

theorem Precedes.queueRelease {m : Machine} (hm : m ∈ w.machines) (session : Nat) (r : Int) :
    w.Precedes b m (m.queueRelease session r) where
  mem := hm
  id := rfl
  session s' hs' := by
    obtain ⟨s, hs, rfl⟩ := Option.map_eq_some_iff.mp hs'
    refine ⟨s, hs, ?_⟩
    split
    · exact .of_eq rfl (fun h => h) rfl
    · exact .refl s
  graveyard _ hp := .buried hm hp

/-- A userdata that is buried was carried by the machine that made it. -/
theorem Precedes.bury {m : Machine} {i : Nat} {u : Userdata} (hm : m ∈ w.machines)
    (hu : w.userdata.get? i = some u) (hhome : m.id = u.home) (metatable : TableRef) :
    w.Precedes b m (m.bury ⟨u.payload, metatable⟩) where
  mem := hm
  id := rfl
  session s' hs' := ⟨s', hs', .refl s'⟩
  graveyard p hp := by
    rcases List.mem_append.mp hp with hp | hp
    · exact .buried hm hp
    · rw [List.mem_singleton.mp hp, hhome]
      exact .userdata hu

theorem mem_modifyMachineOf {id : Nat} {f : Machine → Machine} {m' : Machine}
    (h : m' ∈ (w.modifyMachineOf id f).machines) :
    m' ∈ w.machines ∨ ∃ m ∈ w.machines, m.id = id ∧ m' = f m := by
  unfold modifyMachineOf at h
  split at h
  · rename_i hid
    rcases List.mem_cons.mp h with rfl | h
    · exact .inr ⟨w.machine, List.mem_cons_self, beq_iff_eq.mp hid, rfl⟩
    · exact .inl (List.mem_cons_of_mem _ h)
  · rcases List.mem_cons.mp h with rfl | h
    · exact .inl List.mem_cons_self
    · obtain ⟨m, hm, rfl⟩ := List.mem_map.mp h
      split
      · rename_i hid
        exact .inr ⟨m, List.mem_cons_of_mem _ hm, beq_iff_eq.mp hid, rfl⟩
      · exact .inl (List.mem_cons_of_mem _ hm)

/-- Emptying a cell buries at most a userdata, and queues at most a reference. -/
theorem Advances.empty (w : World) (b : List Pending) (d : Dropped) :
    w.Advances b (w.empty d).1 b := by
  obtain ⟨r, during⟩ := d
  have hquiet {w' : World} (hmachine : w'.machine = w.machine) (hparked : w'.parked = w.parked)
      (htables : w.tables.next ≤ w'.tables.next) (hclasses : w.KeepsClasses w')
      (huserdata : w'.userdata = w.userdata) : w.Advances b w' b := by
    refine .quiet hmachine hparked htables hclasses fun i u' hu' => ⟨u', ?_, rfl, rfl⟩
    rw [← huserdata]
    exact hu'
  cases r with
  | table t =>
    exact hquiet rfl rfl (Nat.le_of_eq (Store.next_erase _ _).symm) (.of_eq rfl) rfl
  | object o => exact hquiet rfl rfl (Nat.le_refl _) (classes_erase _) rfl
  | userdata u =>
    unfold World.empty
    dsimp only
    cases hu : w.userdata.get? u.index with
    | none => exact hquiet rfl rfl (Nat.le_refl _) (.of_eq rfl) rfl
    | some cell =>
      let w₁ := { w with userdata := w.userdata.erase u.index }
      have herased (i : Nat) (u' : Userdata) (hu' : w₁.userdata.get? i = some u') :
          w.HasPayload b u'.home u'.payload :=
        .userdata (Store.get?_of_erase _ hu')
      dsimp only
      cases w₁.finalizerTable? cell during with
      | none =>
        exact .of_running rfl (.refl List.mem_cons_self) (Nat.le_refl _) (.of_eq rfl)
          (fun i u' hu' => .inl (herased i u' hu')) fun p hp => .taken hp
      | some mt =>
        have hrest : (w₁.modifyMachineOf cell.home (·.bury ⟨cell.payload, mt⟩)).tables = w.tables ∧
            (w₁.modifyMachineOf cell.home (·.bury ⟨cell.payload, mt⟩)).objects = w.objects ∧
            (w₁.modifyMachineOf cell.home (·.bury ⟨cell.payload, mt⟩)).userdata =
              w₁.userdata := by
          unfold modifyMachineOf
          split <;> exact ⟨rfl, rfl, rfl⟩
        obtain ⟨htables, hobjects, huserdata⟩ := hrest
        refine ⟨w₁.map_modifyMachineOf _ fun _ => rfl, fun m' hm' => ?_,
          Nat.le_of_eq (congrArg Store.next htables.symm), .of_eq hobjects, fun i u' hu' => ?_,
          fun p hp => .taken hp⟩
        · rcases mem_modifyMachineOf hm' with hm' | ⟨m, hm, hid, rfl⟩
          · exact ⟨m', .refl hm'⟩
          · have hm : m ∈ w.machines := hm
            exact ⟨m, .bury hm hu hid mt⟩
        · rw [huserdata] at hu'
          exact .inl (herased i u' hu')
  | handle h =>
    cases hcell : w.handles.get? h.index with
    | none =>
      rw [empty_handle_none during hcell]
      exact hquiet rfl rfl (Nat.le_refl _) (.of_eq rfl) rfl
    | some cell =>
      rw [empty_handle_some during hcell]
      refine ⟨?_, fun m' hm' => ?_, Nat.le_refl _, .of_eq rfl,
        fun i u' hu' => .inl (.userdata hu'), fun p hp => .taken hp⟩
      · simp only [World.machines, List.map_cons, List.map_map]
        rfl
      · have hm' : m' ∈ w.machines.map (·.queueRelease cell.session cell.reference) := hm'
        obtain ⟨m, hm, rfl⟩ := List.mem_map.mp hm'
        exact ⟨m, .queueRelease hm _ _⟩
  | _ => exact hquiet rfl rfl (Nat.le_refl _) (.of_eq rfl) rfl

/-! ## Steps -/

/-- A proxy of an object that is not blacklisted may be shown. -/
theorem Discreet.showable_of_idOf? (h : w.Discreet o b) (hs : w.machine.session = some s) {id : Nat}
    {ref : ObjectRef} {cell : HostObject} (hid : s.registry.idOf? ObjectRef.index ref = some id)
    (hcell : w.objects.get? ref.index = some cell)
    (hseen : s.options.isBlacklisted cell.cls.namespaceName = false) :
    w.Showable s (.proxy id) := by
  have hpaired := h.paired _ List.mem_cons_self s hs
  obtain ⟨found, hresolve, hindex⟩ := hpaired.get?_ids_iff.mp hid
  rintro _ ⟨⟩
  refine ⟨hpaired.resolve?_le hresolve, fun found' hfound' => ?_⟩
  -- Ids are looked up by the place of an object, so the one found is in the same place.
  obtain rfl : found = found' := Option.some.inj (hresolve.symm.trans hfound')
  rw [hindex, hcell]
  refine ⟨Store.lt_next _ hcell, ?_⟩
  rintro _ ⟨⟩
  exact hseen

/-- The running session changes, and continues the one before. -/
theorem Discreet.withSession (h : w.Discreet o b) {f : Session → Session}
    (hf : ∀ s, w.machine.session = some s → s.Continues (f s)) :
    { w with machine := { w.machine with session := w.machine.session.map f } }.Discreet o b :=
  h.advance (.of_running rfl (.running rfl rfl hf (List.Subset.refl _)) (Nat.le_refl _) (.of_eq rfl)
    (fun _ _ hu => .inl (.userdata hu)) fun _ hp => .taken hp)

theorem Discreet.learned (h : w.Discreet o b) (key : String × Binding × String)
    (found : FoundMember) : (w.learned key found).Discreet o b :=
  h.withSession fun _ _ => .of_eq rfl (fun hk => hk) rfl

theorem Discreet.step (h : w.Discreet o b) (hstep : w.Step b w' b') : w'.Discreet o b' := by
  have hbooks {w' : World} (hmachine : w'.machine = w.machine) (hparked : w'.parked = w.parked)
      (htables : w.tables.next ≤ w'.tables.next) (hclasses : w.KeepsClasses w')
      (huserdata : w'.userdata = w.userdata) : w'.Discreet o b := by
    refine h.advance (.quiet hmachine hparked htables hclasses fun i u' hu' => ⟨u', ?_, rfl, rfl⟩)
    rw [← huserdata]
    exact hu'
  have hsame (i : Nat) (u' : Userdata) (hu' : w.userdata.get? i = some u') :
      w.HasPayload b u'.home u'.payload ∨
        u'.home = w.machine.id ∧ ∀ s, w.machine.session = some s → w.Showable s u'.payload :=
    .inl (.userdata hu')
  cases hstep with
  | machine nextRef appData =>
    refine h.advance (.of_running rfl ?_ (Nat.le_refl _) (.of_eq rfl) hsame fun p hp => .taken hp)
    exact .unchanged rfl rfl rfl
  | session f hf =>
    exact h.withSession fun s hs =>
      .of_eq (hf s hs).options (hf s hs).catalog (hf s hs).registry
  | registry r hr =>
    refine h.withSession fun s hs => ?_
    rcases hr s hs with ⟨o, rfl⟩ | ⟨id, rfl⟩
    · exact .of_change (.expose o)
    · exact .of_change (.revoke id)
  | newTable t =>
    exact hbooks rfl rfl (Nat.le_trans (Nat.le_succ _) (Nat.le_of_eq (Store.next_add _ _).symm))
      (.of_eq rfl) rfl
  | setTable t table =>
    exact hbooks rfl rfl (Nat.le_of_eq (Store.next_modify _ _ _).symm) (.of_eq rfl) rfl
  | newUserdata payload metatable hpayload =>
    exact h.advance (.newUserdata rfl (.inr fun s _ id hid => absurd hid (hpayload id)))
  | newProxy id metatable hseen =>
    refine h.advance (.newUserdata rfl (.inr fun s hs => ?_))
    obtain ⟨o, cell, hid, hcell, hseen⟩ := hseen s hs
    exact h.showable_of_idOf? hs hid hcell hseen
  | revive p hp => exact h.advance (.newUserdata rfl (.inl (.taken hp)))
  | setMetatable u metatable =>
    refine h.advance (.quiet rfl rfl (Nat.le_refl _) (.of_eq rfl) fun i u' hu' => ?_)
    replace hu' : (w.userdata.modify u.index ({ · with metatable })).get? i = some u' := hu'
    rw [Store.get?_modify] at hu'
    split at hu'
    · obtain ⟨u₀, hu₀, rfl⟩ := Option.map_eq_some_iff.mp hu'
      exact ⟨u₀, hu₀, rfl, rfl⟩
    · exact ⟨u', hu', rfl, rfl⟩
  | newObject cls data =>
    refine hbooks rfl rfl (Nat.le_refl _) ⟨?_, fun i cell' hlt hcell' => ⟨cell', ?_, rfl⟩⟩ rfl
    · exact Nat.le_trans (Nat.le_succ _) (Nat.le_of_eq (Store.next_add _ _).symm)
    · rw [← Store.get?_add_of_lt _ _ hlt]
      exact hcell'
  | setObject o data =>
    refine hbooks rfl rfl (Nat.le_refl _) ⟨?_, fun i cell' _ hcell' => ?_⟩ rfl
    · exact Nat.le_of_eq (Store.next_modify _ _ _).symm
    · replace hcell' : (w.objects.modify o.index ({ · with data })).get? i = some cell' := hcell'
      rw [Store.get?_modify] at hcell'
      split at hcell'
      · obtain ⟨cell, hcell, rfl⟩ := Option.map_eq_some_iff.mp hcell'
        exact ⟨cell, hcell, rfl⟩
      · exact ⟨cell', hcell', rfl⟩
  | takeGraveyard =>
    refine h.advance (.of_running rfl ?_ (Nat.le_refl _) (.of_eq rfl) hsame fun p hp => ?_)
    · exact .running rfl Option.map_id'.symm (fun s _ => .refl s)
        (List.nil_subset _)
    · rcases List.mem_append.mp hp with hp | hp
      · exact .taken hp
      · exact .buried List.mem_cons_self hp
  | reclaim d rest =>
    have hnoted (w : World) (dropped : List Dropped) (hw : w.Discreet o b) :
        { w with dropped }.Discreet o b :=
      hw.advance (.quiet rfl rfl (Nat.le_refl _) (.of_eq rfl) fun _ u' hu' => ⟨u', hu', rfl, rfl⟩)
    exact hnoted _ _ ((hnoted w rest h).advance (.empty _ b d))
  | _ => exact hbooks rfl rfl (Nat.le_refl _) (.of_eq rfl) rfl

end World

end ScriptBridge
