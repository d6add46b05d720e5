import ScriptBridge.Proofs.Bridge.Roster
import ScriptBridge.Proofs.Memory.Userdata

/-!
# Proxies in the heap

The roster of a world, and what of the world it rests on: the metatables of proxies are where the
session put them, each with its finalizer, and the table of proxies is weak (`World.Fitted`). The
registry table holds the metatables and these hold the finalizers, so reclaiming memory leaves them.

`World.Proxied` is the invariant. A world that touches neither proxies nor what the session set up
has it again (`SameProxies`), and so has the world after memory was reclaimed: a proxy that dies is
buried under its metatable, because that has a finalizer. Other userdata may come and go as long as
they have no finalizers.
-/

namespace ScriptBridge

/-! ## The roster of a world -/

/-- What of a session concerns its proxies. -/
def Session.core (s : Session) : Options × Registry × TableRef × List Nat :=
  (s.options, s.registry, s.objects, s.materialized)

/-- An entry that points weakly to a userdata, under an integer. -/
def Entry.IsPlace (e : Entry) : Prop :=
  (∃ n x, e.key = .integer n ∧ e.written = .number x) ∧ ∃ u, e.slot = .weak (.userdata u)

/-- A weak table with such entries only, none of them double. -/
structure Table.KeepsPlaces (t : Table) : Prop where
  weak : t.weakValues = true
  distinct : (t.entries.map Entry.key).Nodup
  places : ∀ e ∈ t.entries, e.IsPlace

/-- No value is held by a table of proxies. -/
theorem Table.KeepsPlaces.userdata_not_mem {t : Table} (h : t.KeepsPlaces) (u : UserdataRef) :
    Ref.userdata u ∉ t.refs := by
  intro hu
  obtain hu | hu := List.mem_append.mp hu
  · obtain ⟨e, he, hu⟩ := List.mem_flatMap.mp hu
    obtain ⟨⟨n, x, -, hwritten⟩, u', hslot⟩ := h.places e he
    unfold Entry.refs at hu
    rw [hwritten, hslot] at hu
    exact absurd hu List.not_mem_nil
  · obtain ⟨mt, -, he⟩ := Option.map_eq_some_iff.mp (Option.mem_toList.mp hu)
    cases he

theorem Table.KeepsPlaces.find?_text {t : Table} (h : t.KeepsPlaces) (name : String) :
    t.find? (.text name) = none := by
  refine List.find?_eq_none.mpr fun e he hkey => ?_
  obtain ⟨⟨n, x, hn, -⟩, -⟩ := h.places e he
  have hkey : e.key = .text name := beq_iff_eq.mp hkey
  rw [hn] at hkey
  cases hkey

/-- The userdata that a table points to for an id. -/
def Table.place? (t : Table) (id : Nat) : Option UserdataRef :=
  match (t.find? (.integer id)).map Entry.slot with
  | some (.weak (.userdata u)) => some u
  | _ => none

def Payload.isProxy : Payload → Bool
  | .proxy _ => true
  | _ => false

/-- How far a collection is: what was taken from the queue and waits for its finalizer all the
same, and the id of the userdata that came back for the one that runs. -/
structure Progress where
  batch : List Pending := []
  late : Option Nat := none

namespace World

/-- The userdata at an index, if it carries an id. -/
def proxyCell? (w : World) (i : Nat) : Option Userdata :=
  (w.userdata.get? i).filter (·.payload.isProxy)

/-- The roster of the running session. -/
def roster (w : World) (g : Progress) : Roster :=
  let s := w.machine.session.getD default
  { registry := s.registry
    materialized := s.materialized
    place := (w.table s.objects).place?
    cell := w.proxyCell?
    next := w.userdata.next
    pending := g.batch ++ w.machine.graveyard
    late := g.late }

/-- A metatable of proxies, by its name in the registry table. -/
def IsMetatable (w : World) (t : TableRef) : Prop :=
  ∃ name ∈ proxyTableNames, w.fieldOf w.machine.registry name = .table t

/-- Userdata without an id have no finalizers. -/
def Quiet (w : World) : Prop :=
  ∀ i c, w.userdata.get? i = some c → c.payload.isProxy = false → c.finalized = false →
    ∀ t, c.metatable = some t → (w.table t).find? (.text "__gc") = none

/-- What the session set up is where it was put. -/
structure Fitted (w : World) (F : Fixture) : Prop where
  attached : w.machine.appData = .session
  session : ∃ s, w.machine.session = some s
  home : w.machine.id = F.home
  numbers : 0 < w.machine.nextRef
  registry : ∃ t, w.tables.get? w.machine.registry.index = some t ∧ ∀ name ∈ proxyTableNames,
    ∃ e, t.find? (.text name) = some e ∧ e.slot = .strong (.table (F.metatable name))
  metatables : ∀ name ∈ proxyTableNames, ∃ t, w.tables.get? (F.metatable name).index = some t ∧
    ∃ e, t.find? (.text "__gc") = some e ∧ e.slot = .strong (.function (F.finalizer name))
  finalizers : ∀ name ∈ proxyTableNames, ∃ label,
    w.functions.get? (F.finalizer name).index = some ⟨label, .handler .proxyCollected⟩
  proxies : ∀ s, w.machine.session = some s →
    ∃ t, w.tables.get? s.objects.index = some t ∧ t.KeepsPlaces

/-- The invariant of proxies. If every finalizer had room to run, no proxy was lost. -/
structure Proxied (w : World) (F : Fixture) (g : Progress) (made : List Proxy)
    (room : Bool) : Prop where
  fitted : w.Fitted F
  kept : (w.roster g).Kept F made
  complete : room = true → (w.roster g).Complete made
  visible : ∀ s, w.machine.session = some s → ∀ p ∈ made, ∀ o,
    s.registry.resolve? p.id = some o → ∃ cell, w.objects.get? o.index = some cell ∧
      s.options.isBlacklisted cell.cls.namespaceName = false
  notes : ∀ d ∈ w.dropped, ∀ t, F.Serves t → d.during ≠ some t
  quiet : w.Quiet
  unmade : ∀ u : UserdataRef, w.userdata.next ≤ u.index → ¬ w.HoldsUserdata u
  own : ∀ p ∈ made, w.userdata.contains p.userdata.index = true →
    ∃ c, w.proxyCell? p.userdata.index = some c

theorem proxyCell?_eq_some {w : World} {i : Nat} {c : Userdata} :
    w.proxyCell? i = some c ↔ w.userdata.get? i = some c ∧ c.payload.isProxy = true :=
  Option.filter_eq_some_iff

theorem fieldOf_of_none {w : World} {t : TableRef} {name : String}
    (h : (w.table t).find? (.text name) = none) : w.fieldOf t name = .nil := by
  unfold fieldOf Table.getText Table.getKey
  rw [h]

theorem Quiet.of_fewer {w w' : World} (h : w.Quiet)
    (htables : ∀ i t, w'.tables.get? i = some t → w.tables.get? i = some t)
    (huserdata : ∀ i u, w'.userdata.get? i = some u → w.userdata.get? i = some u) : w'.Quiet := by
  intro i c hc hid hlive t ht
  have hnone := h i c (huserdata i c hc) hid hlive t ht
  unfold World.table at hnone ⊢
  cases htable : w'.tables.get? t.index with
  | none => rfl
  | some table => rwa [htables _ _ htable] at hnone

/-- A userdata without an id is not buried. -/
theorem Quiet.finalizerTable? {w : World} (h : w.Quiet) {i : Nat} {c : Userdata}
    (hc : w.userdata.get? i = some c) (hid : c.payload.isProxy = false)
    (during : Option TableRef) {w' : World} (htables : w'.tables = w.tables) :
    w'.finalizerTable? c during = none := by
  unfold World.finalizerTable?
  cases ht : c.metatable with
  | none => rfl
  | some t =>
    dsimp only
    cases hfinalized : c.finalized with
    | true => rfl
    | false =>
      have hnone : (w'.table t).find? (.text "__gc") = none := by
        unfold World.table
        rw [htables]
        exact h i c hc hid hfinalized t ht
      rw [fieldOf_of_none hnone]
      cases during != some t <;> rfl

/-! ## What the session set up -/

/-- The machine holds the table of proxies. -/
theorem holds_proxies {w : World} {s : Session} (hs : w.machine.session = some s) :
    w.holds (.table s.objects) = true := by
  have hmem : Ref.table s.objects ∈ w.machine.refs := by
    unfold Machine.refs Session.refs
    rw [hs]
    simp only [Option.map_some, Option.getD_some, List.mem_append, List.mem_cons, true_or, or_true]
  unfold holds Machine.holds
  rw [List.contains_iff_mem.mpr hmem, Bool.or_true, Bool.true_or, Bool.true_or, Bool.true_or]

namespace Fitted

variable {w : World} {F : Fixture} (h : w.Fitted F)

include h

theorem fieldOf_registry {name : String} (hname : name ∈ proxyTableNames) :
    w.fieldOf w.machine.registry name = .table (F.metatable name) := by
  obtain ⟨t, ht, hentries⟩ := h.registry
  obtain ⟨e, he, hslot⟩ := hentries name hname
  exact fieldOf_of_find? ht he hslot

theorem serves_iff {t : TableRef} : F.Serves t ↔ w.IsMetatable t := by
  constructor
  · rintro ⟨name, hname, rfl⟩
    exact ⟨name, hname, h.fieldOf_registry hname⟩
  · rintro ⟨name, hname, ht⟩
    rw [h.fieldOf_registry hname] at ht
    exact ⟨name, hname, Value.table.inj ht⟩

/-- Every metatable of proxies has the finalizer. -/
theorem fieldOf_gc {t : TableRef} (ht : F.Serves t) :
    ∃ f label, w.fieldOf t "__gc" = .function f ∧
      w.functions.get? f.index = some ⟨label, .handler .proxyCollected⟩ := by
  obtain ⟨name, hname, rfl⟩ := ht
  obtain ⟨table, htable, e, he, hslot⟩ := h.metatables name hname
  obtain ⟨label, hlabel⟩ := h.finalizers name hname
  exact ⟨F.finalizer name, label, fieldOf_of_find? htable he hslot, hlabel⟩

theorem holds_metatable {name : String} (hname : name ∈ proxyTableNames) :
    w.holds (.table (F.metatable name)) = true := by
  obtain ⟨t, ht, hentries⟩ := h.registry
  obtain ⟨e, he, hslot⟩ := hentries name hname
  exact holds_of_cell (mem_cellRefs_of_find? ht he hslot (List.mem_singleton.mpr rfl))

theorem holds_finalizer {name : String} (hname : name ∈ proxyTableNames) :
    w.holds (.function (F.finalizer name)) = true := by
  obtain ⟨t, ht, e, he, hslot⟩ := h.metatables name hname
  exact holds_of_cell (mem_cellRefs_of_find? ht he hslot (List.mem_singleton.mpr rfl))

/-- A step that changes neither tables nor functions, and of the machine neither its place nor its
session. -/
theorem of_same {w' : World} (htables : w'.tables = w.tables)
    (hfunctions : w'.functions = w.functions) (hid : w'.machine.id = w.machine.id)
    (hregistry : w'.machine.registry = w.machine.registry)
    (happData : w'.machine.appData = w.machine.appData)
    (hnextRef : w'.machine.nextRef = w.machine.nextRef)
    (hsession : w'.machine.session = w.machine.session) : w'.Fitted F where
  attached := happData.trans h.attached
  session := by
    rw [hsession]
    exact h.session
  home := hid.trans h.home
  numbers := hnextRef ▸ h.numbers
  registry := by
    rw [htables, hregistry]
    exact h.registry
  metatables := by
    rw [htables]
    exact h.metatables
  finalizers := by
    rw [hfunctions]
    exact h.finalizers
  proxies := by
    rw [htables, hsession]
    exact h.proxies

theorem registryTable?_eq {name : String} (hname : name ∈ proxyTableNames) :
    registryTable? name w = (some (F.metatable name), w) := by
  unfold registryTable?
  rw [bind_of_eq (get_eq w), h.fieldOf_registry hname]
  rfl

end Fitted

/-! ## Worlds with the same proxies -/

/-- A step that touches neither proxies nor what the session set up for them. Values may come and
go everywhere else, also userdata without finalizers, and references may be let go of anywhere but
in a write into one of the metatables. -/
structure SameProxies (w w' : World) : Prop where
  id : w'.machine.id = w.machine.id
  registry : w'.machine.registry = w.machine.registry
  appData : w'.machine.appData = w.machine.appData
  nextRef : w.machine.nextRef ≤ w'.machine.nextRef
  graveyard : w'.machine.graveyard = w.machine.graveyard
  session : w'.machine.session.map Session.core = w.machine.session.map Session.core
  next : w.userdata.next ≤ w'.userdata.next
  cells : w'.proxyCell? = w.proxyCell?
  stay : ∀ i < w.userdata.next, w'.userdata.contains i = true → w.userdata.contains i = true
  quiet : w.Quiet → w'.Quiet
  unmade : ∀ u : UserdataRef, w'.userdata.next ≤ u.index → w'.HoldsUserdata u → w.HoldsUserdata u
  names : ∀ t, w.tables.get? w.machine.registry.index = some t →
    ∃ t', w'.tables.get? w.machine.registry.index = some t' ∧
      ∀ name ∈ proxyTableNames, t'.find? (.text name) = t.find? (.text name)
  metatables : ∀ t, w.IsMetatable t → w'.tables.get? t.index = w.tables.get? t.index
  finalizers : ∀ t f, w.IsMetatable t → w.fieldOf t "__gc" = .function f →
    w'.functions.get? f.index = w.functions.get? f.index
  proxies : ∀ s, w.machine.session = some s →
    w'.tables.get? s.objects.index = w.tables.get? s.objects.index
  exposed : ∀ o, w.Exposes o → w'.objects.get? o.index = w.objects.get? o.index
  notes : ∀ d ∈ w'.dropped, d ∈ w.dropped ∨ ∀ t, w.IsMetatable t → d.during ≠ some t

namespace SameProxies

variable {w w' : World}

/-- The session of a world with the same proxies. -/
theorem exists_session (h : w.SameProxies w') {s' : Session} (hs' : w'.machine.session = some s') :
    ∃ s, w.machine.session = some s ∧ s'.core = s.core := by
  have hcore := h.session
  rw [hs', Option.map_some] at hcore
  obtain ⟨s, hs, he⟩ := Option.map_eq_some_iff.mp hcore.symm
  exact ⟨s, hs, he.symm⟩

theorem fitted (h : w.SameProxies w') {F : Fixture} (hw : w.Fitted F) : w'.Fitted F where
  attached := h.appData.trans hw.attached
  session := by
    obtain ⟨s, hs⟩ := hw.session
    have hcore := h.session
    rw [hs, Option.map_some] at hcore
    obtain ⟨s', hs', -⟩ := Option.map_eq_some_iff.mp hcore
    exact ⟨s', hs'⟩
  home := h.id.trans hw.home
  numbers := Int.lt_of_lt_of_le hw.numbers h.nextRef
  registry := by
    obtain ⟨t, ht, hentries⟩ := hw.registry
    obtain ⟨t', ht', hsame⟩ := h.names t ht
    rw [h.registry]
    refine ⟨t', ht', fun name hname => ?_⟩
    rw [hsame name hname]
    exact hentries name hname
  metatables name hname := by
    rw [h.metatables _ (hw.serves_iff.mp ⟨name, hname, rfl⟩)]
    exact hw.metatables name hname
  finalizers name hname := by
    obtain ⟨t, ht, e, he, hslot⟩ := hw.metatables name hname
    rw [h.finalizers _ _ (hw.serves_iff.mp ⟨name, hname, rfl⟩) (fieldOf_of_find? ht he hslot)]
    exact hw.finalizers name hname
  proxies s' hs' := by
    obtain ⟨s, hs, hcore⟩ := h.exists_session hs'
    have hobjects : s'.objects = s.objects := congrArg (·.2.2.1) hcore
    rw [hobjects, h.proxies s hs]
    exact hw.proxies s hs

theorem roster_eq (h : w.SameProxies w') (hw : ∃ s, w.machine.session = some s) (g : Progress) :
    w'.roster g = { w.roster g with next := w'.userdata.next } := by
  obtain ⟨s, hs⟩ := hw
  have hcore := h.session
  rw [hs, Option.map_some] at hcore
  obtain ⟨s', hs', hcore⟩ := Option.map_eq_some_iff.mp hcore
  have hregistry : s'.registry = s.registry := congrArg (·.2.1) hcore
  have hobjects : s'.objects = s.objects := congrArg (·.2.2.1) hcore
  have hmaterialized : s'.materialized = s.materialized := congrArg (·.2.2.2) hcore
  have htable : w'.table s.objects = w.table s.objects := by
    unfold World.table
    rw [h.proxies s hs]
  unfold roster
  dsimp only
  rw [hs, hs', Option.getD_some, Option.getD_some, hregistry, hobjects, hmaterialized, htable,
    h.cells, h.graveyard]

theorem proxied (h : w.SameProxies w') {F : Fixture} {g : Progress} {made : List Proxy}
    {room : Bool} (hw : w.Proxied F g made room) : w'.Proxied F g made room where
  fitted := h.fitted hw.fitted
  kept := by
    rw [h.roster_eq hw.fitted.session]
    exact hw.kept.grow h.next
  complete := by
    rw [h.roster_eq hw.fitted.session]
    exact hw.complete
  visible s' hs' p hp o ho := by
    obtain ⟨s, hs, hcore⟩ := h.exists_session hs'
    have hregistry : s'.registry = s.registry := congrArg (·.2.1) hcore
    have hoptions : s'.options = s.options := congrArg (·.1) hcore
    rw [hregistry] at ho
    rw [h.exposed o ⟨s, p.id, hs, ho⟩, hoptions]
    exact hw.visible s hs p hp o ho
  notes d hd t ht := by
    obtain hd | hd := h.notes d hd
    · exact hw.notes d hd t ht
    · exact hd t (hw.fitted.serves_iff.mp ht)
  quiet := h.quiet hw.quiet
  unmade u hu hheld := hw.unmade u (Nat.le_trans h.next hu) (h.unmade u hu hheld)
  own p hp hcontains := by
    rw [h.cells]
    exact hw.own p hp (h.stay _ (hw.kept.begun p hp) hcontains)

/-- A step inside the machine's stack and the host's hands. -/
theorem of_machine {w : World} (m : Machine) (held : List Ref) (dropped : List Dropped)
    (hid : m.id = w.machine.id) (hregistry : m.registry = w.machine.registry)
    (happData : m.appData = w.machine.appData) (hnextRef : m.nextRef = w.machine.nextRef)
    (hgraveyard : m.graveyard = w.machine.graveyard)
    (hsession : m.session = w.machine.session)
    (hstack : ∀ u, Value.userdata u ∈ m.stack → w.userdata.next ≤ u.index → w.HoldsUserdata u)
    (hheld : ∀ u, Ref.userdata u ∈ held → w.userdata.next ≤ u.index → w.HoldsUserdata u)
    (hnotes : ∀ d ∈ dropped, d ∈ w.dropped ∨ ∀ t, w.IsMetatable t → d.during ≠ some t) :
    w.SameProxies { w with machine := m, held, dropped } where
  id := hid
  registry := hregistry
  appData := happData
  nextRef := Int.le_of_eq hnextRef.symm
  graveyard := hgraveyard
  session := congrArg _ hsession
  next := Nat.le_refl _
  cells := rfl
  stay _ _ h := h
  quiet h := h
  unmade u hu h := by
    obtain ⟨m', hm', hmem⟩ | hk | hh | ht := h
    · obtain rfl | hm' := List.mem_cons.mp hm'
      · exact hstack u hmem hu
      · exact .inl ⟨m', List.mem_cons_of_mem _ hm', hmem⟩
    · exact .inr (.inl hk)
    · exact hheld u hh hu
    · exact .inr (.inr (.inr ht))
  names t ht := ⟨t, ht, fun _ _ => rfl⟩
  metatables _ _ := rfl
  finalizers _ _ _ _ := rfl
  proxies _ _ := rfl
  exposed _ _ := rfl
  notes := hnotes

end SameProxies

/-! ## Reclaiming memory -/

section

variable {w : World} {F : Fixture} {g : Progress} {made : List Proxy} {room : Bool}
variable {d : Dropped} {rest : List Dropped}

/-- Emptying a cell that is no userdata's leaves all userdata and the machine's part in proxies. -/
theorem empty_core (w : World) {d : Dropped} (hd : ∀ u, d.ref ≠ .userdata u) :
    (w.empty d).1.userdata = w.userdata ∧ (w.empty d).1.machine.id = w.machine.id ∧
      (w.empty d).1.machine.appData = w.machine.appData ∧
      (w.empty d).1.machine.graveyard = w.machine.graveyard ∧
      (w.empty d).1.machine.session.map Session.core = w.machine.session.map Session.core := by
  obtain ⟨r, during⟩ := d
  cases r with
  | userdata u => exact absurd rfl (hd u)
  | handle h =>
    cases hcell : w.handles.get? h.index with
    | none =>
      rw [empty_handle_none during hcell]
      exact ⟨rfl, rfl, rfl, rfl, rfl⟩
    | some cell =>
      rw [empty_handle_some during hcell]
      refine ⟨rfl, rfl, rfl, rfl, ?_⟩
      show (w.machine.session.map _).map Session.core = _
      rw [Option.map_map]
      congr 1
      funext s
      show (if s.id == cell.session then _ else s : Session).core = s.core
      split <;> rfl
  | _ => exact ⟨rfl, rfl, rfl, rfl, rfl⟩

namespace Proxied

/-- A note that is passed over. -/
theorem kept_note (h : w.Proxied F g made room) (hdropped : w.dropped = d :: rest) :
    { w with dropped := rest }.Proxied F g made room :=
  (SameProxies.of_machine w.machine w.held rest rfl rfl rfl rfl rfl rfl
    (fun _ hu _ => .inl ⟨_, List.mem_cons_self, hu⟩) (fun _ hu _ => .inr (.inr (.inl hu)))
    fun _ hd' => .inl (hdropped ▸ List.mem_cons_of_mem d hd')).proxied h

theorem sameProxies_reclaimed (h : w.Proxied F g made room) (hdropped : w.dropped = d :: rest)
    (hd : ∀ u, d.ref ≠ .userdata u) (hfree : w.holds d.ref = false) :
    w.SameProxies (w.reclaimed d rest) := by
  let w₁ : World := { w with dropped := rest }
  obtain ⟨huserdata, hid, happData, hgraveyard, hsession⟩ := w₁.empty_core hd
  have hspares := empty_spares w₁ d
  have hnot {r : Ref} (hr : w.holds r = true) : d.ref ≠ r := by
    rintro rfl
    rw [hr] at hfree
    cases hfree
  have hserves {t : TableRef} (ht : w.IsMetatable t) :
      ∃ name ∈ proxyTableNames, F.metatable name = t :=
    h.fitted.serves_iff.mpr ht
  exact {
    id := hid
    registry := hspares.registry
    appData := happData
    nextRef := Int.le_of_eq hspares.nextRef.symm
    graveyard := hgraveyard
    session := hsession
    next := Nat.le_of_eq (congrArg Store.next huserdata.symm)
    cells := by
      funext i
      show ((w₁.empty d).1.userdata.get? i).filter _ = (w.userdata.get? i).filter _
      rw [huserdata]
    stay := fun i _ hi => by rwa [reclaimed, huserdata] at hi
    quiet := fun hquiet => by
      obtain ⟨htables, -, hcells, -⟩ := w₁.empty_shrinks d
      exact hquiet.of_fewer htables hcells
    unmade := fun _ _ hheld => hheld.of_reclaimed
    names := fun t ht =>
      ⟨t, (hspares.tables _ (hnot w.holds_registry)).trans ht, fun _ _ => rfl⟩
    metatables := fun t ht => by
      obtain ⟨name, hname, rfl⟩ := hserves ht
      exact hspares.tables _ (hnot (h.fitted.holds_metatable hname))
    finalizers := fun t f ht hf => by
      obtain ⟨name, hname, rfl⟩ := hserves ht
      obtain ⟨table, htable, e, he, hslot⟩ := h.fitted.metatables name hname
      rw [fieldOf_of_find? htable he hslot] at hf
      rw [← Value.function.inj hf]
      exact hspares.functions _ (hnot (h.fitted.holds_finalizer hname))
    proxies := fun s hs => hspares.tables _ (hnot (holds_proxies hs))
    exposed := fun o ho =>
      (empty_emptied w₁ d).objects o fun he => hnot (holds_of_exposes ho) he.symm
    notes := fun d' hd' => by
      obtain hd' | hd' := List.mem_append.mp hd'
      · obtain ⟨r, -, rfl⟩ := List.mem_map.mp hd'
        exact .inr fun t ht =>
          h.notes d (hdropped ▸ List.mem_cons_self) t (h.fitted.serves_iff.mpr ht)
      · exact .inl (hdropped ▸ List.mem_cons_of_mem d hd') }

/-- A userdata is buried under its metatable unless its finalizer was scheduled before. -/
theorem finalizerTable?_eq (h : w.Proxied F g made room) (hd : d ∈ w.dropped) {c : Userdata}
    {t : TableRef} (ht : c.metatable = some t) (hserves : F.Serves t) (hhome : c.home = F.home)
    (w₁ : World) (htables : w₁.tables = w.tables) (hmachine : w₁.machine = w.machine) :
    w₁.finalizerTable? c d.during = if c.finalized then none else some t := by
  obtain ⟨f, label, hf, -⟩ := h.fitted.fieldOf_gc hserves
  have hfield : w₁.fieldOf t "__gc" = .function f := by
    obtain ⟨name, hname, rfl⟩ := hserves
    obtain ⟨table, htable, e, he, hslot⟩ := h.fitted.metatables name hname
    rw [fieldOf_of_find? htable he hslot] at hf
    rw [fieldOf_of_find? (htables ▸ htable) he (hslot.trans (congrArg Slot.strong hf))]
  have hduring : (d.during != some t) = true := bne_iff_ne.mpr (h.notes d hd t hserves)
  have hmachine : w₁.hasMachine c.home = true := by
    unfold hasMachine
    rw [hmachine, hhome, h.fitted.home, BEq.rfl, Bool.true_or]
  unfold finalizerTable?
  rw [ht]
  dsimp only
  rw [hfield, hduring, hmachine]
  cases c.finalized <;> rfl

/-- What emptying a cell notes was let go of where the cell was. -/
theorem notes_empty (h : w.Proxied F g made room) (hdropped : w.dropped = d :: rest)
    (refs : List Ref) : ∀ d' ∈ refs.map (⟨·, d.during⟩) ++ rest, ∀ t, F.Serves t →
      d'.during ≠ some t := by
  intro d' hd' t ht
  obtain hd' | hd' := List.mem_append.mp hd'
  · obtain ⟨r, -, rfl⟩ := List.mem_map.mp hd'
    exact h.notes d (hdropped ▸ List.mem_cons_self) t ht
  · exact h.notes d' (hdropped ▸ List.mem_cons_of_mem d hd') t ht

/-- The cell of a userdata is emptied, and a proxy is buried unless its finalizer was scheduled
before. -/
theorem died (h : w.Proxied F g made room) {i : Nat} {c : Userdata}
    (hcell : w.proxyCell? i = some c) {buried : List Pending}
    (hburied : ∀ q ∈ buried, q.payload = c.payload ∧ F.Serves q.metatable)
    (honce : buried.length ≤ 1)
    (hlive : c.finalized = false → ∃ q ∈ buried, q.payload = c.payload) {dropped : List Dropped}
    (hnotes : ∀ d ∈ dropped, ∀ t, F.Serves t → d.during ≠ some t) :
    { w with
      userdata := w.userdata.erase i
      machine.graveyard := w.machine.graveyard ++ buried
      dropped }.Proxied F g made room := by
  let w' : World := { w with
    userdata := w.userdata.erase i
    machine.graveyard := w.machine.graveyard ++ buried
    dropped }
  have hcells : w'.proxyCell? = fun j => if i = j then none else w.proxyCell? j := by
    funext j
    show ((w.userdata.erase i).get? j).filter _ = _
    rw [Store.get?_erase]
    split <;> rfl
  have hroster : w'.roster g = (w.roster g).bury i buried := by
    have hnext : w'.userdata.next = w.userdata.next := Store.next_erase _ _
    unfold roster Roster.bury
    dsimp only
    rw [hcells, hnext, List.append_assoc]
    rfl
  exact {
    fitted := h.fitted.of_same rfl rfl rfl rfl rfl rfl rfl
    kept := by
      rw [hroster]
      exact h.kept.bury hcell hburied honce
    complete := fun hroom => by
      rw [hroster]
      exact (h.complete hroom).bury h.kept hcell hlive
    visible := h.visible
    notes := hnotes
    quiet := h.quiet.of_fewer (fun _ _ h => h) fun _ _ h => Store.get?_of_erase _ h
    unmade := fun u hu hheld =>
      h.unmade u (Store.next_erase _ _ ▸ hu) (hheld.of_same rfl rfl rfl (List.Subset.refl _) rfl)
    own := fun p hp hcontains => by
      obtain ⟨hne, hcontains⟩ := Store.contains_erase _ hcontains
      obtain ⟨d, hd⟩ := h.own p hp hcontains
      rw [hcells]
      exact ⟨d, (if_neg hne).trans hd⟩ }

/-- A proxy that nothing holds dies. -/
theorem reclaimed_proxy (h : w.Proxied F g made room) {u : UserdataRef}
    {during : Option TableRef} (hdropped : w.dropped = ⟨.userdata u, during⟩ :: rest) {c : Userdata}
    (hcell : w.proxyCell? u.index = some c) :
    (w.reclaimed ⟨.userdata u, during⟩ rest).Proxied F g made room := by
  have hc : w.userdata.get? u.index = some c := (proxyCell?_eq_some.mp hcell).1
  obtain ⟨t, ht, hserves⟩ := h.kept.served u.index c hcell
  have hhome : c.home = F.home := h.kept.home u.index c hcell
  have htable := h.finalizerTable?_eq (d := ⟨.userdata u, during⟩)
    (hdropped ▸ List.mem_cons_self) ht hserves hhome
    { w with userdata := w.userdata.erase u.index, dropped := rest } rfl rfl
  cases hfinalized : c.finalized with
  | true =>
    rw [hfinalized] at htable
    have hnone (q : Pending) (hq : q ∈ ([] : List Pending)) :
        q.payload = c.payload ∧ F.Serves q.metatable := absurd hq List.not_mem_nil
    have hdied := h.died hcell hnone (Nat.zero_le _)
      (fun hlive => absurd (hfinalized.symm.trans hlive) nofun) (h.notes_empty hdropped c.refs)
    rw [List.append_nil] at hdied
    rw [reclaimed_of_unburied hc htable]
    exact hdied
  | false =>
    rw [hfinalized] at htable
    rw [reclaimed_of_buried hc htable (h.fitted.home.trans hhome.symm)]
    refine h.died hcell (fun q hq => ?_) (Nat.le_refl _)
      (fun _ => ⟨_, List.mem_singleton.mpr rfl, rfl⟩)
      fun d' hd' => h.notes d' (hdropped ▸ List.mem_cons_of_mem _ hd')
    obtain rfl := List.mem_singleton.mp hq
    exact ⟨rfl, hserves⟩

/-- A userdata without an id dies. -/
theorem reclaimed_other (h : w.Proxied F g made room) {u : UserdataRef}
    {during : Option TableRef} (hdropped : w.dropped = ⟨.userdata u, during⟩ :: rest) {c : Userdata}
    (hc : w.userdata.get? u.index = some c) (hid : c.payload.isProxy = false) :
    (w.reclaimed ⟨.userdata u, during⟩ rest).Proxied F g made room := by
  have hquiet : { w with userdata := w.userdata.erase u.index, dropped := rest }.finalizerTable? c
      during = none := h.quiet.finalizerTable? hc hid during rfl
  rw [reclaimed_of_unburied hc hquiet]
  refine SameProxies.proxied ?_ h
  exact {
    id := rfl
    registry := rfl
    appData := rfl
    nextRef := Int.le_refl _
    graveyard := rfl
    session := rfl
    next := Nat.le_of_eq (Store.next_erase _ _).symm
    cells := by
      funext j
      show ((w.userdata.erase u.index).get? j).filter _ = _
      rw [Store.get?_erase]
      split
      · rename_i hj
        subst hj
        unfold proxyCell?
        rw [hc, Option.filter_some, hid]
        rfl
      · rfl
    stay := fun i _ hi => (Store.contains_erase _ hi).2
    quiet := fun hquiet =>
      hquiet.of_fewer (fun _ _ h => h) fun _ _ h => Store.get?_of_erase _ h
    unmade := fun _ _ hv => hv.of_same rfl rfl rfl (List.Subset.refl _) rfl
    names := fun t ht => ⟨t, ht, fun _ _ => rfl⟩
    metatables := fun _ _ => rfl
    finalizers := fun _ _ _ _ => rfl
    proxies := fun _ _ => rfl
    exposed := fun _ _ => rfl
    notes := fun d hd => by
      obtain hd | hd := List.mem_append.mp hd
      · obtain ⟨r, -, rfl⟩ := List.mem_map.mp hd
        exact .inr fun t ht => h.notes ⟨.userdata u, during⟩ (hdropped ▸ List.mem_cons_self) t
          (h.fitted.serves_iff.mpr ht)
      · exact .inl (hdropped ▸ List.mem_cons_of_mem _ hd) }

/-- A userdata that nothing holds dies. -/
theorem reclaimed_userdata (h : w.Proxied F g made room) {u : UserdataRef}
    {during : Option TableRef} (hdropped : w.dropped = ⟨.userdata u, during⟩ :: rest) :
    (w.reclaimed ⟨.userdata u, during⟩ rest).Proxied F g made room := by
  cases hc : w.userdata.get? u.index with
  | none =>
    rw [reclaimed_of_gone hc]
    exact h.kept_note hdropped
  | some c =>
    cases hid : c.payload.isProxy with
    | true => exact h.reclaimed_proxy hdropped (proxyCell?_eq_some.mpr ⟨hc, hid⟩)
    | false => exact h.reclaimed_other hdropped hc hid

/-- A cell that nothing holds is emptied. -/
theorem reclaimed_free (h : w.Proxied F g made room) (hdropped : w.dropped = d :: rest)
    (hfree : w.holds d.ref = false) : (w.reclaimed d rest).Proxied F g made room := by
  by_cases hd : ∃ u, d.ref = .userdata u
  · obtain ⟨u, hd⟩ := hd
    obtain ⟨r, during⟩ := d
    obtain rfl : r = .userdata u := hd
    exact h.reclaimed_userdata hdropped
  · exact (h.sameProxies_reclaimed hdropped (fun u hu => hd ⟨u, hu⟩) hfree).proxied h

/-- Reclaiming memory keeps the invariant. -/
theorem settled (h : w.Proxied F g made room) : w.settle.Proxied F g made room :=
  settle_keeps (P := fun w => w.Proxied F g made room)
    (fun _ _ _ hdropped h _ => h.kept_note hdropped)
    (fun _ _ _ hdropped h hfree => h.reclaimed_free hdropped hfree) h

end Proxied

end

/-! ## Calm -/

/-- Letting go of the reference lets no proxy die. -/
def Tame (w : World) (F : Fixture) : Ref → Prop
  | .userdata u => ∀ c, w.userdata.get? u.index = some c →
      c.finalized = true ∧ ∃ t, c.metatable = some t ∧ F.Serves t
  | .table t => F.Serves t
  | _ => True

/-- Nothing waits for its finalizer, and no note lets a proxy die. -/
structure Calm (w : World) (F : Fixture) : Prop where
  graveyard : w.machine.graveyard = []
  notes : ∀ d ∈ w.dropped, w.Tame F d.ref

section

variable {w w' : World} {F : Fixture} {g : Progress} {made : List Proxy} {room : Bool}
variable {d : Dropped} {rest : List Dropped} {r : Ref}

theorem Tame.of_fewer (h : w.Tame F r)
    (huserdata : ∀ i c, w'.userdata.get? i = some c → w.userdata.get? i = some c) :
    w'.Tame F r := by
  cases r with
  | userdata u => exact fun c hc => h c (huserdata _ _ hc)
  | table t => exact h
  | _ => trivial

theorem tame_of_hostOnly (h : ¬ r.InMachine) : w.Tame F r := by
  cases r with
  | userdata | table => exact absurd trivial h
  | _ => trivial

/-- References are let go of. -/
theorem Calm.discarded (h : w.Calm F) {refs : List Ref} (hrefs : ∀ r ∈ refs, w.Tame F r)
    (huserdata : w'.userdata = w.userdata) (hgraveyard : w'.machine.graveyard = w.machine.graveyard)
    {during : Option TableRef}
    (hdropped : w'.dropped = w.dropped ++ refs.map (Dropped.mk · during)) : w'.Calm F where
  graveyard := hgraveyard.trans h.graveyard
  notes d hd := by
    have hfewer (i : Nat) (c : Userdata) (hc : w'.userdata.get? i = some c) :
        w.userdata.get? i = some c := huserdata ▸ hc
    rw [hdropped] at hd
    obtain hd | hd := List.mem_append.mp hd
    · exact (h.notes d hd).of_fewer hfewer
    · obtain ⟨r, hr, rfl⟩ := List.mem_map.mp hd
      exact (hrefs r hr).of_fewer hfewer

/-- A calm world stays calm when memory is reclaimed. -/
theorem Calm.reclaimed (h : w.Calm F) (hw : w.Proxied F g made room)
    (hdropped : w.dropped = d :: rest) (hfree : w.holds d.ref = false) :
    (w.reclaimed d rest).Calm F := by
  have hd : w.Tame F d.ref := h.notes d (hdropped ▸ List.mem_cons_self)
  have hrest {d' : Dropped} (hd' : d' ∈ rest) : w.Tame F d'.ref :=
    h.notes d' (hdropped ▸ List.mem_cons_of_mem d hd')
  have hfewer := ({ w with dropped := rest }.empty_shrinks d).2.2.1
  obtain ⟨r, during⟩ := d
  by_cases hu : ∃ u, r = .userdata u
  · obtain ⟨u, rfl⟩ := hu
    cases hc : w.userdata.get? u.index with
    | none =>
      rw [reclaimed_of_gone hc]
      exact ⟨h.graveyard, fun d' hd' => hrest hd'⟩
    | some c =>
      obtain ⟨hfinalized, t, ht, hserves⟩ := hd c hc
      have hnone : { w with
          userdata := w.userdata.erase u.index, dropped := rest }.finalizerTable? c during =
            none := by
        unfold finalizerTable?
        rw [ht]
        dsimp only
        rw [hfinalized]
        rfl
      have hrefs : c.refs = [.table t] := by
        unfold Userdata.refs
        rw [ht]
        rfl
      rw [reclaimed_of_unburied hc hnone, hrefs]
      refine ⟨h.graveyard, fun d' hd' => ?_⟩
      obtain rfl | hd' := List.mem_cons.mp hd'
      · exact hserves
      · exact (hrest hd').of_fewer fun _ _ hc => Store.get?_of_erase _ hc
  · have htable (t : TableRef) : r ≠ .table t := by
      rintro rfl
      obtain ⟨name, hname, rfl⟩ : F.Serves t := hd
      rw [hw.fitted.holds_metatable hname] at hfree
      cases hfree
    have hne (u : UserdataRef) : r ≠ .userdata u := fun he => hu ⟨u, he⟩
    obtain ⟨-, -, -, hgraveyard, -⟩ := empty_core { w with dropped := rest } (d := ⟨r, during⟩) hne
    refine ⟨hgraveyard.trans h.graveyard, fun d' hd' => ?_⟩
    obtain hd' | hd' := List.mem_append.mp hd'
    · obtain ⟨x, hx, rfl⟩ := List.mem_map.mp hd'
      exact tame_of_hostOnly (hostOnly_cellRefs (w := { w with dropped := rest }) htable hne x
        ((empty_emptied { w with dropped := rest } ⟨r, during⟩).refs x hx))
    · exact (hrest hd').of_fewer hfewer

theorem Calm.settled (h : w.Calm F) (hw : w.Proxied F g made room) : w.settle.Calm F :=
  (settle_keeps (P := fun w => w.Proxied F g made room ∧ w.Calm F)
    (fun _ d _ hdropped h _ => ⟨h.1.kept_note hdropped, h.2.graveyard,
      fun d' hd' => h.2.notes d' (hdropped ▸ List.mem_cons_of_mem d hd')⟩)
    (fun _ _ _ hdropped h hfree =>
      ⟨h.1.reclaimed_free hdropped hfree, h.2.reclaimed h.1 hdropped hfree⟩) ⟨hw, h⟩).2

end

end World

end ScriptBridge
