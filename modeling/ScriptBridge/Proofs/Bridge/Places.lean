import ScriptBridge.Bridge.Proxy
import ScriptBridge.Proofs.Bridge.Proxies

/-!
# Ids and places of proxies

What `expose`, `revoke`, `forget` and `proxyOf` do to a world, as changes of its roster: a change of
the registry, an id taken back, a new proxy. Each keeps the invariant of proxies. A new proxy is
written into the table of proxies under its id, which is a key of its own because a number holds
integers of fifty-three bits exactly.
-/

namespace ScriptBridge

namespace Table

variable {t : Table}

/-! ## The table of proxies -/

/-- A userdata is put at the place of an id. -/
theorem KeepsPlaces.set (h : t.KeepsPlaces) (n : Int) (x : Number) (u : UserdataRef) :
    (t.setKey (.integer n) (.number x) (.userdata u)).1.KeepsPlaces := by
  have hslot : t.slotFor (.userdata u) = .weak (.userdata u) := if_pos h.weak
  refine ⟨h.weak, nodup_putEntry _ h.distinct, fun e he => ?_⟩
  obtain rfl | he := eq_or_mem_of_putEntry he
  · exact ⟨⟨n, x, rfl, rfl⟩, u, hslot⟩
  · exact h.places e he

/-- The place of an id is cleared. -/
theorem KeepsPlaces.clear (h : t.KeepsPlaces) (n : Int) (key : Value) :
    (t.setKey (.integer n) key .nil).1.KeepsPlaces :=
  ⟨h.weak, h.distinct.sublist (List.eraseP_sublist.map _), fun e he =>
    h.places e (List.mem_of_mem_eraseP he)⟩

theorem place?_of_find? {id : Nat} {e : Entry} {u : UserdataRef}
    (he : t.find? (.integer id) = some e) (hslot : e.slot = .weak (.userdata u)) :
    t.place? id = some u := by
  unfold place?
  rw [he, Option.map_some, hslot]

/-- The place of an id gives the userdata it points to as long as that is there. -/
theorem KeepsPlaces.getInt_of_live (h : t.KeepsPlaces) {live : Value → Bool} {id : Nat}
    {u : UserdataRef} (hu : t.place? id = some u) (hlive : live (.userdata u) = true) :
    t.getInt live id = .userdata u := by
  unfold getInt getKey
  cases he : t.find? (.integer id) with
  | none =>
    unfold place? at hu
    rw [he] at hu
    cases hu
  | some e =>
    obtain ⟨-, u', hslot⟩ := h.places e (List.mem_of_find?_eq_some he)
    obtain rfl : u' = u := Option.some.inj ((place?_of_find? he hslot).symm.trans hu)
    show e.slot.read live = _
    rw [hslot]
    exact if_pos hlive

theorem KeepsPlaces.getInt_of_gone (h : t.KeepsPlaces) {live : Value → Bool} {id : Nat}
    (hgone : ∀ u, t.place? id = some u → live (.userdata u) = false) :
    t.getInt live id = .nil := by
  unfold getInt getKey
  cases he : t.find? (.integer id) with
  | none => rfl
  | some e =>
    obtain ⟨-, u, hslot⟩ := h.places e (List.mem_of_find?_eq_some he)
    show e.slot.read live = _
    rw [hslot]
    exact if_neg (Bool.eq_false_iff.mp (hgone u (place?_of_find? he hslot)))

theorem integer_ne {id i : Nat} (h : i ≠ id) : Key.integer id ≠ .integer i := fun he => by
  injection he with he
  exact h (Int.ofNat.inj he).symm

theorem place?_of_none {id : Nat} (h : t.find? (.integer id) = none) : t.place? id = none := by
  unfold place?
  rw [h, Option.map_none]

theorem place?_congr {t' : Table} {id : Nat} (h : t'.find? (.integer id) = t.find? (.integer id)) :
    t'.place? id = t.place? id := by
  unfold place?
  rw [h]

theorem KeepsPlaces.place?_set (h : t.KeepsPlaces) (id : Nat) (key : Value) (u : UserdataRef)
    (i : Nat) : (t.setKey (.integer id) key (.userdata u)).1.place? i =
      if i = id then some u else t.place? i := by
  by_cases hi : i = id
  · rw [if_pos hi, hi]
    exact place?_of_find? (t.find?_setKey_self (.integer id) key rfl) (if_pos h.weak)
  · rw [if_neg hi]
    exact place?_congr (t.find?_setKey_of_ne (integer_ne hi) _ _)

theorem KeepsPlaces.place?_clear (h : t.KeepsPlaces) (id : Nat) (key : Value) (i : Nat) :
    (t.setKey (.integer id) key .nil).1.place? i = if i = id then none else t.place? i := by
  by_cases hi : i = id
  · rw [if_pos hi, hi]
    exact place?_of_none (find?_eraseP_self _ h.distinct)
  · rw [if_neg hi]
    exact place?_congr (t.find?_setKey_of_ne (integer_ne hi) _ _)

end Table

/-! ## Sessions -/

/-- The world with another state of its session. -/
def World.withSession (w : World) (s : Session) : World := { w with machine.session := some s }

theorem World.withSession_self {w : World} {s : Session} (hs : w.machine.session = some s) :
    w.withSession s = w := by
  unfold withSession
  rw [← hs]

section

variable {w : World} {s : Session} (hs : w.machine.session = some s)

include hs

theorem readSession_eq : readSession w = (s, w) := by
  show (w.machine.session.getD default, w) = (s, w)
  rw [hs]
  rfl

theorem modifySession_eq (f : Session → Session) :
    modifySession f w = ((), w.withSession (f s)) := by
  show ((), ({ w with machine.session := w.machine.session.map f } : World)) = _
  rw [hs]
  rfl

theorem expose_eq (o : ObjectRef) : expose o w = ((s.registry.expose ObjectRef.index o).1,
    w.withSession { s with registry := (s.registry.expose ObjectRef.index o).2 }) := by
  unfold expose
  rw [bind_of_eq (readSession_eq hs)]
  dsimp only
  rw [bind_of_eq (modifySession_eq hs _)]
  rfl

theorem revoke_eq (id : Nat) : revoke id w = ((s.registry.revoke ObjectRef.index id).1,
    { w.withSession { s with registry := (s.registry.revoke ObjectRef.index id).2 } with
      dropped := w.dropped ++ ((s.registry.revoke ObjectRef.index id).1.map Ref.object).toList.map
        (⟨·, none⟩) }) := by
  unfold revoke
  rw [bind_of_eq (readSession_eq hs)]
  dsimp only
  rw [bind_of_eq (modifySession_eq hs _), bind_of_eq (discard_eq _ _ _)]
  rfl

theorem setMaterialized_eq (id : Nat) (present : Bool) : setMaterialized id present w = ((),
    w.withSession { s with
      materialized := if present then id :: s.materialized.filter (· != id)
        else s.materialized.filter (· != id) }) :=
  modifySession_eq hs _

end

namespace World

variable {w : World} {F : Fixture} {g : Progress} {made : List Proxy} {room : Bool}
variable {s : Session}

theorem roster_of_session (hs : w.machine.session = some s) (g : Progress) :
    w.roster g =
      { registry := s.registry
        materialized := s.materialized
        place := (w.table s.objects).place?
        cell := w.proxyCell?
        next := w.userdata.next
        pending := g.batch ++ w.machine.graveyard
        late := g.late } := by
  unfold roster
  rw [hs]
  rfl

theorem Fitted.withSession (h : w.Fitted F) (hs : w.machine.session = some s) {s' : Session}
    (hobjects : s'.objects = s.objects) : (w.withSession s').Fitted F where
  attached := h.attached
  session := ⟨s', rfl⟩
  home := h.home
  numbers := h.numbers
  registry := h.registry
  metatables := h.metatables
  finalizers := h.finalizers
  proxies s'' hs'' := by
    obtain rfl : s' = s'' := Option.some.inj hs''
    rw [hobjects]
    exact h.proxies s hs

namespace Proxied

/-- The session changes what it knows of ids. -/
theorem withSession (h : w.Proxied F g made room) (hs : w.machine.session = some s)
    {s' : Session} (hoptions : s'.options = s.options) (hobjects : s'.objects = s.objects)
    (hkept : Roster.Kept { w.roster g with
      registry := s'.registry, materialized := s'.materialized } F made)
    (hcomplete : room = true → Roster.Complete { w.roster g with
      registry := s'.registry, materialized := s'.materialized } made)
    (hresolved : ∀ p ∈ made, ∀ o, s'.registry.resolve? p.id = some o →
      s.registry.resolve? p.id = some o) :
    (w.withSession s').Proxied F g made room := by
  have hroster : (w.withSession s').roster g = { w.roster g with
      registry := s'.registry, materialized := s'.materialized } := by
    rw [roster_of_session hs, roster_of_session (w := w.withSession s') rfl, hobjects]
    rfl
  exact {
    fitted := h.fitted.withSession hs hobjects
    kept := hroster ▸ hkept
    complete := fun hroom => hroster ▸ hcomplete hroom
    visible := fun s'' hs'' p hp o ho => by
      obtain rfl : s' = s'' := Option.some.inj hs''
      rw [hoptions]
      exact h.visible s hs p hp o (hresolved p hp o ho)
    notes := h.notes
    quiet := h.quiet
    unmade := fun u hu hheld => h.unmade u hu (hheld.of_same rfl rfl rfl (List.Subset.refl _) rfl)
    own := h.own }

/-- The registry changes, and some ids no longer count as given. -/
theorem withRegistry (h : w.Proxied F g made room) (hs : w.machine.session = some s)
    (c : Registry.Change) {materialized : List Nat}
    (hkept : Roster.Kept { w.roster g with
      registry := c.run ObjectRef.index (w.roster g).registry, materialized } F made)
    (hcomplete : room = true → Roster.Complete { w.roster g with
      registry := c.run ObjectRef.index (w.roster g).registry, materialized } made) :
    (w.withSession { s with
      registry := c.run ObjectRef.index s.registry, materialized }).Proxied F g made room := by
  have hresolve (p : Proxy) (hp : p ∈ made) (o : ObjectRef)
      (ho : (c.run ObjectRef.index (w.roster g).registry).resolve? p.id = some o) :
      (w.roster g).registry.resolve? p.id = some o :=
    (h.kept.resolve?_of_change c hp ho).1
  have hregistry : (w.roster g).registry = s.registry := by rw [roster_of_session hs]
  rw [hregistry] at hkept hcomplete hresolve
  exact h.withSession hs rfl rfl hkept hcomplete hresolve

/-- References are let go of, but not in a write into a metatable. -/
theorem discarded (h : w.Proxied F g made room) (refs : List Ref) {during : Option TableRef}
    (hduring : ∀ t, F.Serves t → during ≠ some t) :
    { w with dropped := w.dropped ++ refs.map (Dropped.mk · during) }.Proxied F g made room := by
  refine (SameProxies.of_machine w.machine w.held _ rfl rfl rfl rfl rfl rfl
    (fun _ hu _ => .inl ⟨_, List.mem_cons_self, hu⟩) (fun _ hu _ => .inr (.inr (.inl hu)))
    fun d hd => ?_).proxied h
  obtain hd | hd := List.mem_append.mp hd
  · exact .inl hd
  · obtain ⟨r, -, rfl⟩ := List.mem_map.mp hd
    exact .inr fun t ht => hduring t (h.fitted.serves_iff.mpr ht)

/-! ## Exposing and revoking -/

theorem exposed (h : w.Proxied F g made room) (o : ObjectRef) :
    (expose o w).2.Proxied F g made room := by
  obtain ⟨s, hs⟩ := h.fitted.session
  rw [expose_eq hs]
  have hmaterialized : (w.roster g).materialized = s.materialized := by
    rw [roster_of_session hs]
  exact h.withRegistry hs (.expose o) (hmaterialized ▸ h.kept.changed (.expose o))
    (hmaterialized ▸ h.complete)

theorem revoked (h : w.Proxied F g made room) (id : Nat) :
    (revoke id w).2.Proxied F g made room := by
  obtain ⟨s, hs⟩ := h.fitted.session
  rw [revoke_eq hs]
  have hmaterialized : (w.roster g).materialized = s.materialized := by
    rw [roster_of_session hs]
  have hrevoked := h.withRegistry hs (.revoke id) (hmaterialized ▸ h.kept.changed (.revoke id))
    (hmaterialized ▸ h.complete)
  exact hrevoked.discarded _ fun t _ => (Option.some_ne_none t).symm

theorem weaken (h : w.Proxied F g made room) : w.Proxied F g made false :=
  { h with complete := nofun }

/-- The id is taken back and no longer counts as given; nothing is lost by it if nothing but the
proxy of this id was. -/
theorem retaken (h : w.Proxied F g made false) (hs : w.machine.session = some s) (id : Nat)
    (hcomplete : room = true → ((w.roster g).retake id).Complete made) :
    (w.withSession { s with
      registry := (s.registry.revoke ObjectRef.index id).2
      materialized := s.materialized.filter (· != id) }).Proxied F g made room := by
  have hkept : Roster.Kept { w.roster g with
      registry := (Registry.Change.revoke id).run ObjectRef.index (w.roster g).registry
      materialized := s.materialized.filter (· != id) } F made := by
    have hretake := h.kept.retake id
    rw [roster_of_session hs] at hretake ⊢
    exact hretake
  have hretaken := h.withRegistry hs (.revoke id) hkept nofun
  refine { hretaken with complete := fun hroom => ?_ }
  have hroster : (w.withSession { s with
      registry := (s.registry.revoke ObjectRef.index id).2
      materialized := s.materialized.filter (· != id) }).roster g =
        (w.roster g).retake id := by
    rw [roster_of_session hs]
    rfl
  rw [hroster]
  exact hcomplete hroom

end Proxied

/-! ## The table of proxies -/

/-- The table of proxies is none of the tables that the session set up with names. -/
theorem Fitted.proxies_ne (h : w.Fitted F) (hs : w.machine.session = some s) :
    s.objects ≠ w.machine.registry ∧ ∀ t, F.Serves t → s.objects ≠ t := by
  obtain ⟨table, htable, hkeeps⟩ := h.proxies s hs
  have hno (t : TableRef) {table' : Table} {name : String} {e : Entry}
      (ht : w.tables.get? t.index = some table') (he : table'.find? (.text name) = some e) :
      s.objects ≠ t := by
    rintro rfl
    obtain rfl : table = table' := Option.some.inj (htable.symm.trans ht)
    rw [hkeeps.find?_text name] at he
    cases he
  constructor
  · obtain ⟨t, ht, hentries⟩ := h.registry
    obtain ⟨e, he, -⟩ := hentries objectTableName List.mem_cons_self
    exact hno _ ht he
  · rintro t ⟨name, hname, rfl⟩
    obtain ⟨t, ht, e, he, -⟩ := h.metatables name hname
    exact hno _ ht he

theorem Fitted.withPlaces (h : w.Fitted F) (hs : w.machine.session = some s) {table : Table}
    (hkeeps : table.KeepsPlaces) (refs : List Ref) :
    (w.withTable s.objects table refs).Fitted F := by
  obtain ⟨hregistry, hserves⟩ := h.proxies_ne hs
  have hother {t : TableRef} (ht : s.objects ≠ t) :
      (w.withTable s.objects table refs).tables.get? t.index = w.tables.get? t.index :=
    Store.get?_modify_of_ne _ _ fun hi => ht (TableRef.ext hi)
  exact {
    attached := h.attached
    session := h.session
    home := h.home
    numbers := h.numbers
    registry := by
      show ∃ t, (w.withTable s.objects table refs).tables.get? w.machine.registry.index = _ ∧ _
      rw [hother hregistry]
      exact h.registry
    metatables := fun name hname => by
      rw [hother (hserves _ ⟨name, hname, rfl⟩)]
      exact h.metatables name hname
    finalizers := h.finalizers
    proxies := fun s' hs' => by
      obtain rfl : s = s' := Option.some.inj (hs.symm.trans hs')
      obtain ⟨t, ht, -⟩ := h.proxies s hs
      refine ⟨table, ?_, hkeeps⟩
      show (w.tables.modify s.objects.index fun _ => table).get? s.objects.index = some table
      rw [Store.get?_modify, if_pos rfl, ht]
      rfl }

theorem Proxied.notes_withPlaces (h : w.Proxied F g made room)
    (hs : w.machine.session = some s) (table : Table) (refs : List Ref) :
    ∀ d ∈ (w.withTable s.objects table refs).dropped, ∀ t, F.Serves t → d.during ≠ some t := by
  intro d hd t ht
  obtain hd | hd := List.mem_append.mp hd
  · exact h.notes d hd t ht
  · obtain ⟨r, -, rfl⟩ := List.mem_map.mp hd
    exact fun he => (h.fitted.proxies_ne hs).2 t ht (Option.some.inj he)

theorem Fitted.quiet_withPlaces (h : w.Fitted F) (hs : w.machine.session = some s)
    (hquiet : w.Quiet) {table : Table} (hkeeps : table.KeepsPlaces) (refs : List Ref) :
    (w.withTable s.objects table refs).Quiet := by
  intro i c hc hid hlive t ht
  by_cases he : s.objects = t
  · obtain rfl := he
    obtain ⟨t, ht, -⟩ := h.proxies s hs
    rw [table_withTable ⟨t, ht⟩]
    exact hkeeps.find?_text _
  · have htable : (w.withTable s.objects table refs).tables.get? t.index = w.tables.get? t.index :=
      Store.get?_modify_of_ne _ _ fun hi => he (TableRef.ext hi)
    have hnone := hquiet i c hc hid hlive t ht
    unfold World.table at hnone ⊢
    rwa [htable]

/-- The table of proxies changes. -/
theorem Proxied.withPlaces (h : w.Proxied F g made room) (hs : w.machine.session = some s)
    {table : Table} (hkeeps : table.KeepsPlaces) (refs : List Ref)
    (hkept : Roster.Kept { w.roster g with place := table.place? } F made) :
    (w.withTable s.objects table refs).Proxied F g made room ∧
      (w.withTable s.objects table refs).roster g =
        { w.roster g with place := table.place? } := by
  have hroster : (w.withTable s.objects table refs).roster g =
      { w.roster g with place := table.place? } := by
    obtain ⟨t, ht, -⟩ := h.fitted.proxies s hs
    have htable : (w.withTable s.objects table refs).table s.objects = table :=
      table_withTable ⟨t, ht⟩ table refs
    rw [roster_of_session hs, roster_of_session (w := w.withTable s.objects table refs) hs, htable]
    rfl
  refine ⟨?_, hroster⟩
  exact {
    fitted := h.fitted.withPlaces hs hkeeps refs
    kept := hroster ▸ hkept
    complete := fun hroom => hroster ▸ h.complete hroom
    visible := h.visible
    notes := h.notes_withPlaces hs table refs
    quiet := h.fitted.quiet_withPlaces hs h.quiet hkeeps refs
    unmade := fun u hu hheld =>
      hheld.of_withTable.elim (h.unmade u hu) (hkeeps.userdata_not_mem u)
    own := h.own }

end World

/-! ## Forgetting -/

section

variable {w : World} {F : Fixture} {g : Progress} {made : List Proxy} {room : Bool}
variable {s : Session} {id : Nat}

/-- A table of proxies lets go of nothing when it is written. -/
theorem Table.KeepsPlaces.refs_heldBy {t : Table} (h : t.KeepsPlaces) (k : Key) :
    (t.heldBy k).flatMap Value.refs = [] := by
  unfold Table.heldBy
  cases he : t.find? k with
  | none => rfl
  | some e =>
    obtain ⟨⟨n, x, -, hwritten⟩, u, hslot⟩ := h.places e (List.mem_of_find?_eq_some he)
    dsimp only
    rw [hwritten, hslot]
    rfl

/-- An id that a number holds exactly is the key of its place. -/
theorem rawSetInt_place (hid : id ≤ 2 ^ 53) (v : Value) (t : TableRef) (w : World)
    (h : (w.table t).KeepsPlaces) : ∃ x, rawSetInt t id v w =
      ((), w.withTable t ((w.table t).setKey (.integer id) (.number x) v).1 v.refs) := by
  have hset := rawSetInt_eq t id v w (Table.setInt_eq (w.table t) (by omega) v)
  have hheld : ((w.table t).setKey (.integer id) (.number (Number.ofInt id)) v).2.flatMap
      Value.refs = [] := h.refs_heldBy _
  rw [hheld, List.nil_append] at hset
  exact ⟨_, hset⟩

/-- The place of an id is cleared if no proxy lives there. -/
def clearPlace (id : Nat) : Action Unit := do
  let proxies := (← readSession).objects
  if (← rawGetInt proxies id).isNil then rawSetInt proxies id .nil

theorem clearPlace_eq (hs : w.machine.session = some s) (id : Nat) : clearPlace id w =
    if ((w.table s.objects).getInt w.isLive id).isNil then rawSetInt s.objects id .nil w
    else ((), w) := by
  have hget : rawGetInt s.objects id w = ((w.table s.objects).getInt w.isLive id, w) := rfl
  unfold clearPlace
  rw [bind_of_eq (readSession_eq hs), bind_of_eq hget]
  split <;> rfl

/-- Clearing a place does not depend on what the session knows of ids. -/
theorem clearPlace_withSession (hs : w.machine.session = some s) {s' : Session}
    (hobjects : s'.objects = s.objects) (id : Nat) :
    clearPlace id (w.withSession s') = ((), (clearPlace id w).2.withSession s') := by
  rw [clearPlace_eq hs, clearPlace_eq (w := w.withSession s') rfl, hobjects]
  show (if ((w.table s.objects).getInt w.isLive id).isNil then _ else _) = _
  split
  · rw [rawSetInt_eq s.objects id .nil w rfl,
      rawSetInt_eq s.objects id .nil (w.withSession s') rfl]
    rfl
  · rfl

theorem World.Proxied.cleared (h : w.Proxied F g made room) (hid : id ≤ 2 ^ 53) :
    (clearPlace id w).2.Proxied F g made room ∧
      ∃ place, (clearPlace id w).2.roster g = { w.roster g with place } := by
  obtain ⟨s, hs⟩ := h.fitted.session
  rw [clearPlace_eq hs]
  obtain ⟨table, htable, hkeeps⟩ := h.fitted.proxies s hs
  have htable' : w.table s.objects = table := by
    unfold World.table
    rw [htable]
    rfl
  rw [htable']
  split
  · rename_i hnil
    obtain ⟨x, hset⟩ := rawSetInt_place hid .nil s.objects w (htable'.symm ▸ hkeeps)
    rw [hset, htable']
    have hgone : (table.place? id).bind (fun u => w.proxyCell? u.index) = none := by
      rw [Option.bind_eq_none_iff]
      intro u hu
      cases hc : w.proxyCell? u.index with
      | none => rfl
      | some c =>
        have hlive : w.isLive (.userdata u) = true := by
          show w.userdata.contains u.index = true
          rw [Store.contains_eq, (proxyCell?_eq_some.mp hc).1]
          rfl
        rw [hkeeps.getInt_of_live hu hlive] at hnil
        cases hnil
    have hplace : (table.setKey (.integer id) (.number x) .nil).1.place? = fun i =>
        if i = id ∧ (table.place? id).bind (fun u => w.proxyCell? u.index) = none then none
        else table.place? i := by
      funext i
      rw [hkeeps.place?_clear]
      by_cases hi : i = id
      · rw [if_pos hi, if_pos ⟨hi, hgone⟩]
      · rw [if_neg hi, if_neg fun he => hi he.1]
    have hroster : { w.roster g with
          place := (table.setKey (.integer id) (.number x) .nil).1.place? } =
          (w.roster g).clear id := by
      rw [roster_of_session hs, htable', hplace]
      rfl
    obtain ⟨hproxied, hplaces⟩ :=
      h.withPlaces hs (hkeeps.clear id _) _ (hroster ▸ h.kept.clear id)
    exact ⟨hproxied, _, hplaces⟩
  · exact ⟨h, _, rfl⟩

theorem forget_eq (id : Nat) : forget id = (do
    setMaterialized id false
    clearPlace id
    let _ ← revoke id : Action Unit) := by
  unfold forget clearPlace
  simp only [bind_assoc]
  congr
  funext _
  congr
  funext s
  congr
  funext v
  split
  · rfl
  · rfl

/-- Clearing a place changes the table of proxies only. -/
theorem clearPlace_world (h : w.Fitted F) (hs : w.machine.session = some s) (hid : id ≤ 2 ^ 53) :
    ∃ tables, clearPlace id w = ((), { w with tables }) := by
  obtain ⟨table, htable, hkeeps⟩ := h.proxies s hs
  have htable' : w.table s.objects = table := by
    unfold World.table
    rw [htable]
    rfl
  rw [clearPlace_eq hs]
  split
  · obtain ⟨x, hset⟩ := rawSetInt_place hid .nil s.objects w (htable'.symm ▸ hkeeps)
    rw [hset]
    refine ⟨w.tables.modify s.objects.index fun _ =>
      ((w.table s.objects).setKey (.integer id) (.number x) .nil).1, ?_⟩
    unfold World.withTable
    rw [show Value.nil.refs = [] from rfl, List.map_nil, List.append_nil]
  · exact ⟨w.tables, rfl⟩

/-- Forgetting a proxy changes the table of proxies, takes the id back, and lets go of the
object. -/
theorem forget_world (h : w.Fitted F) (hs : w.machine.session = some s) (hid : id ≤ 2 ^ 53) :
    ∃ tables, forget id w = ((), { w.withSession { s with
        materialized := s.materialized.filter (· != id)
        registry := (s.registry.revoke ObjectRef.index id).2 } with
      tables
      dropped := w.dropped ++ ((s.registry.revoke ObjectRef.index id).1.map Ref.object).toList.map
        (⟨·, none⟩) }) ∧ clearPlace id w = ((), { w with tables }) := by
  let s₁ : Session := { s with materialized := s.materialized.filter (· != id) }
  obtain ⟨tables, hclear⟩ := clearPlace_world h hs hid
  have hfalse : setMaterialized id false w = ((), w.withSession s₁) := setMaterialized_eq hs _ _
  have hclear₁ : clearPlace id (w.withSession s₁) = ((), { w.withSession s₁ with tables }) := by
    rw [clearPlace_withSession hs (show s₁.objects = s.objects from rfl) id, hclear]
    rfl
  have hrevoke := revoke_eq (w := { w.withSession s₁ with tables }) rfl id
  refine ⟨tables, ?_, hclear⟩
  rw [forget_eq, bind_of_eq hfalse, bind_of_eq hclear₁, bind_of_eq hrevoke]
  rfl

/-- The proxy of an id is forgotten: its place is cleared and the id is taken back. -/
theorem World.Proxied.forgotten (h : w.Proxied F g made false) (hid : id ≤ 2 ^ 53)
    (hcomplete : room = true → ((w.roster g).retake id).Complete made) :
    (forget id w).2.Proxied F g made room := by
  obtain ⟨s, hs⟩ := h.fitted.session
  obtain ⟨tables, hforget, hclear⟩ := forget_world h.fitted hs hid
  obtain ⟨hcleared, place, hroster⟩ := h.cleared hid
  rw [hclear] at hcleared hroster
  have hretaken := hcleared.retaken hs id fun hroom => by
    rw [hroster]
    exact hcomplete hroom
  rw [hforget]
  exact hretaken.discarded _ fun t _ => (Option.some_ne_none t).symm

end

end ScriptBridge
