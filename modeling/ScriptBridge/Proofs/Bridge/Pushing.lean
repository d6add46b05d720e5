import ScriptBridge.Proofs.Bridge.Places

/-!
# Pushing objects

Pushing an object that has a proxy gives that proxy and changes nothing. Any other object that may
be shown gets a new proxy under an id that no proxy had before: its own id if it was only exposed
so far, and a fresh one if the proxy of its id is gone.
-/

namespace ScriptBridge

variable {w : World} {F : Fixture} {g : Progress} {made : List Proxy} {room : Bool}
variable {s : Session} {id : Nat} {o : ObjectRef}

/-- An object is at its index, so no other object is where it is. -/
theorem Registry.apart_index (r : Registry) (o : ObjectRef) : r.Apart ObjectRef.index o :=
  fun _ _ _ hi => ObjectRef.ext hi

/-- Exposing an object gives no id or the next one. -/
theorem Registry.expose_lastId (layout : Layout) (r : Registry) (o : ObjectRef) :
    (r.expose layout o).2 = r ∨ (r.expose layout o).1 = r.lastId + 1 ∧
      (r.expose layout o).2.lastId = r.lastId + 1 := by
  cases hid : r.idOf? layout o with
  | some id =>
    rw [Registry.expose_of_some hid]
    exact .inl rfl
  | none =>
    rw [Registry.expose_of_none hid]
    exact .inr ⟨rfl, rfl⟩

theorem Registry.revoke_lastId (layout : Layout) (r : Registry) (id : Nat) :
    (r.revoke layout id).2.lastId = r.lastId := by
  unfold Registry.revoke
  split <;> rfl

/-- The last id that was given in the running session. -/
def World.lastId (w : World) : Nat := (w.machine.session.map (·.registry.lastId)).getD 0

/-- The id finds the object in the running session. -/
def World.Finds (w : World) (id : Nat) (o : ObjectRef) : Prop :=
  ∃ s, w.machine.session = some s ∧ s.registry.resolve? id = some o

namespace World.Proxied

theorem kept_registry (h : w.Proxied F g made room) (hs : w.machine.session = some s) :
    s.registry.Paired ObjectRef.index ∧
      (∀ p ∈ made, p.id ≤ s.registry.lastId) ∧
      (∀ p ∈ made, ∀ o, s.registry.resolve? p.id = some o → o = p.object ∧ p.id ∈ s.materialized) ∧
      ∀ i ∈ s.materialized, ∃ p ∈ made, p.id = i := by
  have hkept := h.kept
  rw [roster_of_session hs] at hkept
  exact ⟨hkept.paired, hkept.given, hkept.resolved, hkept.materialized⟩

/-- The id under which a new proxy is made finds the object, and no proxy had it before. -/
theorem freshId (h : w.Proxied F g made room) (hs : w.machine.session = some s)
    (ho : s.registry.resolve? id = some o) :
    ∃ id' w' s', ScriptBridge.freshId o id w = (id', w') ∧ w'.Proxied F g made room ∧
      w'.machine.session = some s' ∧ s'.options = s.options ∧ s'.objects = s.objects ∧
      w'.objects = w.objects ∧
      s'.registry.resolve? id' = some o ∧ (∀ p ∈ made, p.id ≠ id') ∧
      s'.registry.lastId ≤ s.registry.lastId + 1 ∧
      (id ∉ s.materialized → s'.registry.lastId = s.registry.lastId) := by
  obtain ⟨hpaired, hgiven, hresolved, hmaterialized⟩ := h.kept_registry hs
  unfold ScriptBridge.freshId
  rw [bind_of_eq (readSession_eq hs)]
  by_cases hid : s.materialized.contains id = true
  · rw [if_pos hid]
    let s₁ : Session := { s with materialized := s.materialized.filter (· != id) }
    let s₂ : Session := { s₁ with registry := (s.registry.revoke ObjectRef.index id).2 }
    have hfalse : setMaterialized id false w = ((), w.withSession s₁) := setMaterialized_eq hs _ _
    let w₂ : World := (revoke id (w.withSession s₁)).2
    have hrevoke : revoke id (w.withSession s₁) =
        ((revoke id (w.withSession s₁)).1, w₂) := rfl
    have hw₂ : w₂.Proxied F g made room := by
      have hretaken := h.weaken.retaken hs id fun hroom => (h.complete hroom).retake id
      show (revoke id (w.withSession s₁)).2.Proxied F g made room
      rw [revoke_eq (w := w.withSession s₁) rfl]
      exact hretaken.discarded _ fun t _ => (Option.some_ne_none t).symm
    have hs₂ : w₂.machine.session = some s₂ := by
      show (revoke id (w.withSession s₁)).2.machine.session = _
      rw [revoke_eq (w := w.withSession s₁) rfl]
      rfl
    have hobjects : w₂.objects = w.objects := by
      show (revoke id (w.withSession s₁)).2.objects = _
      rw [revoke_eq (w := w.withSession s₁) rfl]
      rfl
    have hw₃ := hw₂.exposed o
    have hexpose := expose_eq hs₂ o
    rw [bind_of_eq hfalse, bind_of_eq hrevoke]
    rw [hexpose] at hw₃
    have hfinds := Registry.resolve?_expose (hw₂.kept_registry hs₂).1 (s₂.registry.apart_index o)
    have hlast : (s₂.registry.expose ObjectRef.index o).2.lastId ≤ s.registry.lastId + 1 := by
      have hsame : s₂.registry.lastId = s.registry.lastId := s.registry.revoke_lastId _ id
      obtain he | ⟨-, he⟩ := s₂.registry.expose_lastId ObjectRef.index o <;> rw [he] <;> omega
    refine ⟨_, _, _, hexpose, hw₃, rfl, rfl, rfl, hobjects, hfinds, fun p hp he => ?_, hlast,
      fun hno => absurd (List.contains_iff_mem.mp hid) hno⟩
    -- An id that a proxy had would have found the object before, so it would be the one taken back.
    have hbefore := hw₂.kept.resolve?_of_change (.expose o) hp (o := o)
    rw [roster_of_session hs₂] at hbefore
    have hold : s.registry.resolve? p.id = some o ∧ ¬ (Registry.Change.revoke id).Ends p.id := by
      have hrevoked := h.kept.resolve?_of_change (.revoke id) hp (o := o)
      rw [roster_of_session hs] at hrevoked
      exact hrevoked (hbefore (he ▸ hfinds)).1
    have hsame := (hpaired.idOf?_of_resolve? hold.1).symm.trans (hpaired.idOf?_of_resolve? ho)
    exact hold.2 (Option.some.inj hsame).symm
  · rw [if_neg hid]
    refine ⟨id, w, s, rfl, h, hs, rfl, rfl, rfl, ho, fun p hp he => hid ?_, Nat.le_succ _,
      fun _ => rfl⟩
    rw [List.contains_iff_mem, ← he]
    exact (hresolved p hp o (he ▸ ho)).2

/-- A new proxy is made under an id that no proxy had. -/
theorem enrolled (h : w.Proxied F g made room) (hs : w.machine.session = some s)
    (hid : id ≤ 2 ^ 53) (ho : s.registry.resolve? id = some o) (hfresh : ∀ p ∈ made, p.id ≠ id)
    {name : String} (hname : name ∈ proxyTableNames) {cell : HostObject}
    (hcell : w.objects.get? o.index = some cell)
    (hvisible : s.options.isBlacklisted cell.cls.namespaceName = false) :
    ∃ w' s' c, (do
        let u ← newUserdata (.proxy id) (← registryTable? name)
        rawSetInt s.objects id (.userdata u)
        setMaterialized id true
        return .userdata u : Action Value) w = (.userdata ⟨w.userdata.next⟩, w') ∧
      w'.Proxied F g (⟨⟨w.userdata.next⟩, id, o⟩ :: made) room ∧
      w'.machine.session = some s' ∧ s'.registry = s.registry ∧
      w'.proxyCell? w.userdata.next = some c ∧ c.payload = .proxy id := by
  let c : Userdata :=
    { payload := .proxy id, metatable := some (F.metatable name), home := F.home }
  let w₁ : World := { w with userdata := w.userdata.add c }
  let s' : Session := { s with materialized := id :: s.materialized.filter (· != id) }
  obtain ⟨table, htable, hkeeps⟩ := h.fitted.proxies s hs
  have htable' : w.table s.objects = table := by
    unfold World.table
    rw [htable]
    rfl
  have htable₁ : w₁.table s.objects = table := htable'
  let refs : List Ref := (Value.userdata ⟨w.userdata.next⟩).refs
  obtain ⟨x, hset⟩ :=
    rawSetInt_place hid (.userdata ⟨w.userdata.next⟩) s.objects w₁ (htable₁.symm ▸ hkeeps)
  rw [htable₁] at hset
  let table' : Table := (table.setKey (.integer id) (.number x) (.userdata ⟨w.userdata.next⟩)).1
  have hkeeps' : table'.KeepsPlaces := hkeeps.set id x ⟨w.userdata.next⟩
  let w₂ : World := w₁.withTable s.objects table' refs
  have hset : rawSetInt s.objects id (.userdata ⟨w.userdata.next⟩) w₁ = ((), w₂) := hset
  have hnew : newUserdata (.proxy id) (some (F.metatable name)) w = (⟨w.userdata.next⟩, w₁) := by
    have hhome := h.fitted.home
    unfold newUserdata
    show (_, { w with userdata := w.userdata.add ⟨_, _, w.machine.id, false⟩ }) = _
    rw [hhome]
  have hmaterialize : setMaterialized id true w₂ = ((), w₂.withSession s') :=
    setMaterialized_eq (w := w₂) hs id true
  have hplaces : table'.place? = fun i =>
      if i = id then some ⟨w.userdata.next⟩ else table.place? i :=
    funext fun i => hkeeps.place?_set id _ _ i
  have hcells : w₂.proxyCell? = fun i =>
      if i = w.userdata.next then some c else w.proxyCell? i := by
    funext i
    show ((w.userdata.add c).get? i).filter _ = _
    rw [w.userdata.get?_add i c]
    split <;> rfl
  have hnext : w₂.userdata.next = w.userdata.next + 1 := w.userdata.next_add c
  have hroster : (w₂.withSession s').roster g = (w.roster g).enrol F id (F.metatable name) := by
    have htable₂ : w₂.table s.objects = table' := World.table_withTable ⟨table, htable⟩ table' refs
    rw [roster_of_session (w := w₂.withSession s') rfl, roster_of_session hs, htable']
    have htable₃ : (w₂.withSession s').table s'.objects = table' := htable₂
    have hcells₃ : (w₂.withSession s').proxyCell? = fun i =>
        if i = w.userdata.next then some c else w.proxyCell? i := hcells
    have hnext₃ : (w₂.withSession s').userdata.next = w.userdata.next + 1 := hnext
    rw [htable₃, hcells₃, hnext₃, hplaces]
    rfl
  have hresolve : (w.roster g).registry.resolve? id = some o := by
    rw [roster_of_session hs]
    exact ho
  have hfitted : w₁.Fitted F := h.fitted.of_same rfl rfl rfl rfl rfl rfl rfl
  have hquiet : w₁.Quiet := by
    intro i d hd hother hlive t ht
    have hd : (w.userdata.add c).get? i = some d := hd
    rw [Store.get?_add] at hd
    split at hd
    · cases hd
      cases hother
    · exact h.quiet i d hd hother hlive t ht
  refine ⟨w₂.withSession s', s', c, ?_, ?_, rfl, rfl, ?_, rfl⟩
  · rw [bind_of_eq (h.fitted.registryTable?_eq hname), bind_of_eq hnew, bind_of_eq hset,
      bind_of_eq hmaterialize]
    rfl
  · exact {
      fitted := (hfitted.withPlaces hs hkeeps' refs).withSession hs rfl
      kept := by
        rw [hroster]
        exact h.kept.enrol hfresh hid hresolve ⟨name, hname, rfl⟩
      complete := fun hroom => by
        rw [hroster]
        exact (h.complete hroom).enrol h.kept hfresh o
      visible := fun s'' hs'' p hp o' ho' => by
        obtain rfl : s' = s'' := Option.some.inj hs''
        obtain rfl | hp := List.mem_cons.mp hp
        · obtain rfl : o' = o := Option.some.inj (ho'.symm.trans ho)
          exact ⟨cell, hcell, hvisible⟩
        · exact h.visible s hs p hp o' ho'
      notes := h.notes_withPlaces hs table' refs
      quiet := hfitted.quiet_withPlaces hs hquiet hkeeps' refs
      unmade := fun u hu hheld => by
        have hu : w₂.userdata.next ≤ u.index := hu
        have hheld : w₂.HoldsUserdata u := hheld.of_same rfl rfl rfl (List.Subset.refl _) rfl
        obtain hheld | hheld := hheld.of_withTable
        · exact h.unmade u (by omega) (hheld.of_same rfl rfl rfl (List.Subset.refl _) rfl)
        · exact hkeeps'.userdata_not_mem u hheld
      own := fun p hp hcontains => by
        obtain rfl | hp := List.mem_cons.mp hp
        · exact ⟨c, congrFun hcells _ |>.trans (if_pos rfl)⟩
        · have hlt : p.userdata.index < w.userdata.next := h.kept.begun p hp
          have hcontains : (w.userdata.add c).contains p.userdata.index = true := hcontains
          rw [Store.contains_eq, Store.get?_add_of_lt _ _ hlt] at hcontains
          obtain ⟨d, hd⟩ := h.own p hp hcontains
          exact ⟨d, congrFun hcells _ |>.trans ((if_neg (Nat.ne_of_lt hlt)).trans hd)⟩ }
  · exact congrFun hcells _ |>.trans (if_pos rfl)

/-- A place that points to a userdata which is there gives the proxy of its id. -/
theorem mem_of_place (h : w.Proxied F g made room) (hs : w.machine.session = some s)
    {u : UserdataRef} (hu : (w.table s.objects).place? id = some u)
    (hlive : w.isLive (.userdata u) = true) :
    ∃ p ∈ made, p.id = id ∧ p.userdata = u ∧
      ∃ c, w.proxyCell? u.index = some c ∧ c.payload = .proxy id := by
  have hplace : (w.roster g).place id = some u := by
    rw [roster_of_session hs]
    exact hu
  obtain ⟨p, hp, rfl, rfl⟩ := h.kept.placed id u hplace
  obtain ⟨c, hc⟩ := h.own p hp hlive
  have hcell : (w.roster g).cell p.userdata.index = some c := hc
  exact ⟨p, hp, rfl, rfl, c, hc, (h.kept.shown_of_mem hp hcell).1⟩

/-- Pushing an object that may be shown gives a proxy that finds it. -/
theorem handed (h : w.Proxied F g made room) {cell : HostObject}
    (hcell : w.objects.get? o.index = some cell)
    (hvisible : ∀ s, w.machine.session = some s →
      s.options.isBlacklisted cell.cls.namespaceName = false)
    (hsmall : w.lastId < 2 ^ 53) :
    ∃ p w' c, proxyOf o cell w = (.userdata p.userdata, w') ∧ p.object = o ∧
      w'.Proxied F g (made.insert p) room ∧ w'.Finds p.id o ∧
      w'.proxyCell? p.userdata.index = some c ∧ c.payload = .proxy p.id := by
  obtain ⟨s, hs⟩ := h.fitted.session
  obtain ⟨hpaired, hgiven, -, hmaterialized⟩ := h.kept_registry hs
  let id : Nat := (s.registry.expose ObjectRef.index o).1
  let s₁ : Session := { s with registry := (s.registry.expose ObjectRef.index o).2 }
  let w₁ : World := w.withSession s₁
  have hexpose : expose o w = (id, w₁) := expose_eq hs o
  have hw₁ : w₁.Proxied F g made room := by
    have hexposed := h.exposed o
    rwa [hexpose] at hexposed
  have hs₁ : w₁.machine.session = some s₁ := rfl
  have hfinds : s₁.registry.resolve? id = some o :=
    Registry.resolve?_expose hpaired (s.registry.apart_index o)
  obtain ⟨table, htable, hkeeps⟩ := hw₁.fitted.proxies s₁ hs₁
  have htable : w₁.table s₁.objects = table := by
    unfold World.table
    rw [htable]
    rfl
  have hget : rawGetInt s₁.objects id w₁ = (table.getInt w₁.isLive id, w₁) := by
    rw [← htable]
    rfl
  unfold proxyOf 
  rw [bind_of_eq hexpose, bind_of_eq (readSession_eq hs₁), bind_of_eq hget] 
  by_cases hplace : ∃ u, table.place? id = some u ∧ w₁.isLive (.userdata u) = true
  · obtain ⟨u, hu, hlive⟩ := hplace
    rw [hkeeps.getInt_of_live hu hlive]
    obtain ⟨p, hp, hpid, rfl, c, hc, hpayload⟩ := hw₁.mem_of_place hs₁ (htable.symm ▸ hu) hlive
    obtain ⟨-, -, hresolved, -⟩ := hw₁.kept_registry hs₁
    refine ⟨p, w₁, c, rfl, ?_, ?_, ⟨s₁, hs₁, hpid.symm ▸ hfinds⟩, hc, hpid.symm ▸ hpayload⟩
    · exact ((hresolved p hp o (hpid.symm ▸ hfinds)).1).symm
    · rw [List.insert_of_mem hp]
      exact hw₁
  · have hgone : table.getInt w₁.isLive id = .nil := by
      refine hkeeps.getInt_of_gone fun u hu => ?_
      rw [← Bool.not_eq_true]
      exact fun hlive => hplace ⟨u, hu, hlive⟩
    rw [hgone] 
    obtain ⟨id', w₂, s₂, hfresh, hw₂, hs₂, hoptions, hplaces, hobjects, hfinds₂,
      hnew, hlast, hsame⟩ :=
      hw₁.freshId hs₁ hfinds
    have hcell₂ : w₂.objects.get? o.index = some cell := by
      rw [hobjects]
      exact hcell
    have hvisible₂ : s₂.options.isBlacklisted cell.cls.namespaceName = false := by
      rw [hoptions]
      exact hvisible s hs
    have hid : id' ≤ 2 ^ 53 := by
      have hle : id' ≤ s₂.registry.lastId := (hw₂.kept_registry hs₂).1.resolve?_le hfinds₂
      have hsmall : s.registry.lastId < 2 ^ 53 := by
        unfold World.lastId at hsmall
        rwa [hs] at hsmall
      obtain he | ⟨hnext, he⟩ := s.registry.expose_lastId ObjectRef.index o
      · have he : s₁.registry.lastId = s.registry.lastId := congrArg _ he
        omega
      · -- A fresh id was given to no proxy, so no second one is needed.
        have hunused : id ∉ s₁.materialized := by
          intro hmem
          obtain ⟨p, hp, hpid⟩ := hmaterialized _ hmem
          have hgiven := hgiven p hp
          omega
        have he : s₁.registry.lastId = s.registry.lastId + 1 := he
        have hsame := hsame hunused
        omega
    obtain ⟨w₃, s₃, c, hrun, hw₃, hs₃, hregistry, hc, hpayload⟩ :=
      hw₂.enrolled hs₂ hid hfinds₂ hnew cell.proxyTableName_mem hcell₂ hvisible₂
    refine ⟨⟨⟨w₂.userdata.next⟩, id', o⟩, w₃, c, ?_, rfl, ?_, ⟨s₃, hs₃, ?_⟩, hc, hpayload⟩
    · show (ScriptBridge.freshId o id >>= _) w₁ = _
      rw [bind_of_eq hfresh]
      rw [hplaces] at hrun
      exact hrun
    · rw [List.insert_of_not_mem fun hmem => hnew _ hmem rfl]
      exact hw₃
    · rw [hregistry]
      exact hfinds₂

end World.Proxied

end ScriptBridge
