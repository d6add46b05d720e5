import ScriptBridge.Proofs.Bridge.Finalizing
import ScriptBridge.Proofs.Bridge.Opening
import ScriptBridge.Proofs.Bridge.Pushing
import ScriptBridge.Proofs.Stack.Discipline

/-!
# The identity of proxies over a session

`ProxyRun` are the worlds a session goes through while objects are pushed, ids are given and taken
back, values are dropped, memory is collected and finalizers are called, with the proxies that were
handed out on the way. Each step keeps `World.Proxied`, so every such world has it
(`ProxyRun.proxied`). What a proxy resolves to, and which userdata a push gives, is read off it.
-/

namespace ScriptBridge

variable {w : World} {F : Fixture} {g : Progress} {made : List Proxy} {room : Bool}
variable {o : ObjectRef} {u : UserdataRef}

/-! ## What pushing an object gives -/

theorem objectValue_of_gone (h : w.objects.get? o.index = none) : objectValue o w = (.nil, w) := by
  have hread : readObject? o w = (none, w) := congrArg (·, w) h
  unfold objectValue
  rw [bind_of_eq hread]
  rfl

theorem objectValue_of_session {s : Session} (hs : w.machine.session = some s) {cell : HostObject}
    (hcell : w.objects.get? o.index = some cell) : objectValue o w =
      if s.options.isBlacklisted cell.cls.namespaceName then (.text cell.text, w)
      else proxyOf o cell w := by
  have hread : readObject? o w = (some cell, w) := congrArg (·, w) hcell
  unfold objectValue
  rw [bind_of_eq hread]
  dsimp only
  rw [bind_of_eq (readSession_eq hs)]
  split <;> rfl

/-- The proxy that pushing an object hands out, if it hands out one. -/
def World.handed? (w : World) (o : ObjectRef) : Option Proxy :=
  match objectValue o w with
  | (.userdata u, w') => (w'.proxyId? (.userdata u)).map (⟨u, ·, o⟩)
  | _ => none

/-- A userdata with an id that finds an object resolves to it. -/
theorem World.objectBehind?_of_finds {id : Nat} {c : Userdata}
    (hc : w.proxyCell? u.index = some c) (hpayload : c.payload = .proxy id)
    (hfinds : w.Finds id o) :
    w.objectBehind? (.userdata u) = some o := by
  obtain ⟨s, hs, hresolve⟩ := hfinds
  unfold objectBehind?
  simp only [Option.bind_eq_bind, Option.bind_eq_some_iff]
  exact ⟨id, proxyId?_eq_some.mpr ⟨c, hc, hpayload⟩, s, hs, hresolve⟩

namespace World.Proxied

/-- Pushing any object keeps the invariant of proxies. -/
theorem pushedValue (h : w.Proxied F g made room) (o : ObjectRef) (hsmall : w.lastId < 2 ^ 53) :
    ∃ v w', objectValue o w = (v, w') ∧
      w'.Proxied F g ((w.handed? o).elim made made.insert) room ∧
      ∀ u, v = .userdata u → u.index < w'.userdata.next := by
  obtain ⟨s, hs⟩ := h.fitted.session
  have hnone {v : Value} (hv : ∀ u, v ≠ .userdata u) (he : objectValue o w = (v, w)) :
      w.handed? o = none := by
    unfold handed?
    rw [he]
    cases v with
    | userdata u => exact absurd rfl (hv u)
    | _ => rfl
  cases hcell : w.objects.get? o.index with
  | none =>
    have he := objectValue_of_gone hcell
    rw [hnone (v := .nil) (fun u => nofun) he]
    exact ⟨.nil, w, he, h, fun u hu => nomatch hu⟩
  | some cell =>
    have he := objectValue_of_session hs hcell
    cases hlisted : s.options.isBlacklisted cell.cls.namespaceName with
    | true =>
      rw [hlisted] at he
      rw [hnone (v := .text cell.text) (fun u => nofun) he]
      exact ⟨.text cell.text, w, he, h, fun u hu => nomatch hu⟩
    | false =>
      rw [hlisted] at he
      obtain ⟨p, w', c, hrun, rfl, hw', -, hc, hpayload⟩ := h.handed hcell
        (fun s' hs' => Option.some.inj (hs.symm.trans hs') ▸ hlisted) hsmall
      have he : objectValue p.object w = (.userdata p.userdata, w') := he.trans hrun
      have hhanded : w.handed? p.object = some p := by
        unfold handed?
        rw [he]
        dsimp only
        rw [proxyId?_eq_some.mpr ⟨c, hc, hpayload⟩]
        rfl
      rw [hhanded]
      refine ⟨_, w', he, hw', fun u hu => ?_⟩
      rw [← Value.userdata.inj hu]
      exact hw'.kept.begun p List.mem_insert_self

/-! ## What proxies resolve to -/

/-- A userdata that resolves is a proxy that was handed out, for the object it resolves to. -/
theorem behind (h : w.Proxied F {} made room) (hu : w.objectBehind? (.userdata u) = some o) :
    ∃ p ∈ made, p.userdata = u ∧ p.object = o ∧ w.Finds p.id o ∧
      ∃ c, w.proxyCell? u.index = some c ∧ c.payload = .proxy p.id := by
  unfold objectBehind? at hu
  simp only [Option.bind_eq_bind, Option.bind_eq_some_iff] at hu
  obtain ⟨id, hid, s, hs, hresolve⟩ := hu
  obtain ⟨c, hc, hpayload⟩ := proxyId?_eq_some.mp hid
  obtain ⟨-, -, hresolved, -⟩ := h.kept_registry hs
  obtain ⟨p, hp, hshown, hcase⟩ := h.kept.shown u.index c hc
  obtain rfl : p.id = id := Payload.proxy.inj (hshown.symm.trans hpayload)
  obtain ⟨rfl, hmem⟩ := hresolved p hp o hresolve
  obtain ⟨hi, -, -⟩ | ⟨-, hfinalized⟩ := hcase
  · exact ⟨p, hp, UserdataRef.ext hi, rfl, ⟨s, hs, hresolve⟩, c, hc, hpayload⟩
  · -- The id of a userdata that came back was taken back.
    have hmem : p.id ∈ (w.roster {}).materialized := by
      rw [roster_of_session hs]
      exact hmem
    exact absurd (h.kept.rested u.index c p.id hc hfinalized hpayload hmem) nofun

/-- An object has one id. -/
theorem id_unique (h : w.Proxied F g made room) {id id' : Nat} (hid : w.Finds id o)
    (hid' : w.Finds id' o) : id = id' := by
  obtain ⟨s, hs, hresolve⟩ := hid
  obtain ⟨s', hs', hresolve'⟩ := hid'
  obtain rfl : s = s' := Option.some.inj (hs.symm.trans hs')
  have hpaired := (h.kept_registry hs).1
  exact Option.some.inj
    ((hpaired.idOf?_of_resolve? hresolve).symm.trans (hpaired.idOf?_of_resolve? hresolve'))

/-- No two userdata resolve to one object. -/
theorem userdata_unique (h : w.Proxied F {} made room) {v : UserdataRef}
    (hu : w.objectBehind? (.userdata u) = some o) (hv : w.objectBehind? (.userdata v) = some o) :
    u = v := by
  obtain ⟨p, hp, rfl, -, hpid, -⟩ := h.behind hu
  obtain ⟨q, hq, rfl, -, hqid, -⟩ := h.behind hv
  rw [h.kept.byId p hp q hq (h.id_unique hpid hqid)]

/-- Pushing an object with a proxy that resolves to it gives this proxy, and changes nothing. -/
theorem objectValue_of_behind (h : w.Proxied F {} made room)
    (hu : w.objectBehind? (.userdata u) = some o) : objectValue o w = (.userdata u, w) := by
  obtain ⟨p, hp, rfl, rfl, ⟨s, hs, hresolve⟩, c, hc, hpayload⟩ := h.behind hu
  obtain ⟨cell, hcell, hlisted⟩ := h.visible s hs p hp p.object hresolve
  have hexpose : expose p.object w = (p.id, w) := by
    rw [expose_eq hs, (h.kept_registry hs).1.expose_of_resolve? hresolve, withSession_self hs]
  have hplace : (w.table s.objects).place? p.id = some p.userdata := by
    have hplace := (h.kept.shown_of_mem hp hc).2.2
    rw [roster_of_session hs] at hplace
    exact hplace
  have hlive : w.isLive (.userdata p.userdata) = true := by
    show w.userdata.contains p.userdata.index = true
    rw [Store.contains_eq, (proxyCell?_eq_some.mp hc).1]
    rfl
  obtain ⟨table, htable, hkeeps⟩ := h.fitted.proxies s hs
  have htable : w.table s.objects = table := by
    unfold World.table
    rw [htable]
    rfl
  have hget : rawGetInt s.objects p.id w = (.userdata p.userdata, w) := by
    have hget : rawGetInt s.objects p.id w =
        ((w.table s.objects).getInt w.isLive p.id, w) := rfl
    rw [hget, htable, hkeeps.getInt_of_live (htable ▸ hplace) hlive]
  rw [objectValue_of_session hs hcell, hlisted, if_neg Bool.false_ne_true]
  unfold proxyOf
  rw [bind_of_eq hexpose, bind_of_eq (readSession_eq hs), bind_of_eq hget]
  rfl

/-- Pushing an object that may be shown gives a proxy that resolves to it. -/
theorem behind_objectValue (h : w.Proxied F {} made room) {s : Session}
    (hs : w.machine.session = some s) {cell : HostObject}
    (hcell : w.objects.get? o.index = some cell)
    (hlisted : s.options.isBlacklisted cell.cls.namespaceName = false)
    (hsmall : w.lastId < 2 ^ 53) :
    ∃ u w', objectValue o w = (.userdata u, w') ∧ w'.objectBehind? (.userdata u) = some o := by
  obtain ⟨p, w', c, hrun, rfl, -, hfinds, hc, hpayload⟩ := h.handed hcell
    (fun s' hs' => Option.some.inj (hs.symm.trans hs') ▸ hlisted) hsmall
  rw [objectValue_of_session hs hcell, hlisted, if_neg Bool.false_ne_true]
  exact ⟨_, w', hrun, objectBehind?_of_finds hc hpayload hfinds⟩

/-- The finalizer of a proxy that is gone takes no id back from a proxy that resolves. -/
theorem behind_forget (h : w.Proxied F {} made room) {q : Pending} {id : Nat}
    (hq : q ∈ w.machine.graveyard) (hid : q.payload = .proxy id)
    (hu : w.objectBehind? (.userdata u) = some o) :
    (forget id w).2.objectBehind? (.userdata u) = some o := by
  obtain ⟨p, hp, rfl, rfl, ⟨s, hs, hresolve⟩, c, hc, hpayload⟩ := h.behind hu
  obtain ⟨-, q', hq', hq'id, hlacks⟩ := h.kept.pending q hq
  obtain rfl : q'.id = id := Payload.proxy.inj (hq'id.symm.trans hid)
  have hne : q'.id ≠ p.id := fun he => hlacks _ c hc (he ▸ hpayload)
  obtain ⟨tables, hforget, -⟩ := forget_world h.fitted hs (h.kept.exact q' hq')
  rw [hforget]
  refine objectBehind?_of_finds (c := c) hc hpayload ⟨_, rfl, ?_⟩
  have hgiven := (h.kept_registry hs).2.1 p hp
  refine (Registry.Change.resolve?_run (.revoke q'.id) hgiven).trans ?_
  rw [if_neg (fun hends : Registry.Change.Ends p.id (.revoke q'.id) => hne hends)]
  exact hresolve

/-- When nothing waits for its finalizer and no proxy was lost, an id that finds an object is that
of a proxy which is there, or was never given to a proxy. -/
theorem owned (h : w.Proxied F {} made true) (hgraveyard : w.machine.graveyard = []) {id : Nat}
    (hid : w.Finds id o) :
    (∃ p ∈ made, p.id = id ∧ w.proxyId? (.userdata p.userdata) = some id) ∨
      ∀ p ∈ made, p.id ≠ id := by
  by_cases hmade : ∃ p ∈ made, p.id = id
  · obtain ⟨p, hp, rfl⟩ := hmade
    obtain ⟨s, hs, hresolve⟩ := hid
    have hmem : p.id ∈ (w.roster {}).materialized := by
      rw [roster_of_session hs]
      exact ((h.kept_registry hs).2.2.1 p hp o hresolve).2
    obtain ⟨c, hc⟩ | ⟨q, hq, -⟩ := h.complete rfl p hp hmem
    · exact .inl ⟨p, hp, rfl, proxyId?_eq_some.mpr ⟨c, hc, (h.kept.shown_of_mem hp hc).1⟩⟩
    · have hq : q ∈ w.machine.graveyard := hq
      rw [hgraveyard] at hq
      cases hq
  · exact .inr fun p hp he => hmade ⟨p, hp, he⟩

end World.Proxied

/-! ## Runs -/

/-- The worlds a session goes through, the proxies that were handed out so far, and whether every
collection so far had room for the call of a finalizer. -/
inductive ProxyRun (limits : Limits) (options : Options) (adapters : AdapterPolicy) :
    World → List Proxy → Bool → Prop
  | opened : ProxyRun limits options adapters (.opened limits options adapters) [] true
  /-- An object is pushed, with fewer than `2 ^ 53` ids given before. -/
  | pushed {w : World} {made : List Proxy} {room : Bool}
      (h : ProxyRun limits options adapters w made room) (o : ObjectRef)
      (hsmall : w.lastId < 2 ^ 53) :
      ProxyRun limits options adapters (pushObject o w).2
        ((w.handed? o).elim made made.insert) room
  /-- Values are dropped from the stack. -/
  | dropped {w : World} {made : List Proxy} {room : Bool}
      (h : ProxyRun limits options adapters w made room) (n : Int) :
      ProxyRun limits options adapters (setTop n w).2 made room
  | settled {w : World} {made : List Proxy} {room : Bool}
      (h : ProxyRun limits options adapters w made room) :
      ProxyRun limits options adapters w.settle made room
  | exposed {w : World} {made : List Proxy} {room : Bool}
      (h : ProxyRun limits options adapters w made room) (o : ObjectRef) :
      ProxyRun limits options adapters (expose o w).2 made room
  | revoked {w : World} {made : List Proxy} {room : Bool}
      (h : ProxyRun limits options adapters w made room) (id : Nat) :
      ProxyRun limits options adapters (revoke id w).2 made room
  | collected {w w' : World} {made : List Proxy} {room : Bool} {d n : Nat}
      (h : ProxyRun limits options adapters w made room)
      (hrun : collect (.ofDepth (d + 1)) w = .ok n w') :
      ProxyRun limits options adapters w' made (room && !w.machine.isTooDeep)
  /-- A script calls the finalizer of proxies with any arguments. -/
  | called {w : World} {made : List Proxy} {room : Bool} {nargs : Int} {pos : Nat}
      {f : FunctionRef} (h : ProxyRun limits options adapters w made room)
      (hcall : w.Calls nargs pos f) (d : Nat) (wanted : Int) :
      ProxyRun limits options adapters (attempt (call (.ofDepth (d + 1)) nargs wanted) w).2 made
        room
  /-- Anything else happens that leaves proxies and what they rest on as they are. -/
  | other {w w' : World} {made : List Proxy} {room : Bool}
      (h : ProxyRun limits options adapters w made room) (hsame : w.SameProxies w')
      (hframe : w'.machine.HasFrame) : ProxyRun limits options adapters w' made room

section

variable {limits : Limits} {options : Options} {adapters : AdapterPolicy}

/-- Dropping values cuts the stack or fills it up, and looks at what that let go of. -/
theorem exists_setTop (n : Int) (w : World) : ∃ size, w.machine.base ≤ size ∧
    (setTop n w).2 = ({ w with
      machine := (w.machine.resize size).1
      dropped := w.dropped ++ ((w.machine.resize size).2.flatMap Value.refs).map
        (Dropped.mk · none) } : World).settle := by
  refine ⟨w.machine.base + if n < 0 then (w.machine.top + n + 1).toNat else n.toNat,
    Nat.le_add_right _ _, ?_⟩
  have hdiscard := discard_eq ((w.machine.setTop n).2.flatMap Value.refs) none
    { w with machine := (w.machine.setTop n).1 }
  have hrun : setTop n w = ((),
      (discard ((w.machine.setTop n).2.flatMap Value.refs) none
        { w with machine := (w.machine.setTop n).1 }).2.settle) := rfl
  rw [hrun, hdiscard]
  rfl

theorem World.Proxied.droppedTo (h : w.Proxied F g made room) (n : Int) :
    (setTop n w).2.Proxied F g made room := by
  obtain ⟨size, -, hrun⟩ := exists_setTop n w
  have hcovered := h.covered (w.machine.resize_covers size) w.machine.frames
    ((w.machine.resize size).2.flatMap Value.refs)
  rw [hrun, Machine.resize_eq]
  exact hcovered.settled

theorem Machine.hasFrame_resize {m : Machine} {size : Nat} (h : m.base ≤ size) :
    (m.resize size).1.HasFrame := by
  unfold resize
  split
  · rename_i hsize
    have hlength : (m.stack.take size).size = size := by
      rw [← Array.length_toList, toList_takeSlots, List.length_take, Array.length_toList,
        Nat.min_eq_left hsize]
    show m.base ≤ (m.stack.take size).size
    rwa [hlength]
  · show m.base ≤ (m.stack ++ Array.replicate (size - m.stack.size) Value.nil).size
    rw [Array.size_append, Array.size_replicate]
    omega

theorem hasFrame_setTop (n : Int) (w : World) : (setTop n w).2.machine.HasFrame := by
  obtain ⟨size, hsize, hrun⟩ := exists_setTop n w
  rw [hrun]
  exact (World.settle_sameStack _).hasFrame (Machine.hasFrame_resize hsize)

theorem hasFrame_call {nargs : Int} {pos : Nat}
    (hslot : w.machine.calleeSlot? nargs.toNat = some pos) (d : Nat) (wanted : Int) :
    (attempt (call (.ofDepth d) nargs wanted) w).2.machine.HasFrame := by
  have hslots : nargs.toNat + 1 ≤ w.machine.stack.size ∧
      w.machine.base ≤ w.machine.stack.size - (nargs.toNat + 1) := by
    unfold Machine.calleeSlot? at hslot
    split at hslot
    · rename_i hcond
      rwa [Bool.and_eq_true, decide_eq_true_iff, decide_eq_true_iff] at hcond
    · cases hslot
  have hroom : nargs.toNat < w.machine.top := by
    unfold Machine.top
    omega
  have hleft {w' : World} {vs : List Value} (h : w.Left w' nargs vs) : w'.machine.HasFrame := by
    obtain ⟨hframes, hstack⟩ := h
    have hsize := congrArg List.length hstack
    rw [List.length_append, List.length_take, Array.length_toList, Array.length_toList] at hsize
    unfold Machine.HasFrame
    rw [show w'.machine.base = w.machine.base from congrArg
      (fun frames : List Frame => (frames.head?.map Frame.base).getD 0) hframes]
    omega
  have hcall := call_left (Engine.ofDepth_framed d).run wanted hroom
  cases hrun : call (.ofDepth d) nargs wanted w with
  | ok _ w' =>
    rw [hrun] at hcall
    obtain ⟨f, stack, n, w₂, -, -, hw'⟩ := hcall
    rw [attempt_of_ok hrun]
    exact hleft hw'
  | error e w' =>
    rw [hrun] at hcall
    rw [attempt_of_error hrun]
    exact hleft hcall

/-- Every world of a run has the invariant of proxies. -/
theorem ProxyRun.proxied (h : ProxyRun limits options adapters w made room) :
    (∃ F, w.Proxied F {} made room) ∧ w.machine.HasFrame := by
  induction h with
  | opened => exact World.opened_proxied limits options adapters
  | @pushed w made room h o hsmall ih =>
    obtain ⟨⟨F, hw⟩, hframe⟩ := ih
    refine ⟨⟨F, ?_⟩, ?_⟩
    · obtain ⟨v, w', hvalue, hw', hv⟩ := hw.pushedValue o hsmall
      unfold pushObject
      rw [bind_of_eq hvalue]
      exact hw'.onStack hv
    · exact (Leads.pushObject (n := 0) o hframe w (.refl _)).hasFrame hframe
  | @dropped w made room h n ih =>
    obtain ⟨⟨F, hw⟩, -⟩ := ih
    exact ⟨⟨F, hw.droppedTo n⟩, hasFrame_setTop n w⟩
  | @settled w made room h ih =>
    obtain ⟨⟨F, hw⟩, hframe⟩ := ih
    exact ⟨⟨F, hw.settled⟩, w.settle_sameStack.hasFrame hframe⟩
  | @exposed w made room h o ih =>
    obtain ⟨⟨F, hw⟩, hframe⟩ := ih
    have hsame := ((orderly_expose o).stackFree w.machine hframe w (.refl _)).2
    exact ⟨⟨F, hw.exposed o⟩, hsame.hasFrame hframe⟩
  | @revoked w made room h id ih =>
    obtain ⟨⟨F, hw⟩, hframe⟩ := ih
    have hsame := ((orderly_revoke id).stackFree w.machine hframe w (.refl _)).2
    exact ⟨⟨F, hw.revoked id⟩, hsame.hasFrame hframe⟩
  | @collected w w' made room d n h hrun ih =>
    obtain ⟨⟨F, hw⟩, hframe⟩ := ih
    have hweak : w.Proxied F {} made (room && !w.machine.isTooDeep) :=
      { hw with complete := fun hroom => hw.complete (Bool.and_eq_true_iff.mp hroom).1 }
    obtain ⟨n', w'', hrun', hw'', hsame, -⟩ := hweak.collectsAll (d := d) hframe
      fun hroom => Bool.not_eq_true' _ ▸ (Bool.and_eq_true_iff.mp hroom).2
    obtain ⟨rfl, rfl⟩ := EStateM.Result.ok.inj (hrun.symm.trans hrun')
    exact ⟨⟨F, hw''⟩, hsame.hasFrame hframe⟩
  | @called w made room nargs pos f h hcall d wanted ih =>
    obtain ⟨⟨F, hw⟩, -⟩ := ih
    refine ⟨⟨F, ?_⟩, hasFrame_call hcall.slot _ wanted⟩
    cases hdeep : w.machine.isTooDeep with
    | true =>
      rw [attempt_of_error (call_finalizer_deep hcall hdeep wanted)]
      exact (hw.cutTo pos _).settled
    | false =>
      have hcomplete (hroom : room = true) :
          ((w.roster {}).retake? (w.proxyId? (w.machine.argument pos))).Complete made := by
        cases w.proxyId? (w.machine.argument pos) with
        | none => exact hw.complete hroom
        | some id => exact (hw.complete hroom).retake id
      obtain ⟨w', hrun, hw'⟩ := hw.weaken.called (d := d) hcall hdeep wanted
        (fun id he => nomatch he) hcomplete
      rw [attempt_of_ok hrun]
      exact hw'
  | other h hsame hframe ih =>
    obtain ⟨⟨F, hw⟩, -⟩ := ih
    exact ⟨⟨F, hsame.proxied hw⟩, hframe⟩

/-- The identity of proxies. In every world a session comes to, a userdata resolves to nothing but
the object it was handed out for; no two resolve to one object; pushing an object with a proxy that
resolves to it gives that userdata; pushing any other object that may be shown gives one that
resolves to it, and no finalizer that is still to run takes its id back. A collection comes to an
end, and if all collections had room to call finalizers, every id that is left belongs to a proxy
that is there, or was never given to a proxy. -/
theorem ProxyRun.identity (h : ProxyRun limits options adapters w made room) :
    (∀ p ∈ made, ∀ o, w.objectBehind? (.userdata p.userdata) = some o → o = p.object) ∧
    (∀ u o, w.objectBehind? (.userdata u) = some o → ∃ p ∈ made, p.userdata = u ∧ p.object = o) ∧
    (∀ u v o, w.objectBehind? (.userdata u) = some o → w.objectBehind? (.userdata v) = some o →
      u = v) ∧
    (∀ u o, w.objectBehind? (.userdata u) = some o → objectValue o w = (.userdata u, w)) ∧
    (∀ s o cell, w.machine.session = some s → w.objects.get? o.index = some cell →
      s.options.isBlacklisted cell.cls.namespaceName = false → w.lastId < 2 ^ 53 →
      ∃ u w', objectValue o w = (.userdata u, w') ∧ w'.objectBehind? (.userdata u) = some o) ∧
    (∀ q ∈ w.machine.graveyard, ∀ id, q.payload = .proxy id →
      ∀ u o, w.objectBehind? (.userdata u) = some o →
        (forget id w).2.objectBehind? (.userdata u) = some o) ∧
    ∀ d, ∃ n w', collect (.ofDepth (d + 1)) w = .ok n w' ∧
      (room = true → w.machine.isTooDeep = false → ∀ id o, w'.Finds id o →
        (∃ p ∈ made, p.id = id ∧ w'.proxyId? (.userdata p.userdata) = some id) ∨
          ∀ p ∈ made, p.id ≠ id) := by
  obtain ⟨⟨F, hw⟩, hframe⟩ := h.proxied
  have hbehind {u : UserdataRef} {o : ObjectRef} (hu : w.objectBehind? (.userdata u) = some o) :
      ∃ p ∈ made, p.userdata = u ∧ p.object = o := by
    obtain ⟨p, hp, hpu, hpo, -⟩ := hw.behind hu
    exact ⟨p, hp, hpu, hpo⟩
  refine ⟨fun p hp o ho => ?_, fun u o => hbehind, fun u v o => hw.userdata_unique,
    fun u o => hw.objectValue_of_behind,
    fun s o cell hs hcell hlisted hsmall => hw.behind_objectValue hs hcell hlisted hsmall,
    fun q hq id hid u o => hw.behind_forget hq hid, fun d => ?_⟩
  · obtain ⟨q, hq, hqu, rfl⟩ := hbehind ho
    rw [hw.kept.byUserdata q hq p hp hqu]
  · have hweak : w.Proxied F {} made (room && !w.machine.isTooDeep) :=
      { hw with complete := fun hroom => hw.complete (Bool.and_eq_true_iff.mp hroom).1 }
    obtain ⟨n, w', hrun, hw', -, hgraveyard⟩ := hweak.collectsAll (d := d) hframe
      fun hroom => Bool.not_eq_true' _ ▸ (Bool.and_eq_true_iff.mp hroom).2
    refine ⟨n, w', hrun, fun hroom hdeep id o hid => ?_⟩
    rw [hroom, hdeep] at hw'
    exact World.Proxied.owned hw' hgraveyard hid

/-! ## Runs of one object -/

/-- An object is made while no id finds any. -/
theorem sameProxies_newObject (cls : Class) (data : ObjectData) (hnone : ∀ o, ¬ w.Exposes o) :
    w.SameProxies (newObject cls data w).2 where
  id := rfl
  registry := rfl
  appData := rfl
  nextRef := Int.le_refl _
  graveyard := rfl
  session := rfl
  next := Nat.le_refl _
  cells := rfl
  stay _ _ h := h
  quiet h := h
  unmade _ _ h := h.of_same rfl rfl rfl (List.Subset.refl _) rfl
  names t ht := ⟨t, ht, fun _ _ => rfl⟩
  metatables _ _ := rfl
  finalizers _ _ _ _ := rfl
  proxies _ _ := rfl
  exposed o ho := absurd ho (hnone o)
  notes _ hd := .inl hd

/-- A session in which an object was made. -/
def World.furnished (options : Options) : World :=
  (newObject eventClass .foreign (World.opened {} options .build)).2

/-- The object was pushed. -/
def World.presented (options : Options) : World :=
  (pushObject ⟨0⟩ (World.furnished options)).2

/-- The object was pushed and its proxy dropped again. -/
def World.deserted (options : Options) : World :=
  (setTop 0 (World.presented options)).2

/-- Making an object while no id finds any is a step of a run. -/
theorem ProxyRun.equipped (h : ProxyRun limits options adapters w made room)
    (hnone : w.machine.session.map (·.registry.objects) = some []) (cls : Class)
    (data : ObjectData) : ProxyRun limits options adapters (newObject cls data w).2 made room := by
  refine h.other (sameProxies_newObject cls data ?_) h.proxied.2
  rintro o ⟨s, id, hs, hresolve⟩
  rw [hs] at hnone
  have hobjects : s.registry.objects = [] := Option.some.inj hnone
  unfold Registry.resolve? at hresolve
  rw [hobjects] at hresolve
  cases hresolve

/-- Pushing an object that has no proxy yet. -/
theorem ProxyRun.visited (h : ProxyRun limits options adapters w [] room) {p : Proxy}
    (hsmall : w.lastId < 2 ^ 53) (hhanded : w.handed? o = some p) :
    ProxyRun limits options adapters (pushObject o w).2 [p] room := by
  have hpushed := h.pushed o hsmall
  rw [hhanded] at hpushed
  exact hpushed

theorem furnished_run
    (hnone : (World.opened {} options .build).machine.session.map (·.registry.objects) = some []) :
    ProxyRun {} options .build (.furnished options) [] true :=
  ProxyRun.opened.equipped hnone eventClass .foreign

theorem presented_run
    (hnone : (World.opened {} options .build).machine.session.map (·.registry.objects) = some [])
    (hsmall : (World.furnished options).lastId < 2 ^ 53)
    (hhanded : (World.furnished options).handed? ⟨0⟩ = some ⟨⟨0⟩, 1, ⟨0⟩⟩) :
    ProxyRun {} options .build (.presented options) [⟨⟨0⟩, 1, ⟨0⟩⟩] true := by
  unfold World.presented
  exact (furnished_run hnone).visited hsmall hhanded

theorem ProxyRun.deserted {p : Proxy}
    (h : ProxyRun {} options .build (.presented options) [p] true) :
    ProxyRun {} options .build (.deserted options) [p] true := by
  unfold World.deserted
  exact h.dropped 0

/-- With room for a call the finalizer takes the id of the dropped proxy back. -/
theorem identity_deserted : ProxyRun {} {} .build (.deserted {}) [⟨⟨0⟩, 1, ⟨0⟩⟩] true ∧
    (World.deserted {}).machine.isTooDeep = false ∧
    ∃ n w', collect (.ofDepth 1) (World.deserted {}) = .ok n w' ∧
      ∀ id o, w'.Finds id o → (∃ p ∈ [(⟨⟨0⟩, 1, ⟨0⟩⟩ : Proxy)], p.id = id ∧
        w'.proxyId? (.userdata p.userdata) = some id) ∨
          ∀ p ∈ [(⟨⟨0⟩, 1, ⟨0⟩⟩ : Proxy)], p.id ≠ id := by
  have hrun : ProxyRun {} {} .build (.deserted {}) [⟨⟨0⟩, 1, ⟨0⟩⟩] true :=
    (presented_run (by decide +kernel) (by decide +kernel) (by decide +kernel)).deserted
  have hroom : (World.deserted {}).machine.isTooDeep = false := by decide +kernel
  obtain ⟨-, -, -, -, -, -, hcollect⟩ := hrun.identity
  obtain ⟨n, w', hcollected, howned⟩ := hcollect 0
  exact ⟨hrun, hroom, n, w', hcollected, howned rfl hroom⟩

/-- Where calls may not nest at all, collecting memory does not run the finalizer: the id of the
dropped proxy still finds its object, and no userdata has it. -/
theorem id_outlives_proxy : ∃ w n w' made, ProxyRun {} { maxCallDepth := 0 } .build w made true ∧
    w.lastId < 2 ^ 53 ∧ collect (.ofDepth 1) w = .ok n w' ∧
    (∃ o, w'.Finds 1 o) ∧ (∃ p ∈ made, p.id = 1) ∧ ∀ u, w'.proxyId? (.userdata u) ≠ some 1 := by
  have hrun : ProxyRun {} { maxCallDepth := 0 } .build (.deserted { maxCallDepth := 0 })
      [⟨⟨0⟩, 1, ⟨0⟩⟩] true :=
    (presented_run (by decide +kernel) (by decide +kernel) (by decide +kernel)).deserted
  have hleft : (match collect (.ofDepth 1) (World.deserted { maxCallDepth := 0 }) with
      | .ok _ w' => (w'.machine.session.bind (·.registry.resolve? 1)).isSome &&
          !w'.userdata.any fun _ => true
      | .error _ _ => false) = true := by decide +kernel
  cases hcollect : collect (.ofDepth 1) (World.deserted { maxCallDepth := 0 }) with
  | error e w' =>
    rw [hcollect] at hleft
    cases hleft
  | ok n w' =>
    rw [hcollect] at hleft
    obtain ⟨hfound, hnone⟩ := Bool.and_eq_true_iff.mp hleft
    obtain ⟨o, ho⟩ := Option.isSome_iff_exists.mp hfound
    obtain ⟨s, hs, hresolve⟩ := Option.bind_eq_some_iff.mp ho
    refine ⟨_, n, w', _, hrun, by decide +kernel, hcollect, ⟨o, s, hs, hresolve⟩,
      ⟨_, List.mem_singleton.mpr rfl, rfl⟩, fun u hu => ?_⟩
    obtain ⟨c, hc, -⟩ := World.proxyId?_eq_some.mp hu
    have hany : (w'.userdata.any fun _ => true) = true :=
      (Store.any_eq_true _ _).mpr ⟨u.index, c, (World.proxyCell?_eq_some.mp hc).1, rfl⟩
    rw [hany] at hnone
    cases hnone

end

end ScriptBridge
