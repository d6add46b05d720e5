import ScriptBridge.Proofs.Bridge.Places
import ScriptBridge.Proofs.Memory.Finalizers
import ScriptBridge.Proofs.Stack.Balance

/-!
# Finalizers of proxies

The finalizer of a proxy runs in a call like any other function, when memory is collected or because
a script calls it. It takes the id of its argument back. There is one way it does not come to run:
the calls under way leave no room for one more. Then the id stays given though its proxy is gone.

1. A call of the finalizer keeps the invariant of proxies (`called`, `overflowed`).
2. So does bringing a dead proxy back and calling its finalizer (`finalized`).
3. A collection ends after three rounds at most, because finalizers let no proxy die.
-/

namespace ScriptBridge

variable {w : World} {F : Fixture} {g : Progress} {made : List Proxy} {room : Bool}

/-! ## Changes of the stack -/

/-- A value that is not on the old stack, or any other userdata that was not made yet, is not on
the new one. -/
def Machine.Covers (m : Machine) (stack : Array Value) : Prop :=
  ∀ v ∈ stack, v ∈ m.stack ∨ v = .nil

theorem Machine.truncate_covers (m : Machine) (n : Nat) : m.Covers (m.truncate n).1.stack := by
  intro v hv
  have hv : v ∈ (m.stack.take n).toList := Array.mem_toList_iff.mpr hv
  rw [toList_takeSlots] at hv
  exact .inl (Array.mem_toList_iff.mp (List.mem_of_mem_take hv))

theorem Machine.resize_covers (m : Machine) (n : Nat) : m.Covers (m.resize n).1.stack := by
  unfold resize
  split
  · exact m.truncate_covers n
  · intro v hv
    obtain hv | hv := Array.mem_append.mp hv
    · exact .inl hv
    · exact .inr (Array.mem_replicate.mp hv).2

theorem Machine.returnResults_covers (m : Machine) (pos n : Nat) (wanted : Int) :
    m.Covers (m.returnResults pos n wanted).1.stack := by
  have hreturned : m.Covers (((m.stack.take (m.stack.size - min n (m.stack.size - (pos + 1)))).take
      pos) ++ m.stack.extract (m.stack.size - min n (m.stack.size - (pos + 1))) m.stack.size) := by
    intro v hv
    obtain hv | hv := Array.mem_append.mp hv
    · obtain hv | hv := Machine.truncate_covers { m with stack := m.stack.take _ } pos v hv
      · exact m.truncate_covers _ v hv
      · exact .inr hv
    · have hv := Array.mem_toList_iff.mpr hv
      rw [Array.toList_extract, List.extract_eq_take_drop] at hv
      exact .inl (Array.mem_toList_iff.mp (List.mem_of_mem_drop (List.mem_of_mem_take hv)))
  unfold returnResults truncate
  dsimp only
  split
  · intro v hv
    obtain hv | hv := Machine.resize_covers { m with stack := _ } _ v hv
    · exact hreturned v hv
    · exact .inr hv
  · exact hreturned

namespace World.Proxied

/-- A userdata on the stack was made. -/
theorem lt_next (h : w.Proxied F g made room) {u : UserdataRef}
    (hu : Value.userdata u ∈ w.machine.stack) : u.index < w.userdata.next :=
  Nat.lt_of_not_le fun hle => h.unmade u hle (.inl ⟨_, List.mem_cons_self, hu⟩)

/-- Slots and calls under way change, and references are let go of. -/
theorem restacked (h : w.Proxied F g made room) {stack : Array Value}
    (hstack : ∀ u, Value.userdata u ∈ stack → u.index < w.userdata.next) (frames : List Frame)
    (refs : List Ref) :
    { w with
      machine := { w.machine with stack, frames }
      dropped := w.dropped ++ refs.map (Dropped.mk · none) }.Proxied F g made room := by
  refine (SameProxies.of_machine { w.machine with stack, frames } w.held _ rfl rfl rfl rfl rfl rfl
    (fun u hu hle => absurd (hstack u hu) (Nat.not_lt.mpr hle))
    (fun _ hu _ => .inr (.inr (.inl hu))) fun d hd => ?_).proxied h
  obtain hd | hd := List.mem_append.mp hd
  · exact .inl hd
  · obtain ⟨r, -, rfl⟩ := List.mem_map.mp hd
    exact .inr fun t _ => (Option.some_ne_none t).symm

/-- A value that was made is pushed. -/
theorem onStack (h : w.Proxied F g made room) {v : Value}
    (hv : ∀ u, v = .userdata u → u.index < w.userdata.next) :
    { w with machine := w.machine.push v }.Proxied F g made room := by
  have hstack (u : UserdataRef) (hu : Value.userdata u ∈ w.machine.stack.push v) :
      u.index < w.userdata.next := by
    obtain hu | hu := Array.mem_push.mp hu
    · exact h.lt_next hu
    · exact hv u hu.symm
  have hpushed := h.restacked hstack w.machine.frames []
  rw [List.map_nil, List.append_nil] at hpushed
  exact hpushed

theorem covered (h : w.Proxied F g made room) {stack : Array Value}
    (hcovers : w.machine.Covers stack) (frames : List Frame) (refs : List Ref) :
    { w with
      machine := { w.machine with stack, frames }
      dropped := w.dropped ++ refs.map (Dropped.mk · none) }.Proxied F g made room :=
  h.restacked (fun _ hu => (hcovers _ hu).elim h.lt_next nofun) frames refs

end World.Proxied

/-- The world with its stack cut at a position and some more references let go of. -/
def World.cutTo (w : World) (pos : Nat) (refs : List Ref) : World :=
  { w with
    machine := (w.machine.truncate pos).1
    dropped := w.dropped ++ ((w.machine.truncate pos).2.flatMap Value.refs ++ refs).map
      (Dropped.mk · none) }

theorem cut_eq (pos : Nat) (refs : List Ref) (w : World) :
    cut pos refs w = ((), w.cutTo pos refs) :=
  discard_eq ((w.machine.truncate pos).2.flatMap Value.refs ++ refs) none
    { w with machine := (w.machine.truncate pos).1 }

theorem World.Proxied.cutTo (h : w.Proxied F g made room) (pos : Nat) (refs : List Ref) :
    (w.cutTo pos refs).Proxied F g made room :=
  h.covered (w.machine.truncate_covers pos) w.machine.frames _

theorem World.Calm.cutTo (h : w.Calm F) {pos : Nat} {refs : List Ref}
    (hstack : ∀ v ∈ w.machine.stack.toList.drop pos, ∀ r ∈ v.refs, w.Tame F r)
    (hrefs : ∀ r ∈ refs, w.Tame F r) : (w.cutTo pos refs).Calm F := by
  have htame (r : Ref) (hr : r ∈ (w.machine.truncate pos).2.flatMap Value.refs ++ refs) :
      w.Tame F r := by
    obtain hr | hr := List.mem_append.mp hr
    · obtain ⟨v, hv, hr⟩ := List.mem_flatMap.mp hr
      exact hstack v hv r hr
    · exact hrefs r hr
  exact h.discarded htame rfl rfl rfl

/-! ## The body of the finalizer -/

theorem World.proxyId?_eq_some {u : UserdataRef} {id : Nat} :
    w.proxyId? (.userdata u) = some id ↔
      ∃ c, w.proxyCell? u.index = some c ∧ c.payload = .proxy id := by
  unfold World.proxyId?
  dsimp only
  constructor
  · intro h
    split at h
    · rename_i hc
      cases h
      exact ⟨_, proxyCell?_eq_some.mpr ⟨hc, rfl⟩, rfl⟩
    · cases h
  · rintro ⟨⟨payload, t, home, finalized⟩, hc, hpayload⟩
    obtain rfl : payload = .proxy id := hpayload
    rw [(proxyCell?_eq_some.mp hc).1]

theorem World.Fitted.session?_eq (h : w.Fitted F) : w.session? = w.machine.session := by
  unfold World.session?
  rw [h.attached]
  rfl

theorem proxyCollected_fst (w : World) : (proxyCollected w).1 = 0 := by
  have hvalue : valueAt 1 w = (w.machine.value 1, w) := rfl
  unfold proxyCollected
  rw [bind_of_eq (get_eq w), bind_of_eq hvalue]
  cases w.proxyId? (w.machine.value 1) <;> cases w.session? <;> rfl

theorem proxyCollected_eq (h : w.Fitted F) : proxyCollected w =
    (0, match w.proxyId? (w.machine.value 1) with
      | some id => (forget id w).2
      | none => w) := by
  obtain ⟨s, hs⟩ := h.session
  have hvalue : valueAt 1 w = (w.machine.value 1, w) := rfl
  unfold proxyCollected
  rw [bind_of_eq (get_eq w), bind_of_eq hvalue, h.session?_eq, hs]
  cases w.proxyId? (w.machine.value 1) with
  | none => rfl
  | some id => rfl

namespace World.Proxied

/-- A userdata with an id has that of a proxy that was handed out. -/
theorem exists_of_proxyId? (h : w.Proxied F g made room) {v : Value} {id : Nat}
    (hid : w.proxyId? v = some id) : ∃ p ∈ made, p.id = id := by
  cases v with
  | userdata u =>
    obtain ⟨c, hc, hpayload⟩ := proxyId?_eq_some.mp hid
    obtain ⟨p, hp, hshown, -⟩ := h.kept.shown u.index c hc
    exact ⟨p, hp, Payload.proxy.inj (hshown.symm.trans hpayload)⟩
  | _ => cases hid

/-- A userdata that came back is no longer late once its id was taken back, or once it is gone. -/
theorem caughtUp (h : w.Proxied F g made room) (hlate : ∀ id, g.late = some id →
    id ∉ (w.roster g).materialized ∨ (w.roster g).Lacks id) :
    w.Proxied F { g with late := none } made room :=
  { h with
    kept := h.kept.caughtUp hlate
    complete := h.complete }

/-- The finalizer takes the id of its argument back. -/
theorem collected (h : w.Proxied F g made false)
    (hlate : ∀ id, g.late = some id → w.proxyId? (w.machine.value 1) = some id)
    (hcomplete : room = true →
      ((w.roster g).retake? (w.proxyId? (w.machine.value 1))).Complete made) :
    (proxyCollected w).2.Proxied F { g with late := none } made room := by
  rw [proxyCollected_eq h.fitted]
  cases hid : w.proxyId? (w.machine.value 1) with
  | none =>
    rw [hid] at hlate hcomplete
    have hkept := h.caughtUp fun id he => absurd (hlate id he) nofun
    exact { hkept with complete := hcomplete }
  | some id =>
    rw [hid] at hlate hcomplete
    obtain ⟨p, hp, rfl⟩ := h.exists_of_proxyId? hid
    obtain ⟨s, hs⟩ := h.fitted.session
    obtain ⟨tables, hforget, -⟩ := forget_world h.fitted hs (h.kept.exact p hp)
    refine (h.forgotten (h.kept.exact p hp) hcomplete).caughtUp fun id he => .inl ?_
    obtain rfl : p.id = id := Option.some.inj (hlate id he)
    rw [hforget]
    exact fun hmem => (Roster.mem_filter_ne.mp hmem).2 rfl

end World.Proxied

/-- The finalizer changes nothing of the machine but its session, and no userdata. -/
theorem World.Proxied.proxyCollected_machine (h : w.Proxied F g made room) :
    (∃ session, (proxyCollected w).2.machine = { w.machine with session }) ∧
      (proxyCollected w).2.userdata = w.userdata := by
  rw [proxyCollected_eq h.fitted]
  cases hid : w.proxyId? (w.machine.value 1) with
  | none => exact ⟨⟨w.machine.session, rfl⟩, rfl⟩
  | some id =>
    obtain ⟨p, hp, rfl⟩ := h.exists_of_proxyId? hid
    obtain ⟨s, hs⟩ := h.fitted.session
    obtain ⟨tables, hforget, -⟩ := forget_world h.fitted hs (h.kept.exact p hp)
    dsimp only
    rw [hforget]
    exact ⟨⟨_, rfl⟩, rfl⟩

theorem World.Calm.collected (h : w.Calm F) (hw : w.Proxied F g made room) :
    (proxyCollected w).2.Calm F := by
  rw [proxyCollected_eq hw.fitted]
  cases hid : w.proxyId? (w.machine.value 1) with
  | none => exact h
  | some id =>
    obtain ⟨p, hp, rfl⟩ := hw.exists_of_proxyId? hid
    obtain ⟨s, hs⟩ := hw.fitted.session
    obtain ⟨tables, hforget, -⟩ := forget_world hw.fitted hs (hw.kept.exact p hp)
    dsimp only
    rw [hforget]
    refine h.discarded (fun r hr => ?_) rfl rfl rfl
    obtain ⟨o, -, rfl⟩ := Option.map_eq_some_iff.mp (Option.mem_toList.mp hr)
    trivial

/-! ## Calls of the finalizer -/

/-- The function runs the finalizer of proxies. -/
def World.IsFinalizer (w : World) (f : FunctionRef) : Prop :=
  ∃ label, w.functions.get? f.index = some ⟨label, .handler .proxyCollected⟩

/-- The machine is about to call the finalizer, which is in a slot of its running frame. -/
structure World.Calls (w : World) (nargs : Int) (pos : Nat) (f : FunctionRef) : Prop where
  slot : w.machine.calleeSlot? nargs.toNat = some pos
  callee : w.machine.stack.getD pos .nil = .function f
  finalizer : w.IsFinalizer f

/-- The first argument in a call. -/
def Machine.argument (m : Machine) (pos : Nat) : Value := m.stack.getD (pos + 1) .nil

section

variable {nargs : Int} {pos : Nat} {f : FunctionRef} {d : Nat}

theorem value_entered (w : World) (pos : Nat) (f : FunctionRef) :
    (w.entered pos f w.machine.stack).machine.value 1 = w.machine.argument pos := by
  have hslot : (w.entered pos f w.machine.stack).machine.slot? 1 =
      if pos + 1 < w.machine.stack.size then some (pos + 1) else none := rfl
  unfold Machine.value Machine.argument
  rw [hslot]
  split
  · rename_i h
    split at h
    · cases h
      rfl
    · cases h
  · rename_i h
    split at h
    · cases h
    · rename_i hsize
      rw [Array.getD_eq_getD_getElem?, Array.getElem?_eq_none (Nat.le_of_not_lt hsize)]
      rfl

theorem run_finalizer (hf : w.IsFinalizer f) :
    (Engine.ofDepth (d + 1)).run f w = .ok (proxyCollected w).1 (proxyCollected w).2 := by
  obtain ⟨label, hcode⟩ := hf
  show runFunction (Engine.ofDepth d) f w = _
  unfold runFunction
  rw [bind_of_ok (x := get) rfl, hcode]
  rfl

theorem leaveCall_eq (w : World) (pos : Nat) (f : FunctionRef) (wanted : Int) (n : Nat) :
    leaveCall pos f wanted (.ok n) w = .ok () (({ w with
      machine := (w.machine.popFrame.returnResults pos n wanted).1
      dropped := w.dropped ++
        ((w.machine.popFrame.returnResults pos n wanted).2.flatMap Value.refs ++
          [Ref.function f]).map (Dropped.mk · none) } : World).settle) := by
  let w₁ : World := { w with machine := (w.machine.popFrame.returnResults pos n wanted).1 }
  have hdiscard := discard_eq
    ((w.machine.popFrame.returnResults pos n wanted).2.flatMap Value.refs ++ [.function f]) none w₁
  have hrelease : leaveCall pos f wanted (.ok n) w = .ok ()
      ((discard ((w.machine.popFrame.returnResults pos n wanted).2.flatMap Value.refs ++
        [.function f]) none w₁).2.settle) := rfl
  rw [hrelease, hdiscard]

/-- A call of the finalizer with room for it gives no result but those that are asked for. -/
theorem call_finalizer_eq (h : w.Calls nargs pos f) (hroom : w.machine.isTooDeep = false)
    (wanted : Int) {w₁ : World}
    (hw₁ : w₁ = (proxyCollected (w.entered pos f w.machine.stack)).2) :
    call (.ofDepth (d + 1)) nargs wanted w = .ok () (({ w₁ with
      machine := (w₁.machine.popFrame.returnResults pos 0 wanted).1
      dropped := w₁.dropped ++ ((w₁.machine.popFrame.returnResults pos 0 wanted).2.flatMap
        Value.refs ++ [Ref.function f]).map (Dropped.mk · none) } : World).settle) := by
  have hrun : (Engine.ofDepth (d + 1)).run f (w.entered pos f w.machine.stack) = .ok 0 w₁ := by
    rw [run_finalizer (w := w.entered pos f w.machine.stack) h.finalizer, hw₁,
      proxyCollected_fst]
  rw [call_of_callee (.ofDepth (d + 1)) wanted h.slot (Callee.function h.callee).calleeAt hroom,
    bind_of_ok (lift_of_eq (attempt_of_ok hrun))]
  exact leaveCall_eq w₁ pos f wanted 0

/-- The finalizer in its frame takes the id of its argument back. -/
theorem World.Proxied.enteredCollected (h : w.Proxied F g made false) (pos : Nat) (f : FunctionRef)
    (hlate : ∀ id, g.late = some id → w.proxyId? (w.machine.argument pos) = some id)
    (hcomplete : room = true →
      ((w.roster g).retake? (w.proxyId? (w.machine.argument pos))).Complete made) :
    (proxyCollected (w.entered pos f w.machine.stack)).2.Proxied F { g with late := none } made
      room := by
  have hentered := h.covered (fun v hv => .inl hv) (⟨pos + 1, some f⟩ :: w.machine.frames) []
  rw [List.map_nil, List.append_nil] at hentered
  refine World.Proxied.collected (w := w.entered pos f w.machine.stack) hentered (fun id he => ?_)
    fun hroom => ?_
  · rw [value_entered]
    exact hlate id he
  · rw [value_entered]
    exact hcomplete hroom

/-- A call of the finalizer keeps the invariant of proxies. -/
theorem World.Proxied.called (h : w.Proxied F g made false) (hcall : w.Calls nargs pos f)
    (hroom : w.machine.isTooDeep = false) (wanted : Int)
    (hlate : ∀ id, g.late = some id → w.proxyId? (w.machine.argument pos) = some id)
    (hcomplete : room = true →
      ((w.roster g).retake? (w.proxyId? (w.machine.argument pos))).Complete made) :
    ∃ w', call (.ofDepth (d + 1)) nargs wanted w = .ok () w' ∧
      w'.Proxied F { g with late := none } made room := by
  refine ⟨_, call_finalizer_eq hcall hroom wanted rfl, World.Proxied.settled ?_⟩
  let w₁ : World := (proxyCollected (w.entered pos f w.machine.stack)).2
  have hleft := (h.enteredCollected pos f hlate hcomplete).covered
    (Machine.returnResults_covers w₁.machine.popFrame pos 0 wanted) w₁.machine.popFrame.frames
    ((w₁.machine.popFrame.returnResults pos 0 wanted).2.flatMap Value.refs ++ [.function f])
  rw [Machine.returnResults_eq]
  exact hleft

/-- A call of the finalizer without room for it cuts the stack. -/
theorem call_finalizer_deep (hcall : w.Calls nargs pos f) (hdeep : w.machine.isTooDeep = true)
    (wanted : Int) :
    call (.ofDepth d) nargs wanted w =
      .error .stackOverflow (w.cutTo pos [.function f]).settle := by
  have hover : overflow pos f w = .error .stackOverflow (cut pos [.function f] w).2.settle := rfl
  rw [call_of_tooDeep (.ofDepth d) wanted hcall.slot (Callee.function hcall.callee).calleeAt hdeep,
    hover, cut_eq]

theorem Machine.returnResults_zero {m : Machine} (hpos : pos ≤ m.stack.size) :
    m.returnResults pos 0 0 = m.truncate pos := by
  have htake : m.stack.take m.stack.size = m.stack := by
    rw [← Array.toList_inj, toList_takeSlots, ← Array.length_toList, List.take_length]
  have hsize : (m.stack.take pos).size = pos := by
    rw [← Array.length_toList, toList_takeSlots, List.length_take, Array.length_toList]
    omega
  have htake' : (m.stack.take pos).take pos = m.stack.take pos := by
    rw [← Array.toList_inj, toList_takeSlots, toList_takeSlots, List.take_take, Nat.min_self]
  have hdrop : (m.stack.take pos).toList.drop pos = [] := by
    rw [toList_takeSlots, List.drop_take, Nat.sub_self, List.take_zero]
  have hempty : m.stack.extract m.stack.size m.stack.size = #[] := by
    rw [← Array.toList_inj, Array.toList_extract, List.extract_eq_take_drop, Nat.sub_self,
      List.take_zero]
  unfold returnResults truncate resize truncate
  simp only [Nat.zero_min, Nat.sub_zero, htake, hempty, Array.append_empty]
  rw [if_pos (Int.le_refl 0), Int.toNat_zero, Nat.add_zero, hsize, if_pos (Nat.le_refl pos), htake',
    hdrop, List.append_nil]

end

/-! ## Finalizers that run -/

/-- The world after a dead proxy came back. -/
def World.withRevived (w : World) (F : Fixture) (q : Pending) : World :=
  { w with userdata := w.userdata.add (Roster.revived F q) }

namespace World.Proxied

variable {q : Pending} {rest : List Pending}

/-- A dead proxy comes back for its finalizer. -/
theorem withRevived (h : w.Proxied F ⟨q :: rest, none⟩ made room) :
    ∃ id, F.Serves q.metatable ∧ (w.withRevived F q).Proxied F ⟨rest, some id⟩ made false ∧
      (room = true →
        (((w.withRevived F q).roster ⟨rest, some id⟩).retake id).Complete made) ∧
      (w.withRevived F q).proxyId? (.userdata ⟨w.userdata.next⟩) = some id := by
  obtain ⟨s, hs⟩ := h.fitted.session
  have hpending : (w.roster ⟨q :: rest, none⟩).pending = q :: (rest ++ w.machine.graveyard) := by
    rw [roster_of_session hs]
    rfl
  obtain ⟨hserves, p, hp, hpayload, -⟩ := h.kept.pending q (hpending ▸ List.mem_cons_self)
  have hcells : (w.withRevived F q).proxyCell? = fun i =>
      if i = w.userdata.next then some (Roster.revived F q) else w.proxyCell? i := by
    funext i
    show ((w.userdata.add (Roster.revived F q)).get? i).filter _ = _
    rw [w.userdata.get?_add i]
    split
    · refine Option.filter_eq_some_iff.mpr ⟨rfl, ?_⟩
      show q.payload.isProxy = true
      rw [hpayload]
      rfl
    · rfl
  have hnext : (w.withRevived F q).userdata.next = w.userdata.next + 1 := w.userdata.next_add _
  have hroster : (w.withRevived F q).roster ⟨rest, some p.id⟩ =
      (w.roster ⟨q :: rest, none⟩).revive F q p.id (rest ++ w.machine.graveyard) := by
    rw [roster_of_session hs, roster_of_session (w := w.withRevived F q) hs, hcells, hnext]
    rfl
  have hlate : (w.roster ⟨q :: rest, none⟩).late = none := by
    rw [roster_of_session hs]
  refine ⟨p.id, hserves, ?_, fun hroom => ?_, proxyId?_eq_some.mpr
    ⟨_, congrFun hcells _ |>.trans (if_pos rfl), hpayload⟩⟩
  · exact {
      fitted := h.fitted.of_same rfl rfl rfl rfl rfl rfl rfl
      kept := by
        rw [hroster]
        exact h.kept.revive hpending hlate hpayload
      complete := nofun
      visible := h.visible
      notes := h.notes
      quiet := fun i c hc hother hlive t ht => by
        have hc : (w.userdata.add (Roster.revived F q)).get? i = some c := hc
        rw [Store.get?_add] at hc
        split at hc
        · cases hc
          cases hlive
        · exact h.quiet i c hc hother hlive t ht
      unmade := fun u hu hheld =>
        h.unmade u (by rw [hnext] at hu; omega) (hheld.of_same rfl rfl rfl (List.Subset.refl _) rfl)
      own := fun p' hp' hcontains => by
        have hlt : p'.userdata.index < w.userdata.next := h.kept.begun p' hp'
        have hcontains : (w.userdata.add (Roster.revived F q)).contains p'.userdata.index = true :=
          hcontains
        rw [Store.contains_eq, Store.get?_add_of_lt _ _ hlt] at hcontains
        obtain ⟨c, hc⟩ := h.own p' hp' hcontains
        exact ⟨c, congrFun hcells _ |>.trans ((if_neg (Nat.ne_of_lt hlt)).trans hc)⟩ }
  · rw [hroster]
    exact (h.complete hroom).finalize h.kept hpending hpayload

end World.Proxied

/-- What a protected call of the finalizer over some slots leads to. -/
structure World.Finished (w : World) (F : Fixture) (rest : List Pending) (made : List Proxy)
    (room : Bool) (stack : Array Value) (frames : List Frame) : Prop where
  proxied : w.Proxied F ⟨rest, none⟩ made room
  frames : w.machine.frames = frames
  below : ∃ above, w.machine.stack.toList = stack.toList ++ above ∧ ∀ v ∈ above, v.refs = []

section

variable {d : Nat} {f : FunctionRef} {u : UserdataRef} {id : Nat} {stack : Array Value}
variable {rest : List Pending}

theorem Machine.take_push_push {m : Machine} {v v' : Value}
    (hm : m.stack = (stack.push v).push v') :
    (m.truncate stack.size).1.stack = stack ∧ m.stack.toList.drop stack.size = [v, v'] := by
  constructor
  · show m.stack.take stack.size = stack
    rw [hm, ← Array.toList_inj, toList_takeSlots, Array.toList_push, Array.toList_push,
      List.append_assoc, ← Array.length_toList, List.take_left]
  · rw [hm, Array.toList_push, Array.toList_push, List.append_assoc, ← Array.length_toList,
      List.drop_left]
    rfl

/-- The finalizer of a userdata that came back runs if there is room for it. -/
theorem World.Proxied.finished (h : w.Proxied F ⟨rest, some id⟩ made false)
    (hcall : w.Calls 1 stack.size f)
    (hstack : w.machine.stack = (stack.push (.function f)).push (.userdata u))
    (hid : w.proxyId? (.userdata u) = some id) (hdeep : w.machine.isTooDeep = false)
    (hcomplete : room = true → ((w.roster ⟨rest, some id⟩).retake id).Complete made)
    (htame : w.Calm F → w.Tame F (.userdata u)) :
    ∃ w', protectedCall (.ofDepth (d + 1)) 1 0 w = .ok .ok w' ∧
      w'.Finished F rest made room stack w.machine.frames ∧ (w.Calm F → w'.Calm F) := by
  have hsize : w.machine.stack.size = stack.size + 2 := by
    rw [hstack, Array.size_push, Array.size_push]
  have hargument : w.machine.argument stack.size = .userdata u := by
    unfold Machine.argument
    rw [hstack, ← Array.size_push, Array.getD_eq_getD_getElem?, Array.getElem?_push_size]
    rfl
  let w₁ : World := (proxyCollected (w.entered stack.size f w.machine.stack)).2
  let left : World := { w₁ with machine := w₁.machine.popFrame }
  have hentered :
      (w.entered stack.size f w.machine.stack).Proxied F ⟨rest, some id⟩ made false := by
    have h := h.covered (fun v hv => .inl hv) (⟨stack.size + 1, some f⟩ :: w.machine.frames) []
    rwa [List.map_nil, List.append_nil] at h
  obtain ⟨⟨session, hmachine⟩, huserdata⟩ := hentered.proxyCollected_machine
  have hleft : left.machine = { w.machine with session } := by
    show w₁.machine.popFrame = _
    rw [hmachine]
    rfl
  have hcollected : w₁.Proxied F ⟨rest, none⟩ made room := by
    refine h.enteredCollected stack.size f (fun id' he => ?_) fun hroom => ?_
    · obtain rfl : id = id' := Option.some.inj he
      rw [hargument]
      exact hid
    · rw [hargument, hid]
      exact hcomplete hroom
  have hproxied : left.Proxied F ⟨rest, none⟩ made room := by
    have h := hcollected.covered (fun v hv => .inl hv) w₁.machine.frames.tail []
    rwa [List.map_nil, List.append_nil] at h
  have heq : call (.ofDepth (d + 1)) 1 0 w =
      .ok () (left.cutTo stack.size [.function f]).settle := by
    have hzero : w₁.machine.popFrame.returnResults stack.size 0 0 =
        w₁.machine.popFrame.truncate stack.size :=
      Machine.returnResults_zero (by
        show stack.size ≤ left.machine.stack.size
        rw [hleft]
        show stack.size ≤ w.machine.stack.size
        omega)
    rw [call_finalizer_eq hcall hdeep 0 rfl, hzero]
    rfl
  have htop := Machine.take_push_push (m := left.machine) (by rw [hleft]; exact hstack)
  refine ⟨_, protectedCall_of_ok heq, ⟨(hproxied.cutTo _ _).settled, ?_, [], ?_, nofun⟩,
    fun hcalm => ?_⟩
  · rw [(World.settle_sameStack _).frames]
    show left.machine.frames = w.machine.frames
    rw [hleft]
  · rw [(World.settle_sameStack _).stack, List.append_nil]
    exact congrArg Array.toList htop.1
  · have hcalm₁ : (w.entered stack.size f w.machine.stack).Calm F := ⟨hcalm.graveyard, hcalm.notes⟩
    have hcalm₂ : left.Calm F :=
      ⟨(hcalm₁.collected hentered).graveyard, (hcalm₁.collected hentered).notes⟩
    refine (hcalm₂.cutTo (fun v hv r hr => ?_) fun r hr => ?_).settled (hproxied.cutTo _ _)
    · rw [htop.2] at hv
      obtain rfl | hv := List.mem_cons.mp hv
      · obtain rfl := List.mem_singleton.mp hr
        trivial
      · obtain rfl := List.mem_singleton.mp hv
        obtain rfl := List.mem_singleton.mp hr
        exact (htame hcalm).of_fewer fun i c hc => huserdata ▸ hc
    · obtain rfl := List.mem_singleton.mp hr
      trivial

/-- The finalizer of a userdata that came back has no room, and the userdata goes again. -/
theorem World.Proxied.unfinished (h : w.Proxied F ⟨rest, some id⟩ made false)
    (hcall : w.Calls 1 stack.size f)
    (hstack : w.machine.stack = (stack.push (.function f)).push (.userdata u))
    (hid : w.proxyId? (.userdata u) = some id) (hdeep : w.machine.isTooDeep = true)
    (hfree : ¬ (w.cutTo stack.size [.function f]).HoldsUserdata u)
    (htame : w.Calm F → w.Tame F (.userdata u)) :
    ∃ w', protectedCall (.ofDepth (d + 1)) 1 0 w = .ok .stackOverflow w' ∧
      w'.Finished F rest made false stack w.machine.frames ∧ (w.Calm F → w'.Calm F) := by
  have hsize : w.machine.stack.size = stack.size + 2 := by
    rw [hstack, Array.size_push, Array.size_push]
  have htop := Machine.take_push_push hstack
  have hcut := h.cutTo stack.size [.function f]
  let w₁ : World := (w.cutTo stack.size [.function f]).settle
  have hsame₁ := World.settle_sameStack (w.cutTo stack.size [.function f])
  have hstack₁ : w₁.machine.stack = stack := hsame₁.stack.trans htop.1
  have hframes₁ : w₁.machine.frames = w.machine.frames := hsame₁.frames
  have hgone : w₁.userdata.get? u.index = none := by
    refine World.gone_of_settle hfree ⟨⟨.userdata u, none⟩, ?_, rfl⟩
    refine List.mem_append_right _ (List.mem_map.mpr ⟨_, List.mem_append_left _ ?_, rfl⟩)
    show Ref.userdata u ∈ (w.machine.stack.toList.drop stack.size).flatMap Value.refs
    rw [htop.2]
    exact List.mem_cons_of_mem _ (List.mem_singleton.mpr rfl)
  obtain ⟨c, hc, hpayload⟩ := World.proxyId?_eq_some.mp hid
  have hlacks : (w₁.roster ⟨rest, some id⟩).Lacks id := by
    intro i c' hc' he
    obtain ⟨hget, hproxy⟩ := World.proxyCell?_eq_some.mp hc'
    have hget' : (w.cutTo stack.size [.function f]).userdata.get? i = some c' :=
      World.settle_fewer i c' hget
    have hbefore : w.proxyCell? i = some c' := World.proxyCell?_eq_some.mpr ⟨hget', hproxy⟩
    obtain rfl := h.kept.single i u.index c' c hbefore hc (he.trans hpayload.symm)
    rw [hgone] at hget
    cases hget
  have hw₁ : w₁.Proxied F ⟨rest, none⟩ made false :=
    hcut.settled.caughtUp fun id' he => .inr (Option.some.inj he ▸ hlacks)
  let w₂ : World := (w₁.cutTo stack.size []).settle
  have hw₂ : w₂.Proxied F ⟨rest, none⟩ made false := (hw₁.cutTo _ _).settled
  have hsame₂ := World.settle_sameStack (w₁.cutTo stack.size [])
  have hstack₂ : w₂.machine.stack = stack := by
    refine hsame₂.stack.trans ?_
    show w₁.machine.stack.take stack.size = stack
    rw [hstack₁, Array.take_eq_extract, Array.extract_size]
  have heq : protectedCall (.ofDepth (d + 1)) 1 0 w = .ok .stackOverflow
      { w₂ with machine := w₂.machine.push (.text overflowText) } := by
    have hcalled : call (.ofDepth (d + 1)) 1 0 w = .error .stackOverflow w₁ :=
      call_finalizer_deep hcall hdeep 0
    have hpos :
        max (w.machine.stack.size - ((1 : Int).toNat + 1)) w₁.machine.base = stack.size := by
      have hbase : w₁.machine.base ≤ stack.size := by
        unfold Machine.base
        rw [hframes₁]
        exact (Machine.calleeSlot?_lt hcall.slot).2
      have hone : (1 : Int).toNat = 1 := rfl
      omega
    have hrun : protectedCall (.ofDepth (d + 1)) 1 0 w = .ok .stackOverflow
        { (cut (max (w.machine.stack.size - ((1 : Int).toNat + 1)) w₁.machine.base) [] w₁).2.settle
          with machine := (cut (max (w.machine.stack.size - ((1 : Int).toNat + 1))
            w₁.machine.base) [] w₁).2.settle.machine.push (.text overflowText) } := by
      unfold protectedCall
      rw [bind_of_ok (x := liftM readMachine) rfl,
        bind_of_ok (lift_of_eq (attempt_of_error hcalled))]
      rfl
    rw [hrun, hpos, cut_eq]
  refine ⟨_, heq, ⟨?_, hsame₂.frames.trans hframes₁, [.text overflowText], ?_, ?_⟩, fun hcalm => ?_⟩
  · exact hw₂.onStack fun u => nofun
  · show (w₂.machine.stack.push _).toList = _
    rw [hstack₂, Array.toList_push]
  · intro v hv
    rw [List.mem_singleton.mp hv]
    rfl
  · have hcalm₁ : w₁.Calm F := by
      refine (hcalm.cutTo (fun v hv r hr => ?_) fun r hr => ?_).settled hcut
      · rw [htop.2] at hv
        obtain rfl | hv := List.mem_cons.mp hv
        · obtain rfl := List.mem_singleton.mp hr
          trivial
        · obtain rfl := List.mem_singleton.mp hv
          obtain rfl := List.mem_singleton.mp hr
          exact htame hcalm
      · obtain rfl := List.mem_singleton.mp hr
        trivial
    have hcalm₂ : w₂.Calm F := by
      refine (hcalm₁.cutTo (fun v hv => ?_) fun r hr => absurd hr List.not_mem_nil).settled
        (hw₁.cutTo _ _)
      rw [hstack₁, ← Array.length_toList, List.drop_length] at hv
      cases hv
    exact ⟨hcalm₂.graveyard, hcalm₂.notes⟩

end

theorem World.Calm.withRevived (h : w.Calm F) {q : Pending} (hserves : F.Serves q.metatable) :
    (w.withRevived F q).Calm F where
  graveyard := h.graveyard
  notes d hd := by
    have hd := h.notes d hd
    generalize d.ref = r at hd ⊢
    cases r with
    | userdata u =>
      intro c hc
      have hc : (w.userdata.add (Roster.revived F q)).get? u.index = some c := hc
      rw [Store.get?_add] at hc
      split at hc
      · cases hc
        exact ⟨rfl, _, rfl, hserves⟩
      · exact hd c hc
    | table t => exact hd
    | _ => trivial

theorem setTop_cut {n : Nat} (hn : w.machine.base + n ≤ w.machine.stack.size) :
    setTop n w = ((), (w.cutTo (w.machine.base + n) []).settle) := by
  have hset : w.machine.setTop n = w.machine.truncate (w.machine.base + n) := by
    unfold Machine.setTop Machine.resize
    rw [if_neg (Int.not_lt.mpr (Int.natCast_nonneg n)), Int.toNat_natCast, if_pos hn]
  have hdiscard := discard_eq ((w.machine.truncate (w.machine.base + n)).2.flatMap Value.refs) none
    { w with machine := (w.machine.truncate (w.machine.base + n)).1 }
  have hrun : setTop n w = ((),
      (discard ((w.machine.setTop n).2.flatMap Value.refs) none
        { w with machine := (w.machine.setTop n).1 }).2.settle) := rfl
  rw [hrun, hset, hdiscard]
  unfold World.cutTo
  rw [List.append_nil]

section

variable {d : Nat} {q : Pending} {rest : List Pending}

/-- The world in which the finalizer of a userdata that came back is called. -/
def World.readied (w : World) (F : Fixture) (q : Pending) (f : FunctionRef) : World :=
  { w.withRevived F q with
    machine := (w.machine.push (.function f)).push (.userdata ⟨w.userdata.next⟩)
    held := [Ref.table q.metatable].foldl List.erase w.held
    dropped := w.dropped ++ [Ref.table q.metatable].map (Dropped.mk · none) }

theorem finalize_eq (h : w.Fitted F) (E : Engine) {f : FunctionRef}
    (hf : w.fieldOf q.metatable "__gc" = .function f) :
    finalize E q w = (do
      let _ ← protectedCall E 1 0
      setTop w.machine.top : Script Unit) (w.readied F q f) := by
  have hsame : w.summoned q f = w.readied F q f := by
    unfold World.summoned World.readied World.withRevived Roster.revived
    rw [← h.home]
    rfl
  rw [finalize_calls E hf, hsame]

namespace World.Proxied

theorem readied (h : (w.withRevived F q).Proxied F g made room) (f : FunctionRef) :
    (w.readied F q f).Proxied F g made room := by
  have hnext : (w.withRevived F q).userdata.next = w.userdata.next + 1 := w.userdata.next_add _
  refine (SameProxies.of_machine (w := w.withRevived F q)
    ((w.machine.push (.function f)).push (.userdata ⟨w.userdata.next⟩)) _ _ rfl rfl rfl rfl rfl rfl
    (fun u hu hle => ?_) (fun u hu _ => ?_) fun d hd => ?_).proxied h
  · obtain hu | hu := Array.mem_push.mp hu
    · obtain hu | hu := Array.mem_push.mp hu
      · exact .inl ⟨_, List.mem_cons_self, hu⟩
      · cases hu
    · obtain rfl := Value.userdata.inj hu
      rw [hnext] at hle
      exact absurd hle (Nat.not_succ_le_self _)
  · exact .inr (.inr (.inl (List.mem_of_mem_erase hu)))
  · obtain hd | hd := List.mem_append.mp hd
    · exact .inl hd
    · obtain rfl := List.mem_singleton.mp hd
      exact .inr fun t _ => (Option.some_ne_none t).symm

/-- Running the finalizer of a dead proxy. -/
theorem finalized (h : w.Proxied F ⟨q :: rest, none⟩ made room) (hframe : w.machine.HasFrame)
    (hroom : room = true → w.machine.isTooDeep = false) :
    ∃ w', finalize (.ofDepth (d + 1)) q w = .ok () w' ∧ w'.Proxied F ⟨rest, none⟩ made room ∧
      w'.dropped = [] ∧ (w.Calm F → w'.Calm F) := by
  obtain ⟨id, hserves, hrevived, hcomplete, hid⟩ := h.withRevived
  obtain ⟨f, label, hf, hcode⟩ := h.fitted.fieldOf_gc hserves
  let u : UserdataRef := ⟨w.userdata.next⟩
  let w₁ : World := w.readied F q f
  have hw₁ : w₁.Proxied F ⟨rest, some id⟩ made false := hrevived.readied f
  have hstack : w₁.machine.stack = (w.machine.stack.push (.function f)).push (.userdata u) := rfl
  have hsize : w₁.machine.stack.size = w.machine.stack.size + 2 := by
    rw [hstack, Array.size_push, Array.size_push]
  have hframe : w.machine.base ≤ w.machine.stack.size := hframe
  have hcall : w₁.Calls 1 w.machine.stack.size f := by
    refine ⟨?_, ?_, label, hcode⟩
    · have hbase : w₁.machine.base = w.machine.base := rfl
      have hone : (1 : Int).toNat = 1 := rfl
      unfold Machine.calleeSlot?
      rw [hbase, hsize, hone, if_pos]
      · rfl
      · simp only [Bool.and_eq_true, decide_eq_true_eq]
        omega
    · rw [hstack, Array.getD_eq_getD_getElem?, Array.getElem?_push_lt (by simp),
        Array.getElem_push_eq]
      rfl
  have hcalm₁ (hcalm : w.Calm F) : w₁.Calm F := by
    have htable (r : Ref) (hr : r ∈ [Ref.table q.metatable]) : (w.withRevived F q).Tame F r := by
      obtain rfl := List.mem_singleton.mp hr
      exact hserves
    exact (hcalm.withRevived hserves).discarded htable rfl rfl rfl
  have htame : w₁.Tame F (.userdata u) := by
    intro c hc
    have hc : (w.userdata.add (Roster.revived F q)).get? w.userdata.next = some c := hc
    rw [Store.get?_add_next] at hc
    cases hc
    exact ⟨rfl, _, rfl, hserves⟩
  obtain ⟨status, w₂, hrun, hfinished, hcalm₂⟩ : ∃ status w₂,
      protectedCall (.ofDepth (d + 1)) 1 0 w₁ = .ok status w₂ ∧
        w₂.Finished F rest made room w.machine.stack w₁.machine.frames ∧
        (w₁.Calm F → w₂.Calm F) := by
    cases hdeep : w.machine.isTooDeep with
    | false =>
      obtain ⟨w₂, hrun, hfinished, hcalm⟩ := hw₁.finished (d := d) hcall hstack hid hdeep
        hcomplete fun _ => htame
      exact ⟨_, w₂, hrun, hfinished, hcalm⟩
    | true =>
      have hnoroom : room = false := by
        cases room with
        | false => rfl
        | true => exact absurd (hroom rfl) (by rw [hdeep]; nofun)
      subst hnoroom
      have hfree : ¬ (w₁.cutTo w.machine.stack.size [.function f]).HoldsUserdata u := by
        intro hheld
        refine h.unmade u (Nat.le_refl _) (hheld.of_same ?_ rfl rfl ?_ rfl)
        · exact (Machine.take_push_push hstack).1
        · exact fun r hr => List.mem_of_mem_erase hr
      obtain ⟨w₂, hrun, hfinished, hcalm⟩ := hw₁.unfinished (d := d) hcall hstack hid hdeep hfree
        fun _ => htame
      exact ⟨_, w₂, hrun, hfinished, hcalm⟩
  obtain ⟨above, habove, hnorefs⟩ := hfinished.below
  have hbase : w₂.machine.base = w.machine.base := by
    unfold Machine.base
    rw [hfinished.frames]
    rfl
  have hpos : w₂.machine.base + w.machine.top = w.machine.stack.size := by
    unfold Machine.top
    omega
  have hle : w₂.machine.base + w.machine.top ≤ w₂.machine.stack.size := by
    rw [hpos, ← Array.length_toList, ← Array.length_toList, habove, List.length_append]
    omega
  refine ⟨(w₂.cutTo (w₂.machine.base + w.machine.top) []).settle, ?_,
    (hfinished.proxied.cutTo _ _).settled, World.settle_dropped _, fun hcalm => ?_⟩
  · rw [finalize_eq h.fitted _ hf, bind_of_ok hrun]
    exact lift_of_eq (setTop_cut hle)
  · refine ((hcalm₂ (hcalm₁ hcalm)).cutTo (fun v hv r hr => ?_) fun r hr =>
      absurd hr List.not_mem_nil).settled (hfinished.proxied.cutTo _ _)
    rw [hpos, habove, ← Array.length_toList, List.drop_left] at hv
    rw [hnorefs v hv] at hr
    cases hr

end World.Proxied

end

/-! ## Collections -/

section

variable {d : Nat}

theorem isTooDeep_of_sameStack {m m' : Machine} (h : m.SameStack m') :
    m'.isTooDeep = m.isTooDeep := by
  unfold Machine.isTooDeep
  rw [h.frames, h.limits]

/-- The finalizers of one round. -/
theorem World.Proxied.finalizedAll {batch : List Pending} (h : w.Proxied F ⟨batch, none⟩ made room)
    (hframe : w.machine.HasFrame) (hroom : room = true → w.machine.isTooDeep = false) :
    ∃ w', batch.forM (finalize (.ofDepth (d + 1))) w = .ok () w' ∧
      w'.Proxied F ⟨[], none⟩ made room ∧ w.machine.SameStack w'.machine ∧
      (batch ≠ [] → w'.dropped = []) ∧ (w.Calm F → w'.Calm F) := by
  induction batch generalizing w with
  | nil => exact ⟨w, rfl, h, .refl _, fun hne => absurd rfl hne, id⟩
  | cons q rest ih =>
    obtain ⟨w₁, hrun, hw₁, hdropped, hcalm⟩ := h.finalized (d := d) hframe hroom
    have hsame : w.machine.SameStack w₁.machine := by
      have hfree := World.keepsOrFails_of_stackFree
        (stackFree_finalize (Engine.ofDepth_framed (d + 1)).run q) hframe
      unfold World.KeepsOrFails at hfree
      rwa [hrun] at hfree
    obtain ⟨w₂, hrest, hw₂, hsame₂, hdropped₂, hcalm₂⟩ := ih hw₁ (hsame.hasFrame hframe)
      fun hr => (isTooDeep_of_sameStack hsame).trans (hroom hr)
    refine ⟨w₂, ?_, hw₂, hsame.trans hsame₂, fun _ => ?_, hcalm₂ ∘ hcalm⟩
    · show (finalize _ q >>= fun _ => rest.forM _) w = _
      rw [bind_of_ok hrun]
      exact hrest
    · cases rest with
      | nil =>
        cases hrest
        exact hdropped
      | cons => exact hdropped₂ nofun

/-- One round of a collection. -/
theorem World.Proxied.round (h : w.Proxied F {} made room) (hframe : w.machine.HasFrame)
    (hroom : room = true → w.machine.isTooDeep = false) (hsome : w.machine.graveyard ≠ [])
    (count fuel : Nat) :
    ∃ w', collectRounds (.ofDepth (d + 1)) count (fuel + 1) w =
        collectRounds (.ofDepth (d + 1)) (count + w.machine.graveyard.length) fuel w' ∧
      w'.Proxied F {} made room ∧ w.machine.SameStack w'.machine ∧ w'.dropped = [] ∧
      (w.dropped = [] → w'.machine.graveyard = []) := by
  let batch : List Pending := w.machine.graveyard
  let w₁ : World := w.unearthed
  have hroster : w₁.roster ⟨batch, none⟩ = w.roster {} := by
    unfold World.roster w₁ World.unearthed
    rw [List.append_nil]
    rfl
  have hw₁ : w₁.Proxied F ⟨batch, none⟩ made room := {
    fitted := h.fitted.of_same rfl rfl rfl rfl rfl rfl rfl
    kept := hroster ▸ h.kept
    complete := hroster ▸ h.complete
    visible := h.visible
    notes := h.notes
    quiet := h.quiet
    unmade := fun u hu hheld => by
      obtain hm | hk | hh | ht := hheld
      · obtain ⟨m, hm, hmem⟩ := hm
        obtain rfl | hm := List.mem_cons.mp hm
        · exact h.unmade u hu (.inl ⟨_, List.mem_cons_self, hmem⟩)
        · exact h.unmade u hu (.inl ⟨m, List.mem_cons_of_mem _ hm, hmem⟩)
      · exact h.unmade u hu (.inr (.inl hk))
      · obtain hh | hh := List.mem_append.mp hh
        · obtain ⟨q, -, he⟩ := List.mem_map.mp hh
          cases he
        · exact h.unmade u hu (.inr (.inr (.inl hh)))
      · exact h.unmade u hu (.inr (.inr (.inr ht)))
    own := h.own }
  obtain ⟨w₂, hrun, hw₂, hsame, hdropped, hcalm⟩ := hw₁.finalizedAll (d := d) hframe hroom
  refine ⟨w₂, ?_, hw₂, ⟨hsame.stack, hsame.frames, hsame.limits⟩, hdropped hsome,
    fun hnone => (hcalm ⟨rfl, fun d hd => ?_⟩).graveyard⟩
  · rw [collectRounds_of_some hsome, bind_of_ok hrun]
  · have hd : d ∈ w.dropped := hd
    rw [hnone] at hd
    cases hd

/-- A collection comes to an end and keeps the invariant of proxies. -/
theorem World.Proxied.collectsAll (h : w.Proxied F {} made room) (hframe : w.machine.HasFrame)
    (hroom : room = true → w.machine.isTooDeep = false) :
    ∃ n w', collect (.ofDepth (d + 1)) w = .ok n w' ∧ w'.Proxied F {} made room ∧
      w.machine.SameStack w'.machine ∧ w'.machine.graveyard = [] := by
  have hlimit : roundLimit = 999997 + 1 + 1 + 1 := rfl
  unfold collect
  rw [hlimit]
  by_cases hnone : w.machine.graveyard = []
  · exact ⟨0, w, collectRounds_of_none hnone _ _ _, h, .refl _, hnone⟩
  obtain ⟨w₁, hround, hw₁, hsame, hdropped, -⟩ :=
    h.round (d := d) hframe hroom hnone 0 (999997 + 1 + 1)
  rw [hround]
  by_cases hnone₁ : w₁.machine.graveyard = []
  · exact ⟨_, w₁, collectRounds_of_none hnone₁ _ _ _, hw₁, hsame, hnone₁⟩
  -- The notes from before the collection were looked at in the first round.
  obtain ⟨w₂, hround₂, hw₂, hsame₂, -, hnone₂⟩ := hw₁.round (d := d) (hsame.hasFrame hframe)
    (fun hr => (isTooDeep_of_sameStack hsame).trans (hroom hr)) hnone₁
    (0 + w.machine.graveyard.length) (999997 + 1)
  rw [hround₂]
  exact ⟨_, w₂, collectRounds_of_none (hnone₂ hdropped) _ _ _, hw₂, hsame.trans hsame₂,
    hnone₂ hdropped⟩

end

end ScriptBridge
