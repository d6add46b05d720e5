import ScriptBridge.Proofs.Dispatch.Safety
import ScriptBridge.Proofs.Memory.Holding
import ScriptBridge.Proofs.Memory.Settle
import ScriptBridge.Proofs.Stack.Balance
import ScriptBridge.Script.Run

/-!
# Exceptions on their way

An exception of the host that enters the machine is carried by a userdata. Whatever unwinds a raise,
a call that ends, a stack that is cut, memory that is reclaimed, has the error value in its hands,
so the userdata and the exception in it stay. Where the raise leaves the machine the same exception
comes out, at each way out by a different piece of code.
-/

namespace ScriptBridge

/-! ## Layers -/

theorem Cause.innermost_innermost (c : Cause) (id : Nat) :
    (c.innermost id).innermost = c.innermost id := by
  induction c generalizing id with
  | duringInvoke _ innerId _ ih => exact ih innerId
  | _ => rfl

/-- No layer is left around the innermost exception. -/
@[simp]
theorem Exception.innermost_innermost (e : Exception) : e.innermost.innermost = e.innermost :=
  e.cause.innermost_innermost e.id

/-! ## The carrier -/

namespace World

variable {w w' : World} {v : Value} {e : Exception}

/-- What a value carries is in its userdata. -/
theorem carriedException?_congr
    (h : ∀ u, v = .userdata u → w'.userdata.get? u.index = w.userdata.get? u.index) :
    w'.carriedException? v = w.carriedException? v := by
  cases v with
  | userdata u =>
    unfold carriedException?
    dsimp only
    rw [h u rfl]
  | _ => rfl

theorem carriedException?_of_userdata (h : w'.userdata = w.userdata) :
    w'.carriedException? v = w.carriedException? v :=
  carriedException?_congr fun _ _ => by rw [h]

/-- Only a userdata carries an exception. -/
theorem exists_userdata_of_carried (h : w.carriedException? v = some e) :
    ∃ u, v = .userdata u := by
  cases v with
  | userdata u => exact ⟨u, rfl⟩
  | _ => cases h

theorem holds_of_stack {v : Value} {r : Ref} (hv : v ∈ w.machine.stack) (hr : r ∈ v.refs) :
    w.holds r = true := by
  have hany : w.machine.stack.any (·.refs.contains r) = true := by
    rw [Array.any_eq_true']
    exact ⟨v, hv, List.contains_iff_mem.mpr hr⟩
  unfold holds Machine.holds
  rw [hany, Bool.true_or, Bool.true_or, Bool.true_or, Bool.true_or]

/-- A userdata that the host or the stack holds is not reclaimed. -/
theorem settle_userdata {u : UserdataRef}
    (h : Ref.userdata u ∈ w.held ∨ Value.userdata u ∈ w.machine.stack) :
    w.settle.userdata.get? u.index = w.userdata.get? u.index := by
  let P (w' : World) := (Ref.userdata u ∈ w'.held ∨ Value.userdata u ∈ w'.machine.stack) ∧
    w'.userdata.get? u.index = w.userdata.get? u.index
  have hsettled : P w.settle := by
    refine settle_keeps (fun w₁ d rest _ hw _ => hw) (fun w₁ d rest _ hw hfree => ?_) ⟨h, rfl⟩
    obtain ⟨hholder, hcell⟩ := hw
    have hspares := empty_spares { w₁ with dropped := rest } d
    have hstack := empty_sameStack { w₁ with dropped := rest } d
    have hne : d.ref ≠ .userdata u := by
      intro he
      have hholds : w₁.holds (.userdata u) = true :=
        hholder.elim holds_of_held fun hv => holds_of_stack hv (List.mem_singleton_self _)
      rw [he, hholds] at hfree
      cases hfree
    refine ⟨?_, (hspares.userdata u hne).trans hcell⟩
    show Ref.userdata u ∈ ({ w₁ with dropped := rest }.empty d).1.held ∨
      Value.userdata u ∈ ({ w₁ with dropped := rest }.empty d).1.machine.stack
    rw [hspares.held, hstack.stack]
    exact hholder
  exact hsettled.2

/-- Memory is reclaimed beside the references of an error value. -/
theorem settle_carried (h : (∀ r ∈ v.refs, r ∈ w.held) ∨ v ∈ w.machine.stack) :
    w.settle.carriedException? v = w.carriedException? v := by
  refine carriedException?_congr fun u hu => settle_userdata ?_
  subst hu
  exact h.imp_left fun hheld => hheld _ (List.mem_singleton_self _)

end World

section

variable (w : World) (v : Value)

theorem settleBeside_carried :
    (settleBeside v.refs w).2.carriedException? v = w.carriedException? v :=
  World.settle_carried (w := { w with held := v.refs ++ w.held }) (.inl fun _ hr =>
    List.mem_append_left _ hr)

theorem discard_userdata (refs : List Ref) (during : Option TableRef) :
    (discard refs during w).2.userdata = w.userdata := by
  unfold discard
  split <;> rfl

theorem discard_held (refs : List Ref) (during : Option TableRef) :
    (discard refs during w).2.held = w.held := by
  unfold discard
  split <;> rfl

theorem cut_userdata (pos : Nat) (outliving : List Ref) :
    (cut pos outliving w).2.userdata = w.userdata :=
  discard_userdata _ _ _

/-- The stack is cut while an error value is held. -/
theorem setTop_carried (top : Int) {w : World} (h : ∀ r ∈ v.refs, r ∈ w.held) :
    (setTop top w).2.carriedException? v = w.carriedException? v := by
  let w₁ : World := { w with machine := (w.machine.setTop top).1 }
  let w₂ := (discard ((w.machine.setTop top).2.flatMap Value.refs) none w₁).2
  have hheld : w₂.held = w.held := discard_held w₁ _ _
  have hsettle : w₂.settle.carriedException? v = w₂.carriedException? v :=
    World.settle_carried (.inl (by rw [hheld]; exact h))
  exact hsettle.trans (World.carriedException?_of_userdata (discard_userdata w₁ _ _))

end

/-! ## Programs that fail with an exception -/

/-- A script raises a userdata that carries an exception. -/
def Raises {α : Type} (x : Script α) (w : World) (e : Exception) : Prop :=
  ∃ v w', x w = .error (.runtime v) w' ∧ w'.carriedException? v = some e

/-- Host code throws an exception. -/
def Throws {α : Type} (x : Host α) (w : World) (e : Exception) : Prop :=
  ∃ w', x w = .error (.exception e) w'

/-- A call of a method ends with an exception. -/
def EndsWith {α β : Type} (x : Action (Except Failure α × β)) (w : World) (e : Exception) : Prop :=
  ∃ after w', x w = ((.error (.exception e), after), w')

section

variable {α β : Type} {w w₁ : World} {e : Exception}

theorem Raises.bind {x : Script α} (h : Raises x w e) (f : α → Script β) :
    Raises (x >>= f) w e := by
  obtain ⟨v, w', hx, hv⟩ := h
  exact ⟨v, w', bind_of_error hx, hv⟩

theorem Raises.of_ok {x : Script α} {f : α → Script β} {a : α} (hx : x w = .ok a w₁)
    (h : Raises (f a) w₁ e) : Raises (x >>= f) w e := by
  obtain ⟨v, w', hf, hv⟩ := h
  exact ⟨v, w', (bind_of_ok hx).trans hf, hv⟩

theorem Throws.bind {x : Host α} (h : Throws x w e) (f : α → Host β) : Throws (x >>= f) w e := by
  obtain ⟨w', hx⟩ := h
  exact ⟨w', bind_of_error hx⟩

theorem Throws.of_ok {x : Host α} {f : α → Host β} {a : α} (hx : x w = .ok a w₁)
    (h : Throws (f a) w₁ e) : Throws (x >>= f) w e := by
  obtain ⟨w', hf⟩ := h
  exact ⟨w', (bind_of_ok hx).trans hf⟩

theorem EndsWith.of_eq {γ : Type} {x : Action γ} {f : γ → Action (Except Failure α × β)} {a : γ}
    (hx : x w = (a, w₁)) (h : EndsWith (f a) w₁ e) : EndsWith (x >>= f) w e := by
  obtain ⟨after, w', hf⟩ := h
  exact ⟨after, w', (bind_of_eq hx).trans hf⟩

/-! ## Into the machine -/

/-- The new userdata carries the very exception. -/
theorem raises_raiseException (e : Exception) (w : World) :
    Raises (raiseException e : Script α) w e := by
  let place := (location 1 w).1
  cases hmt : registryTable? errorTableName w with | mk mt w₁
  let cell : Userdata := { payload := .error e place, metatable := mt, home := w₁.machine.id }
  refine ⟨.userdata ⟨w₁.userdata.next⟩, { w₁ with userdata := w₁.userdata.add cell }, ?_, ?_⟩
  · have hplace : (location 1 : Action String) w = (place, w) := rfl
    unfold raiseException
    rw [bind_of_ok (lift_of_eq hplace), bind_of_ok (lift_of_eq hmt)]
    rfl
  · unfold World.carriedException?
    dsimp only
    rw [Store.get?_add_next]

/-- What host code throws inside the machine is raised without its layers. -/
theorem Throws.asScript {x : Host α} (h : Throws x w e) : Raises (asScript x) w e.innermost := by
  obtain ⟨w', hx⟩ := h
  unfold ScriptBridge.asScript
  exact .of_ok (lift_of_eq (attempt_of_error hx)) (raises_raiseException e.innermost w')

end

/-! ## Unwinding scripts -/

section

variable {w w₁ : World} {e : Exception} {E : Engine}

/-- What is raised in the body of a callee is raised by the call. -/
theorem Raises.call {nargs wanted : Int} {pos : Nat} {f : FunctionRef} {stack : Array Value}
    (hslot : w.machine.calleeSlot? nargs.toNat = some pos) (hcallee : Callee w pos f stack)
    (hdeep : w.machine.isTooDeep = false) (h : Raises (E.run f) (w.entered pos f stack) e) :
    Raises (call E nargs wanted) w e := by
  obtain ⟨v, w₂, hbody, hv⟩ := h
  let w₃ : World := { w₂ with machine := w₂.machine.popFrame }
  let w₄ := (cut pos [.function f] w₃).2
  refine ⟨v, (settleBeside v.refs w₄).2, ?_, ?_⟩
  · rw [call_of_callee E wanted hslot hcallee.calleeAt hdeep,
      bind_of_ok (lift_of_eq (attempt_of_error hbody))]
    rfl
  · rw [settleBeside_carried,
      World.carriedException?_of_userdata (cut_userdata w₃ pos [.function f])]
    exact hv

/-- An operation that raises lets go of what it no longer needs. -/
theorem Raises.performOp {op : Op} (h : Raises (runOp E op) w e) :
    Raises (performOp E op) w e := by
  obtain ⟨v, w', hop, hv⟩ := h
  refine ⟨v, (settleBeside v.refs w').2, ?_, (settleBeside_carried w' v).trans hv⟩
  unfold ScriptBridge.performOp
  rw [bind_of_ok (lift_of_eq (attempt_of_error hop))]
  rfl

/-- What an `__index` handler raises is raised by the operation that reads a key. -/
theorem Raises.getTable {i : Int} {object key : Value} (hobject : valueAt i w = (object, w))
    (hkey : popValue w = (key, w₁)) (h : Raises (index E object key) w₁ e) :
    Raises (runGetTable E i) w e := by
  obtain ⟨v, w', hindex, hv⟩ := h
  refine ⟨v, (discard key.refs none w').2, ?_,
    (World.carriedException?_of_userdata (discard_userdata w' _ _)).trans hv⟩
  unfold runGetTable
  rw [bind_of_ok (lift_of_eq hobject), bind_of_ok (lift_of_eq hkey),
    bind_of_ok (lift_of_eq (attempt_of_error hindex)), lift_bind]
  rfl

/-- What the method of a dispatcher fails with is raised without its layers. -/
theorem EndsWith.dispatch {ref : DispatcherRef} {d : Dispatcher} {plan : Plan}
    {target : Option ObjectRef} {values : List HostValue}
    (hprepare : prepareDispatch ref w = .ok (d, plan, target, values) w₁)
    (h : EndsWith (E.invoke plan.method d.cls target values) (w₁.atInvocation target) e) :
    Raises (dispatch E ref) w e.innermost := by
  obtain ⟨after, w₂, hinvoke⟩ := h
  have hplan : ∃ w₃, runPlan E ref d plan target values w₁ = (.error (.exception e), w₃) := by
    have hhold : hold (target.map Ref.object).toList w₁ = ((), w₁.atInvocation target) := rfl
    unfold runPlan
    dsimp only
    rw [bind_of_eq hhold, bind_of_eq hinvoke]
    exact ⟨_, rfl⟩
  obtain ⟨w₃, hplan⟩ := hplan
  rw [dispatch_eq]
  refine .of_ok hprepare ?_
  unfold finishDispatch
  exact .of_ok (lift_of_eq hplan) (raises_raiseException e.innermost w₃)

end

/-! ## Out of the machine -/

section

variable {w w₁ : World} {e : Exception} {v : Value}

/-- The value left by a failed call is the one on top. -/
theorem World.Left.popValue {w' : World} {nargs : Int} (h : w.Left w' nargs [v])
    (hroom : nargs.toNat < w.machine.top) : w'.machine.popValue.1 = v := by
  have hbase : w'.machine.base = w.machine.base := by
    unfold Machine.base
    rw [h.1]
  have hsize : w'.machine.stack.size = w.machine.stack.size - (nargs.toNat + 1) + 1 := by
    rw [← Array.length_toList, h.2, List.length_append, List.length_take, Array.length_toList,
      Nat.min_eq_left (Nat.sub_le _ _), List.length_singleton]
  have hback : w'.machine.stack.back? = some v := by
    rw [← Array.getLast?_toList, h.2, List.getLast?_append]
    rfl
  unfold Machine.top at hroom
  unfold Machine.popValue
  rw [if_pos (by omega), hback]
  rfl

/-- A protected call leaves an error value that carries what the call raised. -/
theorem Raises.protectedCall {d : Nat} {nargs wanted : Int} (hroom : nargs.toNat < w.machine.top)
    (h : Raises (ScriptBridge.call (.ofDepth d) nargs wanted) w e) :
    ∃ v w', protectedCall (.ofDepth d) nargs wanted w = .ok .runtimeError w' ∧
      w'.carriedException? v = some e ∧ w'.machine.popValue.1 = v := by
  obtain ⟨v, w₁, hcall, hv⟩ := h
  let pos := max (w.machine.stack.size - (nargs.toNat + 1)) w₁.machine.base
  let w₂ := (settleBeside v.refs (cut pos [] w₁).2).2
  have hprotected : ScriptBridge.protectedCall (.ofDepth d) nargs wanted w =
      .ok .runtimeError { w₂ with machine := w₂.machine.push v } := by
    unfold ScriptBridge.protectedCall
    rw [bind_of_ok (x := liftM readMachine) rfl,
      bind_of_ok (lift_of_eq (attempt_of_error hcall))]
    rfl
  have hleft := @protectedCall_left w nargs wanted _ (Engine.ofDepth_framed d).run hroom
  rw [hprotected] at hleft
  obtain ⟨hok, -⟩ | ⟨r, w₃, hcall', -, -, hleft⟩ := hleft
  · cases hok
  · rw [hcall] at hcall'
    cases hcall'
    refine ⟨v, _, hprotected, ?_, hleft.popValue hroom⟩
    have hcut := World.carriedException?_of_userdata (v := v) (cut_userdata w₁ pos [])
    exact (settleBeside_carried (cut pos [] w₁).2 v).trans (hcut.trans hv)

/-- A value that carries an exception stands for it. -/
theorem exceptionOf_of_carried (E : Engine) (h : w.carriedException? v = some e) :
    exceptionOf E v w = .ok e w := by
  unfold exceptionOf
  rw [get_bind, h]
  rfl

/-- Taking the error value leaves the userdata that it is. -/
theorem popValue_eq (h : w.machine.popValue.1 = v) :
    popValue w = (v, { w with machine := w.machine.popValue.2 }) := by
  rw [← h]
  rfl

theorem mem_held_of_mem {refs held : List Ref} : ∀ r ∈ refs, r ∈ refs ++ held :=
  fun _ hr => List.mem_append_left _ hr

/-- A delegate or an interface made from a script passes the exception of its script on. -/
theorem Raises.finishCall {d : Nat} {m : Method} {arguments : List HostValue} {top nargs : Nat}
    (hroom : nargs < w.machine.top) (h : Raises (ScriptBridge.call (.ofDepth d) nargs (-1)) w e) :
    EndsWith (finishCall (.ofDepth d) m arguments top nargs) w e := by
  obtain ⟨v, w₁, hcall, hv, hpop⟩ := Raises.protectedCall (by simpa using hroom) h
  let w₂ : World := { w₁ with
    machine := w₁.machine.popValue.2
    held := v.refs ++ w₁.held }
  let w₃ := (setTop top w₂).2
  have hcarried : w₃.carriedException? v = some e :=
    (setTop_carried v top mem_held_of_mem).trans hv
  have hattempt := attempt_of_ok (exceptionOf_of_carried (.ofDepth d) hcarried)
  unfold ScriptBridge.finishCall
  rw [EndsWith]
  refine ⟨arguments, (settle (unhold v.refs w₃).2).2, ?_⟩
  rw [bind_of_eq (attempt_of_ok hcall)]
  dsimp only
  rw [bind_of_eq (popValue_eq hpop)]
  have hhold : hold v.refs { w₁ with machine := w₁.machine.popValue.2 } = ((), w₂) := rfl
  have htop : setTop top w₂ = ((), w₃) := rfl
  rw [bind_of_eq hhold, bind_of_eq htop, bind_of_eq hattempt]
  rfl

/-- An error of the access to the field that an interface calls is passed on too. -/
theorem Raises.callTableMethod {E : Engine} {table : HandleRef} {m : Method}
    {arguments : List HostValue} {self : Value} (hsession : w.session?.isNone = false)
    (hself : handleValue table w = (self, w₁))
    (h : Raises (index E self (.text m.name))
      { w₁ with machine := w₁.machine.push self } e) :
    EndsWith (callTableMethod E table m arguments) w e := by
  obtain ⟨v, w₂, hindex, hv⟩ := h
  let w₃ : World := { w₂ with held := v.refs ++ w₂.held }
  let w₄ := (setTop w.machine.top w₃).2
  have hcarried : w₄.carriedException? v = some e :=
    (setTop_carried v _ mem_held_of_mem).trans hv
  have hattempt : attempt (exceptionOfRaise E (.runtime v)) w₄ = (.ok e, w₄) :=
    attempt_of_ok (exceptionOf_of_carried E hcarried)
  have hmachine : readMachine w = (w.machine, w) := rfl
  have hpush : push self w₁ = ((), { w₁ with machine := w₁.machine.push self }) := rfl
  have hhold : hold (Raise.runtime v).refs w₂ = ((), w₃) := rfl
  have htop : setTop w.machine.top w₃ = ((), w₄) := rfl
  refine ⟨arguments, (settle (unhold v.refs w₄).2).2, ?_⟩
  unfold ScriptBridge.callTableMethod
  rw [bind_of_eq (get_eq w), hsession, if_neg Bool.false_ne_true, bind_of_eq hmachine,
    bind_of_eq hself, bind_of_eq hpush, bind_of_eq (attempt_of_error hindex)]
  dsimp only
  rw [bind_of_eq hhold, bind_of_eq htop, bind_of_eq hattempt]
  rfl

end

end ScriptBridge
