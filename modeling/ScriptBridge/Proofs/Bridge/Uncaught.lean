import ScriptBridge.Proofs.Bridge.Carrying

/-!
# Exceptions that nobody catches

An exception of a host hook may cross the boundary many times: a hook runs a script, the script
calls a hook, and so on. `Uncaught` follows such a run from the hook that fails outwards, one step
for each way in which a program runs another and does not catch what it raises or replace it. The
steps keep the exception: what arrives outside is the exception without its layers, the very
instance.
-/

namespace ScriptBridge

/-! ## Host code -/

section

variable {α β : Type} {w w₁ : World} {e : Exception} {E : Engine}

theorem holding_eq_ok {ε : Type} {x : EStateM ε World α} (refs : List Ref) {a : α} {w' : World}
    (h : x { w with held := refs ++ w.held } = .ok a w') :
    holding refs x w = .ok a (discard refs none { w' with held := w.held }).2 := by
  have hmodify (f : World → World) (w : World) :
    (modify f : EStateM ε World Unit) w = .ok () (f w) := rfl
  unfold ScriptBridge.holding
  rw [get_bind, bind_of_ok (hmodify _ _), bind_of_ok (lift_of_eq (attempt_of_ok h)),
    bind_of_ok (hmodify _ _)]
  rfl

theorem holding_of_ok {ε : Type} {x : EStateM ε World α} (refs : List Ref) {a : α} {w' : World}
    (h : x { w with held := refs ++ w.held } = .ok a w') : ∃ w₂, holding refs x w = .ok a w₂ :=
  ⟨_, holding_eq_ok refs h⟩

theorem Throws.holding {x : Host α} {refs : List Ref}
    (h : Throws x { w with held := refs ++ w.held } e) : Throws (holding refs x) w e := by
  obtain ⟨w', hx⟩ := h
  have hget : (get : Host World) w = .ok w w := rfl
  have hmodify (f : World → World) (w : World) : (modify f : Host Unit) w = .ok () (f w) := rfl
  unfold ScriptBridge.holding
  refine .of_ok hget (.of_ok (hmodify _ _) (.of_ok (lift_of_eq (attempt_of_error hx)) ?_))
  exact .of_ok (hmodify _ _) (.of_ok (lift_of_eq rfl) ⟨_, rfl⟩)

theorem Throws.keeping {x : Host α} {refs : List Ref}
    (h : Throws x { w with held := refs ++ w.held } e) : Throws (keeping refs x) w e := by
  obtain ⟨w', hx⟩ := h
  have hhold : hold refs w = ((), { w with held := refs ++ w.held }) := rfl
  unfold ScriptBridge.keeping
  refine .of_ok (lift_of_eq hhold) (.of_ok (lift_of_eq (attempt_of_error hx)) ?_)
  exact .of_ok (lift_of_eq rfl) ⟨_, rfl⟩

/-- The body of a method. -/
theorem Throws.activate {x : Host α} {a : Activation}
    (h : Throws x { w with activations := a :: w.activations } e) :
    EndsWith (activate a x) w e := by
  obtain ⟨w', hx⟩ := h
  let after := (activation w').1.arguments
  refine ⟨after, { w' with activations := w.activations }, ?_⟩
  have hmodify (f : World → World) (w : World) : (modify f : Action Unit) w = ((), f w) := rfl
  unfold ScriptBridge.activate
  rw [bind_of_eq (get_eq w)]
  dsimp only
  rw [bind_of_eq (hmodify _ _), bind_of_eq (attempt_of_error hx)]
  rfl

/-- A host body throws what a method it called ended with. -/
theorem EndsWith.takeResult {x : Action CallOutcome} (h : EndsWith x w e) (out : Option Nat) :
    Throws (liftM x >>= takeResult out) w e := by
  obtain ⟨after, w', hx⟩ := h
  refine .of_ok (lift_of_eq hx) ?_
  unfold ScriptBridge.takeResult
  exact .of_ok (lift_of_eq rfl) ⟨_, rfl⟩

/-- A delegate made from a script. -/
theorem EndsWith.runDelegate {function : HandleRef} {signature : Method}
    (h : EndsWith (callFunction E function signature (activation w).1.arguments)
      { w with held := .handle function :: w.held } e) :
    Throws (runDelegate E (.script function signature)) w e := by
  obtain ⟨after, w', hcall⟩ := h
  have hactivation : activation w = ((activation w).1, w) := rfl
  have hbody : (liftM (callFunction E function signature (activation w).1.arguments) : Host _)
    { w with held := .handle function :: w.held } = .ok (.error (.exception e), after) w' :=
      lift_of_eq hcall
  obtain ⟨w₂, hheld⟩ := holding_of_ok [.handle function] hbody
  unfold ScriptBridge.runDelegate
  refine .of_ok (lift_of_eq hactivation) (.of_ok hheld ?_)
  exact .of_ok (lift_of_eq rfl) ⟨_, rfl⟩

/-- An interface made from a table. -/
theorem EndsWith.tableMethod {m : Method} {cls cls' : Class} {target : ObjectRef}
    {table : HandleRef} {arguments : List HostValue} (hm : m.body = none)
    (htarget : w.objects.get? target.index = some ⟨cls', .scriptTable table⟩)
    (h : EndsWith (callTableMethod E table m arguments)
      { w with held := arguments.flatMap HostValue.refs ++ w.held } e) :
    EndsWith (m.invoke E cls (some target) arguments) w e := by
  obtain ⟨after, w', hcall⟩ := h
  have hread : (some target).mapM (fun o : ObjectRef => readObject? o) w =
      (some (some ⟨cls', .scriptTable table⟩), w) := by
    show (some (w.objects.get? target.index), w) = _
    rw [htarget]
  have hhold : hold (arguments.flatMap HostValue.refs) w =
    ((), { w with held := arguments.flatMap HostValue.refs ++ w.held }) := rfl
  unfold Method.invoke
  rw [hm]
  exact .of_eq hread (.of_eq hhold (.of_eq hcall ⟨_, _, rfl⟩))

/-- Stack operations that a host body runs. -/
theorem Raises.runOps {ops : List Op} (h : Raises (E.block ops) w e) :
    Throws (runOps E ops) w e := by
  obtain ⟨v, w', hblock, hv⟩ := h
  have htry : tryScript (E.block ops) w = .ok (.error (.runtime v)) w' := by
    unfold tryScript
    rw [bind_of_ok (lift_of_eq (attempt_of_error hblock))]
    rfl
  obtain ⟨w₂, hheld⟩ := holding_of_ok (x := exceptionOf E v) (w := w') v.refs
    (exceptionOf_of_carried E hv)
  unfold ScriptBridge.runOps
  exact .of_ok htry (.of_ok hheld ⟨w₂, rfl⟩)

/-! ## Scripts that catch -/

/-- A userdata carries the same exception as long as it keeps its payload. -/
theorem carriedException?_of_payload {v : Value}
    (h : ∀ u, v = .userdata u → (w₁.userdata.get? u.index).map Userdata.payload =
      (w.userdata.get? u.index).map Userdata.payload) :
    w₁.carriedException? v = w.carriedException? v := by
  cases v with
  | userdata u =>
    have hu := h u rfl
    unfold World.carriedException?
    dsimp only
    cases hcell : w.userdata.get? u.index with
    | none =>
      rw [hcell] at hu
      rw [Option.map_eq_none_iff.mp hu]
    | some cell =>
      rw [hcell] at hu
      obtain ⟨cell', hcell', hpayload⟩ := Option.map_eq_some_iff.mp hu
      rw [hcell']
      obtain ⟨payload, _, _, _⟩ := cell
      obtain ⟨payload', _, _, _⟩ := cell'
      obtain rfl : payload' = payload := hpayload
      cases payload' <;> rfl
  | _ => rfl

/-- A script that raises a value on top of its frame. -/
theorem raises_raise {v : Value} (hpop : w.machine.popValue.1 = v)
    (hv : w.carriedException? v = some e) : Raises (runOp E .raise) w e := by
  unfold runOp
  exact .of_ok (lift_of_eq (popValue_eq hpop)) ⟨v, _, rfl, hv⟩

end

/-! ## Runs without a catch -/

/-- A program on one side of the boundary: a script, host code, or a call of a method of the host
with what it gives afterwards. -/
inductive Routine : Type 1 where
  | script {α : Type} (x : Script α)
  | host {α : Type} (x : Host α)
  | method {α β : Type} (x : Action (Except Failure α × β))

/-- A program fails with an exception, in the way of its side. -/
def Routine.FailsWith (w : World) (e : Exception) : Routine → Prop
  | .script x => Raises x w e
  | .host x => Throws x w e
  | .method x => EndsWith x w e

/-- From a world a program runs into a hook of the host that fails with an exception, and nothing
between the program and the hook catches it or replaces it.

The first two rules are the hooks: code behind the metatables of proxies, such as a getter, a setter
or an indexer, and the methods that dispatchers call, which are all other members. The further rules
say what runs what. -/
inductive Uncaught (e : Exception) : Routine → World → Prop
  | hook {α : Type} {x : Host α} {w : World} (h : Throws x w e) :
    Uncaught e (.script (asScript x)) w
  | member {E : Engine} {ref : DispatcherRef} {d : Dispatcher} {plan : Plan}
    {target : Option ObjectRef} {values : List HostValue} {w w₁ : World}
    (hprepare : prepareDispatch ref w = .ok (d, plan, target, values) w₁)
    (h : EndsWith (E.invoke plan.method d.cls target values) (w₁.atInvocation target) e) :
    Uncaught e (.script (dispatch E ref)) w
  -- Scripts.
  | scriptFirst {α β : Type} {x : Script α} {f : α → Script β} {w : World}
    (h : Uncaught e (.script x) w) : Uncaught e (.script (x >>= f)) w
  | scriptNext {α β : Type} {x : Script α} {f : α → Script β} {a : α} {w w₁ : World}
    (hx : x w = .ok a w₁) (h : Uncaught e (.script (f a)) w₁) : Uncaught e (.script (x >>= f)) w
  | call {E : Engine} {nargs wanted : Int} {pos : Nat} {f : FunctionRef} {stack : Array Value}
    {w : World} (hslot : w.machine.calleeSlot? nargs.toNat = some pos)
    (hcallee : Callee w pos f stack) (hdeep : w.machine.isTooDeep = false)
    (h : Uncaught e (.script (E.run f)) (w.entered pos f stack)) :
    Uncaught e (.script (call E nargs wanted)) w
  | operation {E : Engine} {op : Op} {w : World} (h : Uncaught e (.script (runOp E op)) w) :
    Uncaught e (.script (performOp E op)) w
  | getTable {E : Engine} {i : Int} {object key : Value} {w w₁ : World}
    (hobject : valueAt i w = (object, w)) (hkey : popValue w = (key, w₁))
    (h : Uncaught e (.script (index E object key)) w₁) : Uncaught e (.script (runGetTable E i)) w
  /-- A script may catch the error value and do anything with it. If it raises it again later, the
  run goes on as if it had not been caught. -/
  | raisedAgain {E : Engine} {d : Nat} {nargs wanted : Int} {status : Status} {w w₁ w₂ : World}
    (hroom : nargs.toNat < w.machine.top)
    (h : Uncaught e (.script (call (.ofDepth d) nargs wanted)) w)
    (hcaught : protectedCall (.ofDepth d) nargs wanted w = .ok status w₁)
    (hvalue : w₂.machine.popValue.1 = w₁.machine.popValue.1)
    (hcell : ∀ u, w₁.machine.popValue.1 = .userdata u →
      (w₂.userdata.get? u.index).map Userdata.payload =
        (w₁.userdata.get? u.index).map Userdata.payload) :
    Uncaught e (.script (runOp E .raise)) w₂
  -- Host code that scripts run.
  | handler {α : Type} {x : Host α} {w : World} (h : Uncaught e (.host x) w) :
    Uncaught e (.script (asScript x)) w
  | dispatched {E : Engine} {ref : DispatcherRef} {d : Dispatcher} {plan : Plan}
    {target : Option ObjectRef} {values : List HostValue} {w w₁ : World}
    (hprepare : prepareDispatch ref w = .ok (d, plan, target, values) w₁)
    (h : Uncaught e (.method (E.invoke plan.method d.cls target values))
      (w₁.atInvocation target)) :
    Uncaught e (.script (dispatch E ref)) w
  -- Bodies of the host.
  | hostFirst {α β : Type} {x : Host α} {f : α → Host β} {w : World} (h : Uncaught e (.host x) w) :
    Uncaught e (.host (x >>= f)) w
  | hostNext {α β : Type} {x : Host α} {f : α → Host β} {a : α} {w w₁ : World}
    (hx : x w = .ok a w₁) (h : Uncaught e (.host (f a)) w₁) : Uncaught e (.host (x >>= f)) w
  | holding {α : Type} {x : Host α} {refs : List Ref} {w : World}
    (h : Uncaught e (.host x) { w with held := refs ++ w.held }) :
    Uncaught e (.host (holding refs x)) w
  | keeping {α : Type} {x : Host α} {refs : List Ref} {w : World}
    (h : Uncaught e (.host x) { w with held := refs ++ w.held }) :
    Uncaught e (.host (keeping refs x)) w
  | result {x : Action CallOutcome} {out : Option Nat} {w : World} (h : Uncaught e (.method x) w) :
    Uncaught e (.host (liftM x >>= takeResult out)) w
  | methodNext {α β γ : Type} {x : Action γ} {f : γ → Action (Except Failure α × β)} {a : γ}
    {w w₁ : World} (hx : x w = (a, w₁)) (h : Uncaught e (.method (f a)) w₁) :
    Uncaught e (.method (x >>= f)) w
  | body {α : Type} {x : Host α} {a : Activation} {w : World}
    (h : Uncaught e (.host x) { w with activations := a :: w.activations }) :
    Uncaught e (.method (activate a x)) w
  -- Scripts that host code runs: by operations on the stack, as a delegate or as an interface.
  | operations {E : Engine} {ops : List Op} {w : World} (h : Uncaught e (.script (E.block ops)) w) :
    Uncaught e (.host (runOps E ops)) w
  | delegate {E : Engine} {function : HandleRef} {signature : Method} {w : World}
    (h : Uncaught e (.method (callFunction E function signature (activation w).1.arguments))
      { w with held := .handle function :: w.held }) :
    Uncaught e (.host (runDelegate E (.script function signature))) w
  | interface {E : Engine} {m : Method} {cls cls' : Class} {target : ObjectRef} {table : HandleRef}
    {arguments : List HostValue} {w : World} (hm : m.body = none)
    (htarget : w.objects.get? target.index = some ⟨cls', .scriptTable table⟩)
    (h : Uncaught e (.method (callTableMethod E table m arguments))
      { w with held := arguments.flatMap HostValue.refs ++ w.held }) :
    Uncaught e (.method (m.invoke E cls (some target) arguments)) w
  | field {E : Engine} {table : HandleRef} {m : Method} {arguments : List HostValue} {self : Value}
    {w w₁ : World} (hsession : w.session?.isNone = false)
    (hself : handleValue table w = (self, w₁))
    (h : Uncaught e (.script (index E self (.text m.name)))
      { w₁ with machine := w₁.machine.push self }) :
    Uncaught e (.method (callTableMethod E table m arguments)) w
  | finish {d : Nat} {m : Method} {arguments : List HostValue} {top nargs : Nat} {w : World}
    (hroom : nargs < w.machine.top) (h : Uncaught e (.script (call (.ofDepth d) nargs (-1))) w) :
    Uncaught e (.method (finishCall (.ofDepth d) m arguments top nargs)) w

/-- What nobody catches arrives, without its layers. -/
theorem Uncaught.failsWith {e : Exception} {r : Routine} {w : World} (h : Uncaught e r w) :
    r.FailsWith w e.innermost := by
  induction h with
  | hook h => exact h.asScript
  | member hprepare h => exact h.dispatch hprepare
  | scriptFirst _ ih => exact Raises.bind ih _
  | scriptNext hx _ ih => exact Raises.of_ok hx ih
  | call hslot hcallee hdeep _ ih => exact Raises.call hslot hcallee hdeep ih
  | operation _ ih => exact Raises.performOp ih
  | getTable hobject hkey _ ih => exact Raises.getTable hobject hkey ih
  | raisedAgain hroom _ hcaught hvalue hcell ih =>
    obtain ⟨v, w', hprotected, hv, hpop⟩ := Raises.protectedCall hroom ih
    cases hcaught.symm.trans hprotected
    rw [hpop] at hvalue hcell
    exact raises_raise hvalue ((carriedException?_of_payload hcell).trans hv)
  | handler _ ih =>
    have hraises := Throws.asScript ih
    rw [Exception.innermost_innermost] at hraises
    exact hraises
  | dispatched hprepare _ ih =>
    have hraises := EndsWith.dispatch hprepare ih
    rw [Exception.innermost_innermost] at hraises
    exact hraises
  | hostFirst _ ih => exact Throws.bind ih _
  | hostNext hx _ ih => exact Throws.of_ok hx ih
  | holding _ ih => exact Throws.holding ih
  | keeping _ ih => exact Throws.keeping ih
  | result _ ih => exact EndsWith.takeResult ih _
  | methodNext hx _ ih => exact EndsWith.of_eq hx ih
  | body _ ih => exact Throws.activate ih
  | operations _ ih => exact Raises.runOps ih
  | delegate _ ih => exact EndsWith.runDelegate ih
  | interface hm htarget _ ih => exact EndsWith.tableMethod hm htarget ih
  | field hsession hself _ ih => exact Raises.callTableMethod hsession hself ih
  | finish hroom _ ih => exact Raises.finishCall hroom ih

/-- A value that a machine pops, unless it is nil, is on its stack. -/
theorem Machine.mem_of_popValue {m : Machine} {v : Value} (h : m.popValue.1 = v) (hv : v ≠ .nil) :
    v ∈ m.stack := by
  unfold popValue at h
  split at h
  · cases hback : m.stack.back? with
    | none =>
      rw [hback] at h
      exact absurd h.symm hv
    | some u =>
      rw [hback] at h
      obtain rfl : u = v := h
      exact Array.mem_of_back? hback
  · exact absurd h.symm hv

/-- A script that catches an error and at once raises it again might as well not catch it. -/
theorem Uncaught.rethrown {e : Exception} {d : Nat} {nargs wanted : Int} {rest : List Op}
    {w : World} (hroom : nargs.toNat < w.machine.top)
    (h : Uncaught e (.script (ScriptBridge.call (.ofDepth d) nargs wanted)) w) :
    Uncaught e (.script (runBlock (.ofDepth d) (.protectedCall nargs wanted :: .raise :: rest)))
      w := by
  obtain ⟨v, w₁, hcaught, hv, hpop⟩ := Raises.protectedCall hroom h.failsWith
  obtain ⟨u, rfl⟩ := World.exists_userdata_of_carried hv
  have hop : performOp (.ofDepth d) (.protectedCall nargs wanted) w =
      .ok (.answer (.status .runtimeError)) w₁.settle := by
    have hrun : runOp (.ofDepth d) (.protectedCall nargs wanted) w =
        .ok (.answer (.status .runtimeError)) w₁ := by
      show (do return .answer (.status (← protectedCall (.ofDepth d) nargs wanted)) :
        Script Step) w = _
      rw [bind_of_ok hcaught]
      rfl
    unfold performOp
    rw [bind_of_ok (lift_of_eq (attempt_of_ok hrun))]
    rfl
  have hkept := World.settle_userdata (w := w₁) (.inr (Machine.mem_of_popValue hpop nofun))
  unfold runBlock
  refine .scriptNext hop (.scriptNext (lift_of_eq rfl) ?_)
  unfold runBlock
  refine .scriptFirst (.operation (.raisedAgain hroom h hcaught ?_ fun u' hu' => ?_))
  · exact (World.settle_sameStack w₁).popValue.1
  · rw [hpop] at hu'
    cases hu'
    exact congrArg (Option.map Userdata.payload) hkept

/-! ## The hooks -/

/-- A member that is read or assigned by hooks of its own. -/
def FoundMember.field? : FoundMember → Option Field
  | .field f | .property f => some f
  | _ => none

/-- The method that a dispatcher is about to call fails with an exception. -/
def MemberFails (E : Engine) (ref : DispatcherRef) (w : World) (e : Exception) : Prop :=
  ∃ d plan target values w₁, prepareDispatch ref w = .ok (d, plan, target, values) w₁ ∧
    EndsWith (E.invoke plan.method d.cls target values) (w₁.atInvocation target) e

/-- A hook of the host that the code of a function runs fails with an exception: a getter or a
setter of an object or a class, an indexer, or a method, which may be a constructor, the addition or
the removal of a handler of an event, or the body of a delegate. -/
inductive HookFails (E : Engine) (e : Exception) : Code → World → Prop
  | getter {ref : ObjectRef} {o : HostObject} {name : String} {found : FoundMember} {f : Field}
    {get : Getter} {w w₁ w₂ : World} (hself : selfObject w = .ok (ref, o) w₁)
    (hmember : namedMember? o.cls .onObject w₁ = (some (name, found), w₂))
    (hfound : found.field? = some f) (hget : f.get = some get)
    (h : Throws (get.run (some ref)) w₂ e) : HookFails E e (.handler .objectIndex) w
  | setter {ref : ObjectRef} {o : HostObject} {name : String} {found : FoundMember} {f : Field}
    {set : Setter} {v : HostValue} {w w₁ w₂ w₃ : World} (hself : selfObject w = .ok (ref, o) w₁)
    (hkey : w₁.machine.value 2 = .text name)
    (hmember : member? o.cls .onObject name w₁ = (some found, w₂))
    (hinstance : found.isStatic = false) (hfound : found.field? = some f)
    (hset : f.set = some set) (hv : convertSlot 3 f.type w₂ = .ok v w₃)
    (h : Throws (set.run (some ref) v) w₃ e) : HookFails E e (.handler .objectAssign) w
  | indexerGet {ref : ObjectRef} {o : HostObject} {owner : Class} {indexer : Indexer}
    {key : HostValue} {w w₁ w₂ w₃ w₄ : World} (hself : selfObject w = .ok (ref, o) w₁)
    (hmember : namedMember? o.cls .onObject w₁ = (none, w₂))
    (helement : pushElement o w₂ = .ok false w₃)
    (howner : indexerClass? o.cls w₃ = (some owner, w₃)) (hindexer : owner.indexer = some indexer)
    (hget : indexer.get = true) (hkey : convertSlot 2 indexer.key w₃ = .ok key w₄)
    (h : Throws (ScriptBridge.indexerGet ref key) w₄ e) : HookFails E e (.handler .objectIndex) w
  | indexerSet {ref : ObjectRef} {o : HostObject} {owner : Class} {indexer : Indexer}
    {key v : HostValue} {w w₁ w₂ w₃ w₄ w₅ : World} (hself : selfObject w = .ok (ref, o) w₁)
    (hmember : assignNamed ref o.cls w₁ = .ok false w₂)
    (helement : assignElement ref o w₂ = .ok false w₃)
    (howner : indexerClass? o.cls w₃ = (some owner, w₃)) (hindexer : owner.indexer = some indexer)
    (hset : indexer.set = true) (hkey : convertSlot 2 indexer.key w₃ = .ok key w₄)
    (hv : convertSlot 3 indexer.value w₄ = .ok v w₅)
    (h : Throws (ScriptBridge.indexerSet ref key v) w₅ e) :
    HookFails E e (.handler .objectAssign) w
  | staticGetter {cls : Class} {name : String} {found : FoundMember} {f : Field} {get : Getter}
    {w w₁ w₂ : World} (hself : selfType w = .ok cls w₁) (hkey : w₁.machine.value 2 = .text name)
    (hmember : member? cls .static name w₁ = (some found, w₂)) (hfound : found.field? = some f)
    (hget : f.get = some get) (h : Throws (get.run none) w₂ e) :
    HookFails E e (.handler .typeIndex) w
  | staticSetter {cls : Class} {name : String} {found : FoundMember} {f : Field} {set : Setter}
    {v : HostValue} {w w₁ w₂ w₃ : World} (hself : selfType w = .ok cls w₁)
    (hkey : w₁.machine.value 2 = .text name)
    (hmember : member? cls .static name w₁ = (some found, w₂)) (hfound : found.field? = some f)
    (hset : f.set = some set) (hv : convertSlot 3 f.type w₂ = .ok v w₃)
    (h : Throws (set.run none v) w₃ e) : HookFails E e (.handler .typeAssign) w
  | method {ref : DispatcherRef} {w : World} (h : MemberFails E ref w e) :
    HookFails E e (.dispatcher ref) w
  | constructor {cls : Class} {ref : DispatcherRef} {w w₁ w₂ : World}
    (hself : selfType w = .ok cls w₁) (hmember : constructor? cls w₁ = (some ref, w₂))
    (h : MemberFails E ref (onStack (·.remove 1) w₂).2 e) : HookFails E e (.handler .typeCall) w
  | delegate {target : ObjectRef} {o : HostObject} {ref : DispatcherRef} {f : FunctionRef}
    {binding : Binding} {w w₁ w₂ : World} (hself : selfObject w = .ok (target, o) w₁)
    (hmember : member? o.cls .onObject "Invoke" w₁ = (some (.method ref f binding), w₂))
    (h : MemberFails E ref w₂ e) : HookFails E e (.handler .delegateCall) w

section

variable {w w₁ w₂ w₃ : World} {e : Exception} {E : Engine}

theorem throws_pushMember {target : Option ObjectRef} {found : FoundMember} {f : Field}
    {get : Getter} (hfound : found.field? = some f) (hget : f.get = some get)
    (h : Throws (get.run target) w e) : Throws (pushMember target found) w e := by
  cases found with
  | field f' | property f' =>
    cases hfound
    unfold pushMember
    dsimp only
    rw [hget]
    exact h.bind _
  | _ => cases hfound

theorem throws_assignMember {target : Option ObjectRef} {cls : Class} {name : String}
    {found : FoundMember} {f : Field} {set : Setter} {v : HostValue}
    (hfound : found.field? = some f) (hset : f.set = some set)
    (hv : convertSlot 3 f.type w = .ok v w₁) (h : Throws (set.run target v) w₁ e) :
    Throws (assignMember target cls name found) w e := by
  cases found with
  | field f' | property f' =>
    cases hfound
    unfold assignMember
    dsimp only
    rw [hset]
    exact .of_ok hv h
  | _ => cases hfound

theorem throws_pushIndexed {ref : ObjectRef} {o : HostObject} {owner : Class} {indexer : Indexer}
    {key : HostValue} (howner : indexerClass? o.cls w = (some owner, w))
    (hindexer : owner.indexer = some indexer) (hget : indexer.get = true)
    (hkey : convertSlot 2 indexer.key w = .ok key w₁) (h : Throws (indexerGet ref key) w₁ e) :
    Throws (pushIndexed ref o) w e := by
  unfold pushIndexed
  refine .of_ok (lift_of_eq howner) ?_
  rw [Option.bind_some, hindexer]
  dsimp only
  rw [if_pos hget]
  exact .of_ok hkey (h.bind _)

theorem throws_assignIndexed {ref : ObjectRef} {o : HostObject} {owner : Class}
    {indexer : Indexer} {key v : HostValue} (howner : indexerClass? o.cls w = (some owner, w))
    (hindexer : owner.indexer = some indexer) (hset : indexer.set = true)
    (hkey : convertSlot 2 indexer.key w = .ok key w₁)
    (hv : convertSlot 3 indexer.value w₁ = .ok v w₂) (h : Throws (indexerSet ref key v) w₂ e) :
    Throws (assignIndexed ref o) w e := by
  unfold assignIndexed
  refine .of_ok (lift_of_eq howner) ?_
  dsimp only
  rw [hindexer]
  dsimp only
  rw [hset, Bool.not_true, if_neg Bool.false_ne_true]
  refine .of_ok hkey (.of_ok (lift_of_eq (attempt_of_ok hv)) ?_)
  exact h.bind _

theorem lift_valueAt {ε : Type} (i : Int) (w : World) :
    (liftM (valueAt i) : EStateM ε World Value) w = .ok (w.machine.value i) w :=
  rfl

theorem throws_assignNamed {ref : ObjectRef} {cls : Class} {name : String} {found : FoundMember}
    {f : Field} {set : Setter} {v : HostValue} (hkey : w.machine.value 2 = .text name)
    (hmember : member? cls .onObject name w = (some found, w₁))
    (hinstance : found.isStatic = false) (hfound : found.field? = some f)
    (hset : f.set = some set) (hv : convertSlot 3 f.type w₁ = .ok v w₂)
    (h : Throws (set.run (some ref) v) w₂ e) : Throws (assignNamed ref cls) w e := by
  unfold assignNamed
  refine .of_ok (lift_valueAt 2 w) ?_
  rw [hkey]
  refine .of_ok (lift_of_eq hmember) ?_
  rw [Option.filter_some, hinstance, Bool.not_false, if_pos rfl]
  exact (throws_assignMember hfound hset hv h).bind _

theorem Uncaught.inSession {x : Host Nat} (hsession : w.session?.isNone = false)
    (h : Throws x w e) : Uncaught e (.script (inSession x)) w := by
  have hget : (get : Script World) w = .ok w w := rfl
  unfold ScriptBridge.inSession
  refine .scriptNext hget ?_
  rw [hsession, if_neg Bool.false_ne_true]
  exact .hook h

/-- What a getter throws is thrown by the handler that reads it. -/
theorem throws_typeIndex {cls : Class} {name : String} {found : FoundMember} {f : Field}
    {get : Getter} (hself : selfType w = .ok cls w₁) (hkey : w₁.machine.value 2 = .text name)
    (hmember : member? cls .static name w₁ = (some found, w₂)) (hfound : found.field? = some f)
    (hget : f.get = some get) (h : Throws (get.run none) w₂ e) : Throws typeIndex w e := by
  have hname : keyName 2 w₁ = (name, w₁) := by
    show ((w₁.machine.value 2).toText?.getD _, w₁) = _
    rw [hkey]
    rfl
  unfold typeIndex
  refine .of_ok hself (.of_ok (lift_valueAt 2 w₁) ?_)
  rw [hkey]
  exact .of_ok (lift_of_eq hname) (.of_ok (lift_of_eq hmember)
    ((throws_pushMember hfound hget h).bind _))

theorem throws_typeAssign {cls : Class} {name : String} {found : FoundMember} {f : Field}
    {set : Setter} {v : HostValue} (hself : selfType w = .ok cls w₁)
    (hkey : w₁.machine.value 2 = .text name)
    (hmember : member? cls .static name w₁ = (some found, w₂)) (hfound : found.field? = some f)
    (hset : f.set = some set) (hv : convertSlot 3 f.type w₂ = .ok v w₃)
    (h : Throws (set.run none v) w₃ e) : Throws typeAssign w e := by
  have hname : keyName 2 w₁ = (name, w₁) := by
    show ((w₁.machine.value 2).toText?.getD _, w₁) = _
    rw [hkey]
    rfl
  unfold typeAssign
  exact .of_ok hself (.of_ok (lift_of_eq hname) (.of_ok (lift_of_eq hmember)
    ((throws_assignMember hfound hset hv h).bind _)))

theorem asScript_of_ok {α : Type} {x : Host α} {a : α} (h : x w = .ok a w₁) :
    asScript x w = .ok a w₁ := by
  unfold asScript
  rw [bind_of_ok (lift_of_eq (attempt_of_ok h))]
  rfl

/-- A function whose code runs a hook that fails is left by the exception. -/
theorem HookFails.uncaught {f : FunctionRef} {label : Label} {code : Code}
    (h : HookFails E e code w) (hsession : w.session?.isNone = false)
    (hf : w.functions.get? f.index = some ⟨label, code⟩) :
    Uncaught e (.script (runFunction E f)) w := by
  have hget : (get : Script World) w = .ok w w := rfl
  unfold runFunction
  refine .scriptNext hget ?_
  rw [hf]
  cases h with
  | getter hself hmember hfound hget h =>
    refine .inSession hsession ?_
    unfold objectIndex
    exact .of_ok hself (.of_ok (lift_of_eq hmember) ((throws_pushMember hfound hget h).bind _))
  | setter hself hkey hmember hinstance hfound hset hv h =>
    refine .inSession hsession ?_
    unfold objectAssign
    exact .of_ok hself
      ((throws_assignNamed hkey hmember hinstance hfound hset hv h).bind _)
  | indexerGet hself hmember helement howner hindexer hget hkey h =>
    refine .inSession hsession ?_
    unfold objectIndex
    exact .of_ok hself (.of_ok (lift_of_eq hmember) (.of_ok helement
      ((throws_pushIndexed howner hindexer hget hkey h).bind _)))
  | indexerSet hself hmember helement howner hindexer hset hkey hv h =>
    refine .inSession hsession ?_
    unfold objectAssign
    exact .of_ok hself (.of_ok hmember (.of_ok helement
      ((throws_assignIndexed howner hindexer hset hkey hv h).bind _)))
  | staticGetter hself hkey hmember hfound hget h =>
    exact .inSession hsession (throws_typeIndex hself hkey hmember hfound hget h)
  | staticSetter hself hkey hmember hfound hset hv h =>
    exact .inSession hsession (throws_typeAssign hself hkey hmember hfound hset hv h)
  | method h =>
    obtain ⟨d, plan, target, values, w₁, hprepare, h⟩ := h
    exact .member hprepare h
  | constructor hself hmember h =>
    obtain ⟨d, plan, target, values, w₁, hprepare, h⟩ := h
    show Uncaught e (.script (typeCall E)) w
    unfold typeCall
    refine .scriptNext hget ?_
    rw [hsession, if_neg Bool.false_ne_true]
    exact .scriptNext (asScript_of_ok hself) (.scriptNext (lift_of_eq hmember)
      (.scriptNext (lift_of_eq rfl) (.member hprepare h)))
  | delegate hself hmember h =>
    obtain ⟨d, plan, target, values, w₁, hprepare, h⟩ := h
    show Uncaught e (.script (delegateCall E)) w
    unfold delegateCall
    refine .scriptNext hget ?_
    rw [hsession, if_neg Bool.false_ne_true]
    exact .scriptNext (asScript_of_ok hself) (.scriptNext (lift_of_eq hmember)
      (.member hprepare h))

end

/-! ## Where the host hears of it -/

/-- The world in which some host values were pushed. -/
def World.pushed (w : World) (vs : List HostValue) : World :=
  vs.foldl (fun w v => (pushHost v w).2) w

section

variable {w w₁ : World} {e : Exception} {d : Nat}

theorem pushAll_eq (vs : List HostValue) (w : World) :
    (vs.forM fun v => liftM (pushHost v) : Host Unit) w = .ok () (w.pushed vs) := by
  induction vs generalizing w with
  | nil => rfl
  | cons v rest ih =>
    have hpush : pushHost v w = ((), (pushHost v w).2) := rfl
    show ((liftM (pushHost v) : Host Unit) >>= fun _ =>
      rest.forM fun v => liftM (pushHost v) : Host Unit) w = _
    rw [bind_of_ok (lift_of_eq hpush), ih]
    rfl

theorem World.pushed_above (hw : w.machine.HasFrame) (vs : List HostValue) :
    w.machine.Above vs.length (w.pushed vs).machine := by
  have hpushed := leads_pushAll hw 0 vs w (.refl _)
  rw [pushAll_eq, Nat.zero_add] at hpushed
  exact hpushed

theorem throws_throwRaise {α : Type} {E : Engine} {v : Value}
    (hv : w.carriedException? v = some e) : Throws (throwRaise E (.runtime v) : Host α) w e := by
  obtain ⟨w₂, hheld⟩ := holding_of_ok (x := exceptionOfRaise E (.runtime v)) (w := w) v.refs
    (exceptionOf_of_carried E hv)
  unfold throwRaise
  exact .of_ok hheld ⟨w₂, rfl⟩

/-- Calling a value throws what nobody in the call catches. -/
theorem throws_callValue {function : HostValue} {arguments : List HostValue}
    (hw : w.machine.HasFrame)
    (h : Raises (call (.ofDepth d) arguments.length (-1)) (w.pushed (function :: arguments)) e) :
    Throws (callValue (.ofDepth d) function arguments) w e := by
  have hroom : (arguments.length : Int).toNat <
      (w.pushed (function :: arguments)).machine.top := by
    have habove := World.pushed_above hw (function :: arguments)
    have hsize := habove.size
    rw [List.length_cons] at hsize
    unfold Machine.HasFrame at hw
    unfold Machine.top
    rw [habove.base_eq]
    omega
  obtain ⟨v, w₁, hcall, hv, hpop⟩ := Raises.protectedCall hroom h
  let w₂ : World := { w₁ with
    machine := w₁.machine.popValue.2
    held := v.refs ++ w₁.held }
  have hcarried : (setTop w.machine.top w₂).2.carriedException? v = some e :=
    (setTop_carried v _ mem_held_of_mem).trans hv
  have hmachine : readMachine w = (w.machine, w) := rfl
  have htry : tryScript (protectedCall (.ofDepth d) arguments.length (-1))
      (w.pushed (function :: arguments)) = .ok (.ok .runtimeError) w₁ := by
    unfold tryScript
    rw [bind_of_ok (lift_of_eq (attempt_of_ok hcall))]
    rfl
  have hhold : hold v.refs { w₁ with machine := w₁.machine.popValue.2 } = ((), w₂) := rfl
  unfold callValue
  refine .of_ok (lift_of_eq hmachine) (.of_ok (lift_of_eq rfl)
    (.of_ok (pushAll_eq arguments _) (.of_ok htry (.of_ok (lift_of_eq (popValue_eq hpop)) ?_))))
  exact .of_ok (lift_of_eq hhold) (.of_ok (lift_of_eq rfl)
    (.of_ok (lift_of_eq rfl) (throws_throwRaise hcarried)))

/-- An exception keeps its identity across the boundary. A hook of the host that a function runs
fails with it, in as many layers as callers put around it. When nobody catches it, however many
scripts and host bodies lie in between, a protected call leaves a value that stands for the
exception without its layers, and a call of a value or of a delegate by the host throws it. A script
that catches it and raises it again does not count as one that caught it. -/
theorem exceptions_keep_identity (d : Nat) (w : World) (e : Exception) :
    (∀ f label code, w.functions.get? f.index = some ⟨label, code⟩ →
      w.session?.isNone = false → HookFails (.ofDepth d) e code w →
      Uncaught e (.script ((Engine.ofDepth (d + 1)).run f)) w) ∧
    (∀ nargs wanted rest, nargs.toNat < w.machine.top →
      Uncaught e (.script (call (.ofDepth d) nargs wanted)) w →
      Uncaught e (.script ((Engine.ofDepth (d + 1)).block
        (.protectedCall nargs wanted :: .raise :: rest))) w) ∧
    (∀ nargs wanted, nargs.toNat < w.machine.top →
      Uncaught e (.script (call (.ofDepth d) nargs wanted)) w →
      ∃ v w₁ w₂ w₃, protectedCall (.ofDepth d) nargs wanted w = .ok .runtimeError w₁ ∧
        popValue w₁ = (v, w₂) ∧ exceptionOf (.ofDepth d) v w₂ = .ok e.innermost w₃) ∧
    (∀ function arguments, w.machine.HasFrame →
      Uncaught e (.script (call (.ofDepth d) arguments.length (-1)))
        (w.pushed (function :: arguments)) →
      ∃ w', callValue (.ofDepth d) function arguments w = .error (.exception e.innermost) w') ∧
    (∀ delegate arguments,
      Uncaught e (.method (invokeDelegate (.ofDepth d) delegate arguments)) w →
      ∃ after w', invokeDelegate (.ofDepth d) delegate arguments w =
        ((.error (.exception e.innermost), after), w')) := by
  refine ⟨fun f label code hf hsession h => h.uncaught hsession hf,
    fun nargs wanted rest hroom h => h.rethrown hroom, fun nargs wanted hroom h => ?_,
    fun function arguments hw h => throws_callValue hw h.failsWith,
    fun delegate arguments h => h.failsWith⟩
  obtain ⟨v, w₁, hcall, hv, hpop⟩ := Raises.protectedCall hroom h.failsWith
  exact ⟨v, w₁, _, _, hcall, popValue_eq hpop, exceptionOf_of_carried _ hv⟩

end

/-! ### A script that raises again what it caught -/

/-- A static method that throws an exception in a layer. -/
def explodeMethod : Method where
  name := "explode"
  declaringType := "Vault"
  params := []
  ret := .void
  isStatic := true
  body := some (.statements [.throw (.duringInvoke "open" (.named "vault exploded"))])

def explodeDispatcher : Dispatcher where
  name := "explode"
  cls := { name := "Vault" }
  binding := .static
  candidates := [explodeMethod]

/-- A script is about to be called with a function of the host. It catches what its argument raises
and raises it again. -/
def World.rethrowing : World where
  functions := (Store.add {} ⟨.none, .script [.protectedCall 0 0, .raise]⟩).add
    ⟨.none, .dispatcher ⟨0⟩⟩
  dispatchers := Store.add {} explodeDispatcher
  machine := {
    id := 0, registry := ⟨0⟩, globals := ⟨0⟩, appData := .session
    stack := #[.function ⟨0⟩, .function ⟨1⟩]
    session := some { id := 0, options := {}, adapters := .build, objects := ⟨0⟩ } }

/-- The exception that the method throws. -/
def explosion : Exception := ⟨1, .duringInvoke "open" 0 (.message "vault exploded")⟩

/-- The script runs. -/
def World.inScript : World := rethrowing.entered 0 ⟨0⟩ rethrowing.machine.stack

theorem explode_fails :
    MemberFails (.ofDepth 4) ⟨0⟩ (World.inScript.entered 1 ⟨1⟩ World.inScript.machine.stack)
      explosion := by
  let w := World.inScript.entered 1 ⟨1⟩ World.inScript.machine.stack
  have hprepare : prepareDispatch ⟨0⟩ w =
      .ok (explodeDispatcher, ⟨explodeMethod, [], [], [], true, 0⟩, none, [])
        { w with dispatchers := w.dispatchers.modify 0 ({ · with plan := none }) } := rfl
  exact ⟨_, _, _, _, _, hprepare, _, _, rfl⟩

theorem rethrowing_uncaught :
    Uncaught explosion (.script (call (.ofDepth 7) 1 0)) World.rethrowing := by
  have hinner : Uncaught explosion (.script (call (.ofDepth 5) 0 0)) World.inScript :=
    .call (show World.inScript.machine.calleeSlot? 0 = some 1 from rfl) (.function rfl) rfl
      (HookFails.uncaught (.method explode_fails) rfl rfl)
  refine .call (show World.rethrowing.machine.calleeSlot? 1 = some 0 from rfl) (.function rfl) rfl
    ?_
  exact .scriptNext (x := get) rfl (.scriptFirst (.rethrown (by decide) hinner))

/-- The exception arrives without its layer. -/
theorem exceptions_keep_identity_rethrowing :
    ∃ v w₁ w₂ w₃, protectedCall (.ofDepth 7) 1 0 World.rethrowing = .ok .runtimeError w₁ ∧
      popValue w₁ = (v, w₂) ∧
      exceptionOf (.ofDepth 7) v w₂ = .ok ⟨0, .message "vault exploded"⟩ w₃ :=
  (exceptions_keep_identity 7 World.rethrowing explosion).2.2.1 1 0 (by decide)
    rethrowing_uncaught

end ScriptBridge
