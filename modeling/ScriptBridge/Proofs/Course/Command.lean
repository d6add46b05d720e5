import ScriptBridge.Proofs.Course.Run
import ScriptBridge.Script.Command

/-!
# Commands under a conduct

What host code does with a session, the declaration of classes and the commands of a run are alike
under two engines that run everything alike. A call on a machine without session is not among them:
it sets the running machine aside.
-/

namespace ScriptBridge

variable {C : Conduct} {own : Bool} {R : Regime}

/-! ## Declarations -/

theorem orderly_store (v : HostValue) : Orderly R (store v) := orderly_newCell _

theorem orderly_buildParams (specs : List ParamSpec) : Orderly R (buildParams specs) :=
  .bind (orderly_mapM orderly_paramSpecBuild specs) fun _ =>
    .bind (orderly_mapM orderly_store _) fun _ => .pure _

theorem orderly_staticField (name : String) (type : HostType) (init : HostValue) :
    Orderly R (staticField name type init) :=
  .bind (orderly_store init) fun _ => .pure _

theorem orderly_buildProperty (name : String) (isStatic : Bool) (type : HostType)
    (init : HostLiteral) (get set : Option Accessor) :
    Orderly R (buildProperty name isStatic type init get set) := by
  unfold buildProperty
  split
  · refine .bind (orderly_hostLiteralBuild init) fun v => .bind (orderly_store v) fun c => ?_
    exact .guard (orderly_discard _) (.pure _)
  · exact .pure _

theorem orderly_buildEvent (name : String) (isStatic : Bool) (delegateType : String)
    (add remove : Accessor) : Orderly R (buildEvent name isStatic delegateType add remove) :=
  .bind (orderly_newCell _) fun _ => .pure _

theorem orderly_memberBuild (owner : String) (m : MemberDecl) : Orderly R (m.build owner) := by
  cases m with
  | method name isStatic params ret body =>
    exact .bind (orderly_buildParams params) fun _ => .pure _
  | abstract name params ret => exact .bind (orderly_buildParams params) fun _ => .pure _
  | field name isStatic type init =>
    unfold MemberDecl.build
    dsimp only
    split
    · exact .bind (orderly_hostLiteralBuild init) fun v =>
        .bind (orderly_staticField name type v) fun _ => .pure _
    · exact .pure _
  | property name isStatic type init get set =>
    exact .bind (orderly_buildProperty _ _ _ _ _ _) fun _ => .pure _
  | event name isStatic delegateType add remove =>
    exact .bind (orderly_buildEvent _ _ _ _ _) fun _ => .pure _
  | nested name fullName => exact .pure _

theorem orderly_constructorBuild (owner : String) (c : ConstructorDecl) :
    Orderly R (c.build owner) :=
  .bind (orderly_buildParams c.params) fun _ => .pure _

theorem orderly_classBuild (d : ClassDecl) : Orderly R d.build := by
  cases d with
  | full name b =>
    exact .bind (orderly_mapM (orderly_constructorBuild name) _) fun _ =>
      .bind (orderly_mapM (orderly_memberBuild name) _) fun _ => .pure _
  | delegate name params ret => exact .bind (orderly_buildParams params) fun _ => .pure _

theorem orderly_declare [R.Fills] (d : ClassDecl) : Orderly R (declare d) :=
  .bind (orderly_classBuild d) fun _ => .bind orderly_readSession fun _ =>
    .bind (.fill fun _ _ => .session _ fun _ _ => ⟨rfl, rfl, rfl, fun h => h.register _, rfl,
      rfl, rfl, fun _ _ hk => hk⟩) fun _ => orderly_discard _

/-! ## The session from outside -/

theorem orderly_readAt (i : Int) (type : Option HostType) : Orderly R (readAt i type) := by
  cases type with
  | none => exact .bind (.lift (orderly_valueAt i)) fun v => .lift (orderly_toHost v)
  | some t => exact orderly_convertSlot i t

theorem orderly_bindMethod (cls : Class) (name : String) (target : Option ObjectRef) :
    Orderly R (bindMethod cls name target) := by
  refine .bind (.lift orderly_readSession) fun s => ?_
  exact .guard (orderly_throwCause _) (.lift (orderly_newDispatcher _))

theorem orderly_pushValues (vs : List HostValue) :
    Orderly (C.regime own) (vs.forM fun v => liftM (pushHost v) : Host Unit) :=
  orderly_forM (fun v => .lift (orderly_pushHost v)) vs

section

variable {E E' : Engine} (hE : ∀ f, Alike (C.regime false) (E.run f) (E'.run f))

include hE

theorem alike_throwRaise {α : Type} (e : Raise) :
    Alike (C.regime own) (throwRaise E e : Host α) (throwRaise E' e) :=
  .bind (alike_holding _ (alike_exceptionOfRaise hE e)) fun _ => .throw _

theorem alike_popGlobal (name : String) :
    Alike (C.regime own) (popGlobal E name) (popGlobal E' name) := by
  refine .bind (alike_tryScript (alike_setGlobal hE name)) fun outcome => ?_
  cases outcome with
  | ok _ => exact .pure _
  | error e => exact alike_throwRaise hE e

theorem alike_writeGlobal (name : String) (v : HostValue) :
    Alike (C.regime own) (writeGlobal E name v) (writeGlobal E' name v) :=
  .bind (.lift (orderly_pushHost v)) fun _ => alike_popGlobal hE name

theorem alike_readGlobal (name : String) :
    Alike (C.regime own) (readGlobal E name) (readGlobal E' name) := by
  refine .bind (.lift orderly_readMachine) fun m =>
    .bind (alike_tryScript (alike_getGlobal hE name)) fun outcome => ?_
  cases outcome with
  | ok v =>
    exact .bind (.lift (C.push v)) fun _ => .bind (.lift (orderly_toHost v)) fun _ =>
      .bind (.lift (orderly_leaveFrame _ _ _)) fun _ => .pure _
  | error e =>
    exact .bind (.lift (orderly_hold _)) fun _ => .bind (.lift (C.setTop _)) fun _ =>
      .bind (.lift (orderly_handOver _)) fun _ => alike_throwRaise hE e

theorem alike_importClass (name : String) :
    Alike (C.regime own) (importClass E name) (importClass E' name) := by
  refine .bind (.lift orderly_readSession) fun s => ?_
  cases s.catalog.find? name with
  | some cls => exact .bind (.lift (orderly_pushType cls)) fun _ => alike_popGlobal hE _
  | none => exact orderly_throwCause _

theorem alike_callValue (function : HostValue) (arguments : List HostValue) :
    Alike (C.regime own) (callValue E function arguments) (callValue E' function arguments) := by
  refine .bind (.lift orderly_readMachine) fun m => .bind (.lift (orderly_pushHost _)) fun _ =>
    .bind (orderly_pushValues arguments) fun _ =>
      .bind (alike_tryScript (alike_protectedCall hE)) fun outcome => ?_
  split
  · exact .bind (.lift orderly_readMachine) fun m' =>
      .bind (orderly_mapM (fun v => .lift (orderly_toHost v)) _) fun results =>
        .bind (.lift (orderly_leaveFrame _ _ _)) fun _ => .pure _
  · exact .bind (.lift C.popValue) fun v => .bind (.lift (orderly_hold _)) fun _ =>
      .bind (.lift (C.setTop _)) fun _ => .bind (.lift (orderly_handOver _)) fun _ =>
        alike_throwRaise hE _

theorem alike_callGlobal (name : String) (arguments : List HostValue) :
    Alike (C.regime own) (callGlobal E name arguments) (callGlobal E' name arguments) :=
  .bind (alike_readGlobal hE name) fun _ => alike_holding _ (alike_callValue hE _ _)

theorem alike_registerFunction (name : String) (ref : DispatcherRef) :
    Alike (C.regime own) (registerFunction E name ref) (registerFunction E' name ref) :=
  .bind (.lift (orderly_readDispatcher? ref)) fun _ =>
    .bind (.lift (orderly_functionOf _ ref)) fun _ =>
      .bind (.lift (C.push _)) fun _ => alike_popGlobal hE name

theorem alike_collectGarbage : Alike (C.regime own) (collectGarbage E) (collectGarbage E') :=
  .bind (alike_collect hE) fun _ => .bind (.lift orderly_collectReleased) fun _ => .pure _

end

/-! ## Holding literals -/

theorem orderly_wrapper? (name : String) : Orderly R (wrapper? name) := .bind .get fun _ => .pure _

theorem orderly_setWrapper (name : String) (d : DispatcherRef) : Orderly R (setWrapper name d) :=
  .bind .get fun _ => .bind (.modify (fun _ _ => .books ..) fun _ => .of_same rfl rfl rfl) fun _ =>
    orderly_discard _

theorem alike_withHost {α : Type} (l : HostLiteral) {x y : HostValue → Action α}
    (h : ∀ v, Alike R (x v) (y v)) : Alike R (withHost l x) (withHost l y) :=
  .bind (orderly_hostLiteralBuild l) fun v => .bind (orderly_hold _) fun _ => .bind (h v) fun _ =>
    .bind (orderly_unhold _) fun _ => .pure _

theorem alike_withHosts {α : Type} (ls : List HostLiteral) {x y : List HostValue → Action α}
    (h : ∀ vs, Alike R (x vs) (y vs)) : Alike R (withHosts ls x) (withHosts ls y) :=
  .bind (orderly_buildHostLiterals ls) fun vs => .bind (orderly_hold _) fun _ =>
    .bind (h vs) fun _ => .bind (orderly_unhold _) fun _ => .pure _

/-! ## Telling how it went -/

theorem alike_tell {x y : Host Outcome} (h : Alike R x y) : Alike R (tell x) (tell y) := by
  refine .bind h.attempt fun outcome => ?_
  cases outcome with
  | ok o => exact .pure _
  | error e =>
    cases e with
    | exception e => exact .bind (orderly_showException e) fun _ => .pure _
    | exhausted => exact .pure _

theorem orderly_showAndDiscard (v : HostValue) : Orderly R (showAndDiscard v) :=
  .bind (orderly_showHost v) fun _ => .bind (orderly_discard _) fun _ => .pure _

theorem alike_tellValues {x y : Host (List HostValue)} (h : Alike R x y) :
    Alike R (tellValues x) (tellValues y) :=
  .bind h fun _ => .bind (orderly_mapM (fun v => .lift (orderly_showHost v)) _) fun _ =>
    .bind (.lift (orderly_discard _)) fun _ => .pure _

theorem alike_tellCall {x y : Action CallOutcome} (h : Alike R x y) :
    Alike R (tellCall x) (tellCall y) := by
  refine .bind (.lift h) fun ⟨outcome, arguments⟩ =>
    .bind (orderly_mapM (fun v => .lift (orderly_showHost v)) _) fun shown => ?_
  cases outcome with
  | ok ret =>
    exact .bind (.lift (orderly_showAndDiscard ret)) fun _ =>
      .bind (.lift (orderly_discard _)) fun _ => .pure _
  | error e => exact .bind (.lift (orderly_discard _)) fun _ => .throw e

theorem orderly_runBind (wrapper className name : String) (target : HostValue) :
    Orderly R (runBind wrapper className name target) :=
  .bind (.lift (orderly_classNamed _)) fun _ => .bind (orderly_bindMethod _ _ _) fun d =>
    .bind (.lift (orderly_setWrapper _ d)) fun _ => .pure _

theorem orderly_runAdapt (kind : AdapterKind) (className : String) (h : HandleRef)
    (saveAs : String) : Orderly R (runAdapt kind className h saveAs) := by
  have hsaved (o : ObjectRef) : Orderly R (do
      setVariable saveAs (.object o)
      return .object (← showObject o 1) : Host Outcome) :=
    .bind (.lift (orderly_setVariable _ _)) fun _ =>
      .bind (.lift (orderly_showObject o 1)) fun _ => .pure _
  refine .bind (.lift (orderly_classNamed _)) fun cls => ?_
  cases kind with
  | delegate =>
    refine .bind (.lift (orderly_makeDelegate cls h)) fun made => ?_
    cases made with
    | ok o => exact hsaved o
    | error cause => exact orderly_throwCause cause
  | interface =>
    refine .bind (.lift (orderly_makeInterface cls h)) fun made => ?_
    cases made with
    | ok o => exact hsaved o
    | error cause => exact orderly_throwCause cause

theorem orderly_showRaise (e : Raise) : Orderly R (showRaise e) := by
  cases e with
  | runtime v => exact .bind (orderly_showValue v) fun _ => .pure _
  | _ => exact .pure _

theorem orderly_aboutObject (l : HostLiteral) {x : ObjectRef → Action Report}
    (h : ∀ o, Orderly R (x o)) : Orderly R (aboutObject l x) := by
  refine alike_withHost l fun v => ?_
  cases v.asObject? with
  | some o => exact .bind (h o) fun _ => .pure _
  | none => exact .pure _

theorem orderly_showFound (o : Option ObjectRef) : Orderly R (showFound o) := by
  cases o with
  | some o =>
    exact .bind (orderly_showObject o 1) fun _ => .bind (orderly_discard _) fun _ => .pure _
  | none => exact .pure _

theorem orderly_takeTrace : Orderly R takeTrace :=
  .modifyGet (fun _ _ => .books ..) fun _ => .of_same rfl rfl rfl

/-! ## Commands -/

/-- The command calls a wrapper on a machine of its own. -/
def Command.IsDetached : Command → Prop
  | .callDetached _ _ => True
  | _ => False

section

variable {E E' : Engine} (hE : E.Alike C E')

include hE

theorem alike_tellGlobal (name : String) (saveAs : Option String) :
    Alike (C.regime own) (tellGlobal E name saveAs) (tellGlobal E' name saveAs) := by
  refine .bind (alike_readGlobal hE.run name) fun v =>
    .bind (.lift (orderly_showHost v)) fun view => ?_
  cases saveAs with
  | some x => exact .bind (.lift (orderly_setVariable x v)) fun _ => .pure _
  | none => exact .bind (.lift (orderly_discard _)) fun _ => .pure _

theorem alike_runTopOp (op : Op) : Alike (C.regime own) (runTopOp E op) (runTopOp E' op) := by
  refine .bind (alike_performOp hE op).attempt fun outcome => ?_
  split
  · exact .pure _
  · exact .pure _
  · exact .bind (orderly_showRaise _) fun _ => .bind (orderly_discard _) fun _ => .pure _

theorem alike_runCommand [C.Fills] (c : Command) (hc : ¬ c.IsDetached) :
    Alike (C.regime own) (runCommand E c) (runCommand E' c) := by
  cases c with
  | op op => exact alike_runTopOp hE op
  | assign name v =>
    exact .bind (orderly_hostLiteralBuild v) fun v =>
      .bind (orderly_setVariable name v) fun _ => .pure _
  | declare d => exact .bind (orderly_declare d) fun _ => .pure _
  | importClass name => exact alike_tell (.bind (alike_importClass hE.run name) fun _ => .pure _)
  | push v => exact alike_withHost v fun v => .bind (orderly_pushHost v) fun _ => .pure _
  | read i type =>
    exact alike_tell (.bind (orderly_readAt i type) fun v =>
      .bind (.lift (orderly_showAndDiscard v)) fun _ => .pure _)
  | writeGlobal name v =>
    exact alike_withHost v fun v => alike_tell (.bind (alike_writeGlobal hE.run name v) fun _ =>
      .pure _)
  | readGlobal name saveAs => exact alike_tell (alike_tellGlobal hE name saveAs)
  | callGlobal name arguments =>
    exact alike_withHosts arguments fun vs =>
      alike_tell (alike_tellValues (alike_callGlobal hE.run name vs))
  | callValue function arguments =>
    exact alike_withHost function fun f => alike_withHosts arguments fun vs =>
      alike_tell (alike_tellValues (alike_callValue hE.run f vs))
  | invokeDelegate delegate arguments =>
    refine alike_withHost delegate fun v => ?_
    cases v.asObject? with
    | some o =>
      exact .bind (orderly_buildHostLiterals arguments) fun vs =>
        alike_tell (alike_tellCall (alike_invokeDelegate hE o vs))
    | none => exact .pure _
  | invokeMethod target className name place arguments =>
    refine alike_withHost target fun v => .bind (orderly_classNamed className) fun cls => ?_
    cases (cls.methodsNamed name)[place]? with
    | some m =>
      exact .bind (orderly_buildHostLiterals arguments) fun vs =>
        alike_tell (alike_tellCall (hE.invoke m cls _ vs))
    | none => exact .pure _
  | bindMethod wrapper className name target =>
    exact alike_withHost target fun v => alike_tell (orderly_runBind wrapper className name v)
  | registerFunction name wrapper =>
    refine .bind (orderly_wrapper? wrapper) fun d => ?_
    cases d with
    | some d => exact alike_tell (.bind (alike_registerFunction hE.run name d) fun _ => .pure _)
    | none => exact .pure _
  | showWrapper wrapper =>
    refine .bind (orderly_wrapper? wrapper) fun d =>
      .bind (orderly_optionMapM orderly_readDispatcher? d) fun found => ?_
    split <;> exact .pure _
  | invalidate wrapper =>
    refine .bind (orderly_wrapper? wrapper) fun d => ?_
    cases d with
    | some d => exact .bind (orderly_forgetPlan d) fun _ => .pure _
    | none => exact .pure _
  | callDetached wrapper arguments => exact absurd True.intro hc
  | adapt kind className v saveAs =>
    refine alike_withHost v fun v => ?_
    cases v with
    | handle k h => exact alike_tell (orderly_runAdapt kind className h saveAs)
    | _ => exact .pure _
  | popException =>
    refine .bind C.popValue fun v =>
      .bind (alike_holding _ (alike_exceptionOf hE.run v)).attempt fun e => ?_
    cases e with
    | ok e => exact .bind (orderly_showException e) fun _ => .pure _
    | error e => exact .pure _
  | collectGarbage =>
    refine .bind (alike_collectGarbage hE.run).attempt fun n => ?_
    cases n <;> exact .pure _
  | expose v => exact orderly_aboutObject v fun o => .bind (orderly_expose o) fun _ => .pure _
  | idOf v => exact orderly_aboutObject v fun o => .bind orderly_readSession fun _ => .pure _
  | resolve id => exact .bind orderly_readSession fun _ => orderly_showFound _
  | revoke id => exact .bind (orderly_revoke id) fun o => orderly_showFound o
  | revokeObject v =>
    exact alike_withHost v fun v => .bind orderly_readSession fun s =>
      .bind (orderly_optionMapM orderly_revoke _) fun gone => .pure _
  | same a b =>
    exact alike_withHost a fun x => alike_withHost b fun y => .bind .get fun _ => .pure _
  | describe v =>
    exact alike_withHost v fun v => .bind (orderly_showHost v 4) fun _ => .pure _
  | catalogSize => exact .bind orderly_readSession fun _ => .pure _
  | isAssignable target className => exact .bind orderly_readSession fun _ => .pure _
  | showOptions => exact .bind orderly_readSession fun _ => .pure _

theorem alike_stepCommand [C.Fills] (c : Command) (hc : ¬ c.IsDetached) :
    Alike (C.regime own) (stepCommand E c) (stepCommand E' c) :=
  .bind (alike_runCommand hE c hc) fun _ => .bind orderly_settle fun _ =>
    .bind orderly_takeTrace fun _ => .bind orderly_readMachine fun _ =>
      .bind (orderly_mapM orderly_showValue _) fun _ => .pure _

end

end ScriptBridge
