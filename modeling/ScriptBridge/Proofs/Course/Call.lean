import ScriptBridge.Proofs.Course.Conduct

/-!
# Calls and the bridge under a conduct

Protected calls, access with metamethods, finalizers, exceptions, calls of scripts by the host,
dispatchers and handlers are alike under two engines that run functions alike.
-/

namespace ScriptBridge

variable {C : Conduct} {own : Bool} {R : Regime}

theorem orderly_globalsTable : Orderly R globalsTable :=
  .bind orderly_readMachine fun _ => .pure _

theorem alike_forM {α : Type} {f g : α → Script Unit} (h : ∀ a, Alike R (f a) (g a))
    (l : List α) : Alike R (l.forM f) (l.forM g) :=
  fun Q hQ => agree_forM (fun a => h a Q hQ) l

section

variable {E E' : Engine} {nargs wanted : Int}
variable (hE : ∀ f, Alike (C.regime false) (E.run f) (E'.run f))

include hE

/-! ## Protected calls -/

theorem alike_protectedCall :
    Alike (C.regime own) (protectedCall E nargs wanted) (protectedCall E' nargs wanted) := by
  refine .bind (.lift orderly_readMachine) fun m =>
    .bind (.lift (C.call hE _ _).attempt) fun outcome => ?_
  cases outcome with
  | ok _ => exact .pure _
  | error e =>
    cases e with
    | exhausted => exact .throw _
    | runtime v =>
      exact C.cutFrame _ (.bind (.lift (orderly_settleBeside _)) fun _ =>
        .bind (.lift (C.push v)) fun _ => .pure _)
    | stackOverflow =>
      exact C.cutFrame _ (.bind (.lift orderly_settle) fun _ =>
        .bind (.lift (C.push _)) fun _ => .pure _)

/-! ## Access with metamethods -/

theorem alike_index (object key : Value) :
    Alike (C.regime own) (index E object key) (index E' object key) := by
  refine .bind .get fun w => ?_
  cases w.lookUp key World.chainLimit object with
  | value v => exact .pure v
  | handler h self =>
    exact .bind (.lift (C.push h)) fun _ => .bind (.lift (C.push self)) fun _ =>
      .bind (.lift (C.push key)) fun _ => .bind (C.call hE _ _) fun _ =>
        .lift C.popValue
  | notIndexable v => exact orderly_raiseAt _ _
  | tooLong => exact orderly_raiseAt _ _

theorem alike_assign (object key value : Value) :
    Alike (C.regime own) (assign E object key value) (assign E' object key value) := by
  refine .bind .get fun w => ?_
  cases w.findTarget key World.chainLimit object with
  | table t => exact orderly_rawSet t key value
  | handler h self =>
    exact .bind (.lift (C.push h)) fun _ => .bind (.lift (C.push self)) fun _ =>
      .bind (.lift (C.push key)) fun _ => .bind (.lift (C.push value)) fun _ =>
        C.call hE _ _
  | notIndexable v =>
    exact .bind (.lift (orderly_discard _)) fun _ => orderly_raiseAt _ _
  | tooLong =>
    exact .bind (.lift (orderly_discard _)) fun _ => orderly_raiseAt _ _

theorem alike_textOf (v : Value) :
    Alike (C.regime own) (textOf E v) (textOf E' v) := by
  refine .bind .get fun w => ?_
  split
  · refine .bind (.lift (C.push _)) fun _ => .bind (.lift (C.push v)) fun _ =>
      .bind (C.call hE _ _) fun _ => .bind (.lift C.popValue) fun v => ?_
    split
    · exact .pure _
    · exact .bind (.lift (orderly_discard _)) fun _ =>
        orderly_raiseMessage _
  · exact .pure _

theorem alike_getGlobal (name : String) :
    Alike (C.regime own) (getGlobal E name) (getGlobal E' name) :=
  .bind (.lift orderly_globalsTable) fun _ => alike_index hE _ _

theorem alike_setGlobal (name : String) :
    Alike (C.regime own) (setGlobal E name) (setGlobal E' name) :=
  .bind (.lift C.popValue) fun _ => .bind (.lift orderly_globalsTable) fun _ =>
    alike_assign hE _ _ _

/-! ## Finalizers -/

/-- The finalizer of a userdata that may come back. -/
theorem agree_finalize {Q : World → Prop} (hQ : (C.regime own).Has Q) {p : Pending}
    (hp : Keeps Q (resurrect p)) : Agree Q (finalize E p) (finalize E' p) := by
  refine .bind (orderly_rawGetField _ _ Q hQ).lift fun handler =>
    .bind (.lift hp) fun u => .bind (orderly_unhold _ Q hQ).lift fun _ => ?_
  have hrun (f : FunctionRef) : Alike (C.regime own) (do
      let top := (← readMachine).top
      push (.function f)
      push (.userdata u)
      let _ ← protectedCall E 1 0
      setTop top : Script Unit) (do
      let top := (← readMachine).top
      push (.function f)
      push (.userdata u)
      let _ ← protectedCall E' 1 0
      setTop top) :=
    .bind (.lift orderly_readMachine) fun _ => .bind (.lift (C.push _)) fun _ =>
      .bind (.lift (C.push _)) fun _ => .bind (alike_protectedCall hE) fun _ =>
        .lift (C.setTop _)
  have hrelease : Orderly (C.regime own) (liftM (release [.userdata u]) : Script Unit) :=
    .lift (orderly_release _)
  cases handler with
  | function f => exact hrun f Q hQ
  | _ => exact hrelease Q hQ

theorem agree_finalizers {Q : World → Prop} (hQ : (C.regime own).Has Q) {batch : List Pending}
    (hbatch : ∀ p ∈ batch, Keeps Q (resurrect p)) :
    Agree Q (batch.forM (finalize E)) (batch.forM (finalize E')) := by
  induction batch with
  | nil => exact keeps_pure _
  | cons p rest ih =>
    exact .bind (agree_finalize hE hQ (hbatch p List.mem_cons_self)) fun _ =>
      ih fun p' hp' => hbatch p' (List.mem_cons_of_mem _ hp')

theorem alike_collectRounds (count fuel : Nat) :
    Alike (C.regime own) (collectRounds E count fuel) (collectRounds E' count fuel) := by
  induction fuel generalizing count with
  | zero => exact .throw _
  | succ fuel ih =>
    intro Q hQ w hw
    obtain ⟨Q', hQ', htaken, hback, hbatch⟩ := C.batch hQ hw
    have hround : Agree Q' (do
        hold (w.machine.graveyard.map (.table ·.metatable))
        w.machine.graveyard.forM (finalize E)
        collectRounds E (count + w.machine.graveyard.length) fuel : Script Nat) (do
        hold (w.machine.graveyard.map (.table ·.metatable))
        w.machine.graveyard.forM (finalize E')
        collectRounds E' (count + w.machine.graveyard.length) fuel) :=
      .bind (orderly_hold _ Q' hQ').lift fun _ => .bind (agree_finalizers hE hQ' hbatch) fun _ =>
        ih _ Q' hQ'
    have htake : takeGraveyard w = (w.machine.graveyard, (takeGraveyard w).2) := rfl
    unfold collectRounds
    rw [bind_of_ok (lift_of_eq htake), bind_of_ok (lift_of_eq htake)]
    split
    · exact ⟨rfl, hback _ htaken⟩
    · obtain ⟨hsame, hafter⟩ := hround _ htaken
      exact ⟨hsame, hback _ hafter⟩

theorem alike_collect :
    Alike (C.regime own) (collect E) (collect E') :=
  alike_collectRounds hE 0 roundLimit

end

section

variable {E E' : Engine} (hE : ∀ f, Alike (C.regime false) (E.run f) (E'.run f))

/-! ## Exceptions -/

theorem alike_tryScript {α : Type} {x y : Script α} (h : Alike R x y) :
    Alike R (tryScript x) (tryScript y) := by
  refine .bind (.lift h.attempt) fun outcome => ?_
  cases outcome with
  | ok a => exact .pure _
  | error e =>
    cases e with
    | exhausted => exact .throw _
    | _ => exact .pure _

theorem alike_asScript {α : Type} {x y : Host α} (h : Alike R x y) :
    Alike R (asScript x) (asScript y) := by
  refine .bind (.lift h.attempt) fun outcome => ?_
  cases outcome with
  | ok a => exact .pure _
  | error e => exact orderly_raiseFailure e

include hE in
theorem alike_textOrDisplay (v : Value) :
    Alike (C.regime own) (textOrDisplay E v) (textOrDisplay E' v) := by
  refine .bind (alike_tryScript (alike_textOf hE v)) fun outcome => ?_
  cases outcome with
  | ok s => exact .pure s
  | error e => exact .bind (.lift (orderly_discard _)) fun _ => .pure _

include hE in
theorem alike_exceptionOf (v : Value) :
    Alike (C.regime own) (exceptionOf E v) (exceptionOf E' v) := by
  refine .bind .get fun w => ?_
  cases w.carriedException? v with
  | some e => exact .pure e
  | none =>
    cases v with
    | text s => exact .lift (orderly_newException _)
    | _ =>
      refine .bind (.lift orderly_readMachine) fun m =>
        .bind (.lift (C.push _)) fun _ =>
          .bind (.lift (alike_textOrDisplay hE _).attempt) fun text =>
            .bind (.lift (orderly_hold _)) fun _ => .bind (.lift (C.setTop _)) fun _ =>
              .bind (.lift (orderly_unhold _)) fun _ => ?_
      cases text with
      | ok text =>
        exact .bind (.lift (orderly_location 1)) fun _ =>
          .lift (orderly_newException _)
      | error e => exact .throw e

include hE in
theorem alike_exceptionOfRaise (e : Raise) :
    Alike (C.regime own) (exceptionOfRaise E e) (exceptionOfRaise E' e) := by
  cases e with
  | runtime v => exact alike_exceptionOf hE v
  | stackOverflow => exact .lift (orderly_newException _)
  | exhausted => exact .throw _

/-! ## Calls of scripts by the host -/

theorem orderly_pushInputs (params : List Param) (arguments : List HostValue) :
    Orderly (C.regime own) (pushInputs params arguments) := by
  induction params generalizing arguments with
  | nil => exact .pure _
  | cons p params ih =>
    cases arguments with
    | nil => exact .pure _
    | cons v arguments =>
      unfold pushInputs
      split
      · exact ih arguments
      · exact .bind (orderly_pushHost v) fun _ => .bind (ih arguments) fun _ => .pure _

theorem orderly_leaveFrame (top : Nat) (arguments : List HostValue)
    (result : Except Failure HostValue) :
    Orderly (C.regime own) (leaveFrame top arguments result) :=
  .bind (orderly_hold _) fun _ => .bind (C.setTop _) fun _ =>
    orderly_handOver _

include hE in
theorem alike_finishCall (m : Method) (arguments : List HostValue) (top nargs : Nat) :
    Alike (C.regime own) (finishCall E m arguments top nargs)
      (finishCall E' m arguments top nargs) := by
  refine .bind (alike_protectedCall hE).attempt fun outcome => ?_
  cases outcome with
  | error e => exact .pure _
  | ok status =>
    cases status with
    | ok =>
      exact .bind orderly_readMachine fun m' =>
        .bind (orderly_readResults _ _ _) fun _ =>
          .bind (orderly_leaveFrame _ _ _) fun _ => .pure _
    | _ =>
      refine .bind C.popValue fun v => .bind (orderly_hold _) fun _ =>
        .bind (C.setTop _) fun _ => .bind (alike_exceptionOf hE v).attempt fun e =>
          .bind (orderly_unhold _) fun _ => .bind orderly_settle fun _ => ?_
      cases e <;> exact .pure _

include hE in
theorem alike_callFunction (function : HandleRef) (m : Method) (arguments : List HostValue) :
    Alike (C.regime own) (callFunction E function m arguments)
      (callFunction E' function m arguments) := by
  refine .bind .get fun w => ?_
  dsimp only
  split
  · exact orderly_failedCall _ _
  · exact .bind orderly_readMachine fun _ =>
      .bind (orderly_pushHandle function) fun _ =>
        .bind (orderly_pushInputs _ _) fun _ => alike_finishCall hE _ _ _ _

include hE in
theorem alike_callTableMethod (table : HandleRef) (m : Method) (arguments : List HostValue) :
    Alike (C.regime own) (callTableMethod E table m arguments)
      (callTableMethod E' table m arguments) := by
  refine .bind .get fun w => ?_
  dsimp only
  split
  · exact orderly_failedCall _ _
  · refine .bind orderly_readMachine fun m' =>
      .bind (orderly_handleValue table) fun self => .bind (C.push self) fun _ =>
        .bind (alike_index hE self _).attempt fun outcome => ?_
    cases outcome with
    | ok f =>
      refine .bind (C.push f) fun _ => ?_
      split
      · exact .bind (C.insert _) fun _ => .bind (orderly_pushInputs _ _) fun _ =>
          alike_finishCall hE _ _ _ _
      · exact .bind (C.setTop _) fun _ => .pure _
    | error e =>
      refine .bind (orderly_hold _) fun _ => .bind (C.setTop _) fun _ =>
        .bind (alike_exceptionOfRaise hE _).attempt fun e' =>
          .bind (orderly_unhold _) fun _ => .bind orderly_settle fun _ => ?_
      cases e' <;> exact .pure _

end

/-! ## Dispatchers -/

theorem orderly_pushOutputs (arguments : List HostValue) (outs : List Nat) :
    Orderly (C.regime own) (pushOutputs arguments outs) := by
  induction outs with
  | nil => exact .pure _
  | cons i rest ih => exact .bind (orderly_pushHost _) fun _ => ih

theorem orderly_pushResults (plan : Plan) (ret : HostValue) (arguments : List HostValue) :
    Orderly (C.regime own) (pushResults plan ret arguments) := by
  unfold pushResults
  split
  · exact .bind (orderly_pushOutputs _ _) fun _ => .pure _
  · exact .bind (orderly_pushHost _) fun _ => .bind (orderly_pushOutputs _ _) fun _ => .pure _

section

variable {E E' : Engine} (hE : E.Alike C E')

include hE

theorem alike_runPlan (ref : DispatcherRef) (d : Dispatcher) (plan : Plan)
    (target : Option ObjectRef) (arguments : List HostValue) :
    Alike (C.regime own) (runPlan E ref d plan target arguments)
      (runPlan E' ref d plan target arguments) := by
  refine .bind (orderly_hold _) fun _ =>
    .bind (hE.invoke _ _ _ _) fun ⟨outcome, arguments⟩ => ?_
  have hrest (result : Except Failure Nat) : Orderly (C.regime own) (do
      putPlan ref plan
      discard (arguments.flatMap HostValue.refs)
      unhold (target.map Ref.object).toList
      return result : Action (Except Failure Nat)) :=
    .bind (orderly_putPlan _ _) fun _ => .bind (orderly_discard _) fun _ =>
      .bind (orderly_unhold _) fun _ => .pure _
  cases outcome with
  | ok ret =>
    exact .bind (orderly_pushResults _ _ _) fun _ => .bind (orderly_discard _) fun _ =>
      .bind (.pure _) hrest
  | error e => exact .bind (.pure _) hrest

theorem alike_dispatch (ref : DispatcherRef) :
    Alike (C.regime own) (dispatch E ref) (dispatch E' ref) := by
  refine .bind .get fun w => .guard (orderly_raiseCause _) ?_
  refine .bind (.lift orderly_collectReleased) fun _ =>
    .bind (.lift (orderly_readDispatcher? ref)) fun d => ?_
  cases d with
  | none => exact orderly_raiseCause _
  | some d =>
    refine .bind (orderly_findTarget d) fun ⟨target, first⟩ =>
      .bind (.lift orderly_readMachine) fun m =>
        .bind (.lift (orderly_takePlan ref)) fun cached =>
          .bind (.lift (orderly_prepare _ _ _)) fun prepared => ?_
    cases prepared with
    | error cause => exact orderly_raiseCause _
    | ok prepared =>
      refine .bind (.lift (alike_runPlan hE _ _ _ _ _)) fun result => ?_
      cases result with
      | ok n => exact .pure n
      | error e => exact orderly_raiseFailure e

end

/-! ## Calls of types and delegates -/

section

variable {E E' : Engine} (hE : E.Alike C E')

include hE

theorem alike_typeCall : Alike (C.regime own) (typeCall E) (typeCall E') := by
  refine .bind .get fun w => .guard (orderly_raiseCause _) ?_
  refine .bind (alike_asScript orderly_selfType) fun cls =>
    .bind (.lift (orderly_constructor? cls)) fun d => ?_
  cases d with
  | some d => exact .bind (.lift (C.remove 1)) fun _ => alike_dispatch hE d
  | none =>
    refine .bind (.lift (orderly_valueAt 2)) fun v => ?_
    split
    · refine .bind (.lift (orderly_toHandle _)) fun h =>
        .bind (.lift (orderly_delegateFor cls h)) fun made => ?_
      cases made with
      | ok o => exact .bind (.lift (orderly_pushNewObject o)) fun _ => .pure 1
      | error cause => exact orderly_raiseCause _
    · exact orderly_raiseCause _

theorem alike_delegateCall : Alike (C.regime own) (delegateCall E) (delegateCall E') := by
  refine .bind .get fun w => .guard (orderly_raiseCause _) ?_
  refine .bind (alike_asScript orderly_selfObject) fun ⟨_, o⟩ =>
    .bind (.lift (orderly_member? _ _ _)) fun found => ?_
  split
  · exact alike_dispatch hE _
  · exact orderly_raiseCause _

end

/-! ## Handlers -/

theorem orderly_inSession {x : Host Nat} (h : Orderly R x) : Orderly R (inSession x) :=
  .bind .get fun _ => .guard (orderly_raiseCause _) (alike_asScript h)

theorem alike_handlerRun {E E' : Engine} (hE : E.Alike C E') (h : Handler) :
    Alike (C.regime own) (h.run E) (h.run E') := by
  cases h with
  | objectIndex => exact orderly_inSession orderly_objectIndex
  | objectAssign => exact orderly_inSession C.objectAssign
  | proxyText => exact orderly_inSession orderly_proxyText
  | proxyCollected => exact .lift orderly_proxyCollected
  | typeIndex => exact orderly_inSession orderly_typeIndex
  | typeAssign => exact orderly_inSession orderly_typeAssign
  | typeCall => exact alike_typeCall hE
  | delegateCall => exact alike_delegateCall hE
  | errorText => exact .lift orderly_errorText
  | importType => exact orderly_inSession orderly_importType
  | methodBySignature => exact orderly_inSession orderly_methodBySignature
  | constructorBySignature => exact orderly_inSession orderly_constructorBySignature

end ScriptBridge
