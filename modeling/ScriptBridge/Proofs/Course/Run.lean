import ScriptBridge.Proofs.Course.Body
import ScriptBridge.Script.Run

/-!
# Engines under a conduct

Operations, blocks and the bodies of functions are alike under two engines that run everything
alike, so an engine of any depth is alike to itself.
-/

namespace ScriptBridge

variable {C : Conduct} {own : Bool} {R : Regime}

/-! ## Values, tables and metatables -/

theorem orderly_runRawGet (i : Int) : Orderly (C.regime own) (runRawGet i) :=
  .bind (orderly_tableAt i) fun t => .bind (.lift C.popValue) fun key =>
    .bind (.lift (orderly_rawGet t key)) fun v => .bind (.lift (C.push v)) fun _ =>
      .lift (orderly_discard _)

theorem orderly_runRawSet (i : Int) : Orderly (C.regime own) (runRawSet i) :=
  .bind (orderly_tableAt i) fun t => .bind (.lift C.popValue) fun _ =>
    .bind (.lift C.popValue) fun _ => orderly_rawSet t _ _

theorem orderly_runNext (i : Int) : Orderly (C.regime own) (runNext i) := by
  refine .bind (orderly_tableAt i) fun t => .bind (.lift C.popValue) fun key =>
    .bind (.lift (orderly_discard _)) fun _ => .bind .get fun w => ?_
  split
  · exact orderly_raiseMessage _
  · exact .pure _
  · exact .bind (.lift (C.push _)) fun _ => .bind (.lift (C.push _)) fun _ => .pure _

theorem orderly_runGetMetatable (i : Int) : Orderly (C.regime own) (runGetMetatable i) := by
  refine .bind .get fun w => .bind (orderly_valueAt i) fun v => ?_
  split
  · exact .bind (C.push _) fun _ => .pure _
  · exact .pure _

theorem orderly_runGetMetafield (i : Int) (name : String) :
    Orderly (C.regime own) (runGetMetafield i name) := by
  refine .bind .get fun w => .bind (orderly_valueAt i) fun v => ?_
  split
  · exact .pure _
  · exact .bind (C.push _) fun _ => .pure _

/-- The part of setting a metatable that follows the check of the new one. -/
theorem orderly_setMetatableOf (target v : Value) (metatable : Option TableRef) :
    Orderly R (do
      match target with
      | .table t => setTableMetatable t metatable
      | .userdata u => setUserdataMetatable u metatable
      | _ =>
        discard v.refs
        raiseMessage ("cannot set the metatable of a " ++ target.typeName ++ " value")
      discard (v.refs ++ target.refs) : Script Unit) := by
  have hdone : Orderly R (liftM (discard (v.refs ++ target.refs)) : Script Unit) :=
    .lift (orderly_discard _)
  cases target with
  | table t => exact .bind (.lift (orderly_setTableMetatable t metatable)) fun _ => hdone
  | userdata u => exact .bind (.lift (orderly_setUserdataMetatable u metatable)) fun _ => hdone
  | _ =>
    exact .bind (.lift (orderly_discard _)) fun _ =>
      .bind (orderly_raiseMessage _) fun _ => hdone

theorem orderly_setMetatable (i : Int) : Orderly (C.regime own) (setMetatable i) := by
  refine .bind (.lift (orderly_valueAt i)) fun target =>
    .bind (.lift C.popValue) fun v => ?_
  have hrest (metatable : Option TableRef) :=
    orderly_setMetatableOf (R := C.regime own) target v metatable
  cases v with
  | table t => exact .bind (.pure _) hrest
  | nil => exact .bind (.pure _) hrest
  | _ =>
    exact .bind (.lift (orderly_discard _)) fun _ =>
      .bind (orderly_raiseMessage _) hrest

theorem orderly_userdataView (i : Int) : Orderly R (userdataView i) := by
  refine .bind (orderly_valueAt i) fun v => ?_
  split
  · refine .bind .get fun w => ?_
    split <;> exact .pure _
  · exact .pure _

theorem orderly_keep (name : String) (v : Value) : Orderly R (keep name v) :=
  .bind .get fun _ => .bind (.modify (fun _ _ => .books ..) fun _ => .of_same rfl rfl rfl) fun _ =>
    orderly_discard _

theorem orderly_unkeep (name : String) : Orderly R (unkeep name) :=
  .bind .get fun _ => .bind (.modify (fun _ _ => .books ..) fun _ => .of_same rfl rfl rfl) fun _ =>
    orderly_discard _

theorem orderly_setVariable (name : String) (v : HostValue) : Orderly R (setVariable name v) :=
  .bind .get fun _ => .bind (.modify (fun _ _ => .books ..) fun _ => .of_same rfl rfl rfl) fun _ =>
    orderly_discard _

theorem orderly_dropVariable (name : String) : Orderly R (dropVariable name) :=
  .bind .get fun _ => .bind (.modify (fun _ _ => .books ..) fun _ => .of_same rfl rfl rfl) fun _ =>
    orderly_discard _

theorem orderly_pushAll (vs : List Value) : Orderly (C.regime own) (pushAll vs) := by
  induction vs with
  | nil => exact .pure _
  | cons v rest ih => exact .bind (C.push v) fun _ => ih

/-! ## Reports of conversions and matching -/

theorem orderly_showConverted (v : Option HostValue) (depth : Nat := defaultDepth) :
    Orderly R (showConverted v depth) := by
  cases v with
  | none => exact .pure _
  | some v =>
    exact .bind (orderly_showHost v depth) fun _ => .bind (orderly_discard _) fun _ => .pure _

theorem orderly_convertAll (v : Value) (types : List String) :
    Orderly R (convertAll v types) := by
  induction types with
  | nil => exact .pure _
  | cons t rest ih =>
    exact .bind (orderly_asType _ v) fun c => .bind (orderly_showConverted c) fun _ =>
      .bind ih fun _ => .pure _

theorem orderly_showItems (element : HostType) (v : Value) : Orderly R (showItems element v) := by
  refine .bind (orderly_tableToArray element v) fun items => ?_
  cases items with
  | none => exact .pure _
  | some items =>
    exact .bind (orderly_mapM (fun item => orderly_showHost item) items) fun _ =>
      .bind (orderly_discard _) fun _ => .pure _

theorem orderly_showReplay (r : Except ReplayError (List HostValue)) :
    Orderly R (showReplay r) := by
  cases r with
  | ok vs =>
    exact .bind (orderly_mapM (fun v => orderly_showHost v) vs) fun _ =>
      .bind (orderly_release _) fun _ => .pure _
  | error e => exact .pure _

theorem orderly_withParams {α : Type} (specs : List (List ParamSpec))
    {x : List (List Param) → Action α} (h : ∀ params, Orderly (C.regime own) (x params)) :
    Orderly (C.regime own) (withParams specs x) :=
  .bind (orderly_mapM (fun ps => orderly_mapM orderly_paramSpecBuild ps) specs)
    fun _ => .bind (orderly_hold _) fun _ => .bind (h _) fun _ =>
      .bind (orderly_unhold _) fun _ => .pure _

theorem orderly_replayOver (p : Plan) (literals : List Literal) :
    Orderly (C.regime own) (replayOver p literals) :=
  .bind orderly_readMachine fun _ => .bind (orderly_buildLiterals literals)
    fun values => .bind (orderly_pushAll values) fun _ => .bind (orderly_replay p values)
      fun r => .bind (orderly_showReplay r) fun _ => .bind (C.setTop _) fun _ =>
        .pure _

theorem orderly_showMatch (params : List Param) (ret : HostType) (arguments : List Value)
    (again : Option (List Literal)) :
    Orderly (C.regime own) (showMatch params ret arguments again) := by
  refine .bind (orderly_matchParameters _ arguments) fun p => ?_
  cases p with
  | none => exact .pure _
  | some p =>
    refine .bind (orderly_replay p _) fun _ => .bind (orderly_showReplay _)
      fun _ => .bind (orderly_replay p _) fun _ => .bind (orderly_showReplay _)
        fun _ => .bind ?_ fun _ => .pure _
    cases again with
    | none => exact .pure _
    | some literals =>
      rw [Option.mapM_some, map_eq_pure_bind]
      exact .bind (orderly_replayOver p literals) fun _ => .pure _

theorem orderly_resolveIndexed (arguments : List Value) (i : Nat)
    (candidates : List (List Param)) : Orderly R (resolveIndexed arguments i candidates) := by
  induction candidates generalizing i with
  | nil => exact .pure _
  | cons params rest ih =>
    refine .bind (orderly_tryCandidate _ arguments) fun found => ?_
    cases found with
    | none => exact ih _
    | some found => exact .pure _

theorem orderly_showResolved (candidates : List (List Param)) (arguments : List Value) :
    Orderly R (showResolved candidates arguments) := by
  refine .bind (orderly_resolveIndexed arguments 0 candidates) fun found => ?_
  cases found with
  | none => exact .pure _
  | some found =>
    exact .bind (orderly_mapM (fun v => orderly_showHost v) _) fun _ =>
      .bind (orderly_discard _) fun _ => .pure _

/-! ## One operation -/

theorem alike_quiet {x y : Script Unit} (h : Alike (C.regime own) x y) :
    Alike (C.regime own) (quiet x) (quiet y) :=
  .bind h fun _ => .pure _

theorem alike_inSessionOnly {x y : Script Step} (h : Alike (C.regime own) x y) :
    Alike (C.regime own) (inSessionOnly x) (inSessionOnly y) := by
  refine .bind .get fun w => ?_
  split
  · exact .bind (.lift (orderly_newException _)) fun e =>
      .bind (.lift (orderly_showException e)) fun _ => .pure _
  · exact h

theorem orderly_runHostOp (op : HostOp) : Orderly (C.regime own) (runHostOp op) := by
  cases op with
  | pushHost l =>
    exact .bind (.lift (orderly_hostLiteralBuild l)) fun v =>
      .bind (.lift (orderly_pushHost v)) fun _ => .bind (.lift (orderly_discard _))
        fun _ => .pure _
  | pushType className =>
    exact .bind (.lift (orderly_classNamed _)) fun cls =>
      .bind (.lift (orderly_pushType cls)) fun _ => .pure _
  | toHost i =>
    exact .bind (.lift (orderly_valueAt i)) fun v =>
      .bind (.lift (orderly_toHost v)) fun _ =>
        .bind (.lift (orderly_showConverted _)) fun _ => .pure _
  | save name i =>
    exact .bind (.lift (orderly_valueAt i)) fun v =>
      .bind (.lift (orderly_toHost v)) fun v =>
        .bind (.lift (orderly_setVariable name v)) fun _ =>
          .bind (.lift (orderly_showHost v 1)) fun _ => .pure _
  | dropVariable name => exact alike_quiet (.lift (orderly_dropVariable name))
  | checkType i t =>
    exact .bind (.lift (orderly_valueAt i)) fun v =>
      .bind (.lift (orderly_checkType t v)) fun _ => .pure _
  | extract i t =>
    exact .bind (.lift (orderly_valueAt i)) fun v =>
      .bind (.lift (orderly_extract _ v)) fun _ =>
        .bind (.lift (orderly_showConverted _)) fun _ => .pure _
  | asType i t =>
    exact .bind (.lift (orderly_valueAt i)) fun v =>
      .bind (.lift (orderly_asType t v)) fun _ =>
        .bind (.lift (orderly_showConverted _)) fun _ => .pure _
  | convertAll i types =>
    exact .bind (.lift (orderly_valueAt i)) fun v =>
      .bind (.lift (orderly_convertAll v types)) fun _ => .pure _
  | tableToArray i element =>
    exact .bind (.lift (orderly_valueAt i)) fun v =>
      .bind (.lift (orderly_showItems element v)) fun _ => .pure _
  | hostObject i =>
    refine .bind (.lift (orderly_valueAt i)) fun v =>
      .bind (.lift (orderly_objectBehind? v)) fun o => ?_
    cases o with
    | none => exact .pure _
    | some o => exact .bind (.lift (orderly_showObject o _)) fun _ => .pure _
  | isInstance i t =>
    exact .bind .get fun w => .bind (.lift (orderly_valueAt i)) fun v => .pure _
  | collectReleased => exact .bind (.lift orderly_collectReleased) fun _ => .pure _
  | exposedCount => exact .bind (.lift orderly_readSession) fun _ => .pure _
  | registryConsistent => exact .bind (.lift orderly_readSession) fun _ => .pure _
  | pendingEvents => exact .bind (.lift orderly_readSession) fun _ => .pure _
  | matchCall params ret first again =>
    exact .bind (.lift orderly_readMachine) fun m =>
      .bind (.lift (orderly_withParams _ fun built => orderly_showMatch _ _ _ _)) fun _ => .pure _
  | resolve candidates first =>
    exact .bind (.lift orderly_readMachine) fun m =>
      .bind (.lift (orderly_withParams _ fun built => (orderly_showResolved _ _)))
        fun _ => .pure _

section

variable {E E' : Engine} (hE : E.Alike C E')

include hE

theorem alike_runGetTable (i : Int) :
    Alike (C.regime own) (runGetTable E i) (runGetTable E' i) := by
  refine .bind (.lift (orderly_valueAt i)) fun object =>
    .bind (.lift C.popValue) fun key =>
      .bind (.lift (alike_index hE.run object key).attempt) fun outcome =>
        .bind (.lift (orderly_discard _)) fun _ => ?_
  cases outcome with
  | ok v => exact .lift (C.push v)
  | error e => exact .throw e

theorem alike_runSetTable (i : Int) : Alike (C.regime own) (runSetTable E i) (runSetTable E' i) :=
  .bind (.lift (orderly_valueAt i)) fun _ => .bind (.lift C.popValue) fun _ =>
    .bind (.lift C.popValue) fun _ => alike_assign hE.run _ _ _

theorem alike_runLoop (body : List Op) (n : Nat) :
    Alike (C.regime own) (runLoop E body n) (runLoop E' body n) := by
  induction n with
  | zero => exact .pure _
  | succ n ih =>
    refine .bind (hE.block body) fun ended => ?_
    cases ended with
    | some k => exact .pure _
    | none => exact ih

theorem alike_runExceptionOf (i : Int) :
    Alike (C.regime own) (runExceptionOf E i) (runExceptionOf E' i) := by
  refine .bind (.lift (orderly_valueAt i)) fun v =>
    .bind (.lift (alike_exceptionOf hE.run v).attempt) fun outcome => ?_
  cases outcome with
  | ok e => exact .lift (orderly_showException e)
  | error e => exact orderly_raiseFailure e

theorem alike_runOp (op : Op) : Alike (C.regime own) (runOp E op) (runOp E' op) := by
  cases op with
  | push values =>
    exact alike_quiet (.bind (.lift (orderly_buildLiterals values)) fun vs =>
      .lift (orderly_pushAll vs))
  | newTable =>
    exact alike_quiet (.bind (.lift (orderly_newTable _)) fun _ => .lift (C.push _))
  | pushFunction label body =>
    exact alike_quiet (.bind (.lift (orderly_newFunction _)) fun _ =>
      .lift (C.push _))
  | setTop n => exact alike_quiet (.lift (C.setTop n))
  | pop n => exact alike_quiet (.lift (C.setTop _))
  | remove i => exact alike_quiet (.lift (C.remove i))
  | insert i => exact alike_quiet (.lift (C.insert i))
  | replace i => exact alike_quiet (.lift (C.replace i))
  | copy i =>
    exact alike_quiet (.bind (.lift (orderly_valueAt i)) fun _ => .lift (C.push _))
  | rawGet i => exact alike_quiet (orderly_runRawGet i)
  | rawGetField i name =>
    exact alike_quiet (.bind (orderly_tableAt i) fun t =>
      .bind (.lift (orderly_rawGetField t name)) fun _ => .lift (C.push _))
  | rawGetInt i n =>
    exact alike_quiet (.bind (orderly_tableAt i) fun t =>
      .bind (.lift (orderly_rawGetInt t n)) fun _ => .lift (C.push _))
  | rawSet i => exact alike_quiet (orderly_runRawSet i)
  | rawSetField i name =>
    exact alike_quiet (.bind (orderly_tableAt i) fun t =>
      .bind (.lift C.popValue) fun v => .lift (orderly_rawSetField t name v))
  | rawSetInt i n =>
    exact alike_quiet (.bind (orderly_tableAt i) fun t =>
      .bind (.lift C.popValue) fun v => .lift (orderly_rawSetInt t n v))
  | getTable i => exact alike_quiet (alike_runGetTable hE i)
  | getField i name =>
    exact alike_quiet (.bind (.lift (orderly_valueAt i)) fun v =>
      .bind (alike_index hE.run v _) fun _ => .lift (C.push _))
  | setTable i => exact alike_quiet (alike_runSetTable hE i)
  | setField i name =>
    exact alike_quiet (.bind (.lift (orderly_valueAt i)) fun object =>
      .bind (.lift C.popValue) fun v => alike_assign hE.run object _ v)
  | getGlobal name =>
    exact alike_quiet (.bind (alike_getGlobal hE.run name) fun _ => .lift (C.push _))
  | setGlobal name => exact alike_quiet (alike_setGlobal hE.run name)
  | pushGlobals =>
    exact alike_quiet (.bind (.lift orderly_readMachine) fun _ => .lift (C.push _))
  | pushRegistry =>
    exact alike_quiet (.bind (.lift orderly_readMachine) fun _ => .lift (C.push _))
  | setMetatable i => exact alike_quiet (orderly_setMetatable i)
  | newUserdata n =>
    exact alike_quiet (.bind (.lift (orderly_newUserdata (fun _ => Payload.noConfusion) _)) fun _ =>
      .lift (C.push _))
  | call nargs nresults => exact alike_quiet (C.call hE.run _ _)
  | pushRef r =>
    exact alike_quiet (.bind (.lift (orderly_readRef r)) fun _ => .lift (C.push _))
  | releaseRef r => exact alike_quiet (.lift (orderly_releaseRef r))
  | keep name i =>
    exact alike_quiet (.bind (.lift (orderly_valueAt i)) fun v =>
      .lift (orderly_keep name v))
  | unkeep name => exact alike_quiet (.lift (orderly_unkeep name))
  | setAppText s =>
    exact alike_quiet (.lift (.modify (fun _ _ => .machine ..) fun _ => .of_same rfl rfl rfl))
  | popValue =>
    exact .bind (.lift C.popValue) fun v => .bind (.lift (orderly_showValue v))
      fun _ => .bind (.lift (orderly_discard _)) fun _ => .pure _
  | value i =>
    exact .bind (.lift (orderly_valueAt i)) fun v =>
      .bind (.lift (orderly_showValue v)) fun _ => .pure _
  | dump i =>
    exact .bind .get fun _ => .bind (.lift (orderly_valueAt i)) fun v => .pure _
  | userdata i => exact .bind (.lift (orderly_userdataView i)) fun _ => .pure _
  | rawLength i =>
    exact .bind (.lift (orderly_valueAt i)) fun v =>
      .bind (.lift (orderly_rawLength v)) fun _ => .pure _
  | next i => exact .bind (orderly_runNext i) fun _ => .pure _
  | getMetatable i => exact .bind (.lift (orderly_runGetMetatable i)) fun _ => .pure _
  | getMetafield i name => exact .bind (.lift (orderly_runGetMetafield i name)) fun _ => .pure _
  | protectedCall nargs nresults =>
    exact .bind (alike_protectedCall hE.run) fun _ => .pure _
  | location level => exact .bind (.lift (orderly_location level)) fun _ => .pure _
  | describe i =>
    exact .bind (.lift (orderly_valueAt i)) fun v =>
      .bind (alike_textOf hE.run v) fun _ => .pure _
  | createRef =>
    exact .bind (.lift C.popValue) fun v => .bind (.lift (orderly_createRef v))
      fun _ => .pure _
  | collect => exact .bind (alike_collect hE.run) fun _ => .pure _
  | raise => exact .bind (.lift C.popValue) fun _ => .throw _
  | raiseOverflow => exact .throw _
  | runtimeError message => exact orderly_raiseAt 1 message
  | errorAt level message => exact orderly_raiseAt level message
  | raiseHost spec =>
    exact .bind (.lift (orderly_build spec)) fun e => orderly_raiseException e
  | «return» n => exact .pure _
  | arithmetic op i j =>
    exact alike_quiet (.bind (.lift orderly_readMachine) fun _ => .lift (C.push _))
  | concat parts =>
    exact alike_quiet (.bind (.lift orderly_readMachine) fun _ => .lift (C.push _))
  | branch i yes no =>
    exact .bind (.lift (orderly_valueAt i)) fun v => .bind (hE.block _) fun _ => .pure _
  | loop n body => exact alike_runLoop hE body n
  | exceptionOf i => exact .bind (alike_runExceptionOf hE i) fun _ => .pure _
  | query q => exact .bind (.lift orderly_readMachine) fun _ => .pure _
  | host op => exact alike_inSessionOnly (orderly_runHostOp op)

theorem alike_performOp (op : Op) : Alike (C.regime own) (performOp E op) (performOp E' op) := by
  refine .bind (.lift (alike_runOp hE op).attempt) fun outcome => ?_
  cases outcome with
  | ok s => exact .bind (.lift orderly_settle) fun _ => .pure s
  | error e => exact .bind (.lift (orderly_settleBeside _)) fun _ => .throw e

/-! ## Blocks and functions -/

theorem alike_runBlock (ops : List Op) :
    Alike (C.regime own) (runBlock E ops) (runBlock E' ops) := by
  induction ops with
  | nil => exact .pure _
  | cons op rest ih =>
    refine .bind (alike_performOp hE op) fun s => ?_
    cases s with
    | done => exact ih
    | answer r =>
      exact .bind (.lift (.modify (fun _ _ => .books ..) fun _ => .of_same rfl rfl rfl)) fun _ => ih
    | «return» n => exact .pure _

theorem alike_runFunction (f : FunctionRef) :
    Alike (C.regime own) (runFunction E f) (runFunction E' f) := by
  refine .bind .get fun w => ?_
  split
  · exact .pure _
  · exact .bind (hE.block _) fun _ => .pure _
  · exact alike_dispatch hE _
  · exact alike_handlerRun hE _

end

/-! ## Engines -/

namespace Engine

/-- The engine that nests once more. -/
def step (E : Engine) : Engine where
  run f w := runFunction E f w
  block ops w := runBlock E ops w
  invoke m cls target arguments w := m.invoke E cls target arguments w
  statements body w := runStatements E body w
  eval e w := e.run E w

theorem exhausted_alike (C : Conduct) : exhausted.Alike C exhausted where
  run _ := .throw _
  block _ := .throw _
  invoke _ _ _ _ := .pure _
  statements _ := .throw _
  eval _ := .throw _

theorem Alike.step [C.Fills] {E E' : Engine} (hE : E.Alike C E') : E.step.Alike C E'.step where
  run := alike_runFunction hE
  block := alike_runBlock hE
  invoke := alike_methodInvoke hE
  statements body := alike_runStatements hE body fun _ _ _ => inferInstance
  eval := alike_exprRun hE

/-- Whatever an engine runs keeps to the conduct. -/
theorem ofDepth_alike (C : Conduct) [C.Fills] (d : Nat) : (ofDepth d).Alike C (ofDepth d) := by
  induction d with
  | zero => exact exhausted_alike C
  | succ d ih => exact ih.step

end Engine

end ScriptBridge
