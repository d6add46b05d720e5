import ScriptBridge.Bridge.Matching

/-!
# Dispatch

A dispatcher is called with the arguments of the running frame. It finds its target, prepares the
arguments by the plan of its last call or else by resolving its candidates anew, runs the chosen
method, and pushes the result followed by every output in declaration order. While a call runs
its plan is not in the dispatcher, so an inner call of the same dispatcher starts without one.
-/

namespace ScriptBridge

def readDispatcher? (d : DispatcherRef) : Action (Option Dispatcher) := do
  return (← get).dispatchers.get? d.index

def setPlan (d : DispatcherRef) (plan : Option Plan) : Action Unit := modify fun w =>
  { w with dispatchers := w.dispatchers.modify d.index ({ · with plan }) }

/-- Makes a dispatcher forget its plan. -/
def forgetPlan (d : DispatcherRef) : Action Unit := do
  let old := (← readDispatcher? d).bind (·.plan)
  setPlan d none
  discard ((old.map Plan.refs).getD [])

/-- Takes the plan out of a dispatcher; whoever takes it holds what is in it. -/
def takePlan (d : DispatcherRef) : Action (Option Plan) := do
  let plan := (← readDispatcher? d).bind (·.plan)
  setPlan d none
  hold ((plan.map Plan.refs).getD [])
  return plan

/-- Puts a plan into a dispatcher, in place of one that a call inside this one left there. -/
def putPlan (d : DispatcherRef) (plan : Plan) : Action Unit := do
  forgetPlan d
  setPlan d (some plan)
  handOver plan.refs

/-! ## Target and arguments -/

/-- The target of a call, and the position of the first argument. -/
def findTarget (d : Dispatcher) : Script (Option ObjectRef × Int) := do
  if d.binding != .onObject then return (none, 1)
  if let some o := d.bound then return (some o, 1)
  match ← fittingObject? (← valueAt 1) (.named d.cls.name) with
  | some o => return (some o, 2)
  | none =>
    raiseCause (.invalidTarget
      ("instance method '" ++ d.name ++ "' requires a non null target object"))

/-- Resolves the candidates of a dispatcher, and holds what is in the plan. -/
def resolveCall (d : Dispatcher) (arguments : List Value) :
    Action (Except Cause (Plan × List HostValue)) := do
  match ← resolve d.candidates arguments with
  | some (plan, converted) =>
    hold plan.refs
    return .ok (plan, converted)
  | none => return .error (.noOverload d.callable)

/-- The plan, which is held, and the host arguments for a call. A plan that fits the number of
arguments but not their values is final when there is only one candidate. -/
def prepare (d : Dispatcher) (cached : Option Plan) (arguments : List Value) :
    Action (Except Cause (Plan × List HostValue)) := do
  match cached with
  | none => resolveCall d arguments
  | some plan =>
    match ← plan.replay arguments with
    | .ok converted => return .ok (plan, converted)
    | .error reason =>
      unhold plan.refs
      match reason, d.candidates with
      | .invalid position, [_] => return .error (.invalidArgument d.callable position)
      | _, _ => resolveCall d arguments

/-! ## Results -/

/-- Pushes the outputs of a call. -/
def pushOutputs (arguments : List HostValue) : List Nat → Action Unit
  | [] => return ()
  | i :: rest => do
    pushHost (arguments.getD i .null)
    pushOutputs arguments rest

/-- Pushes the results of a call and gives their number. -/
def pushResults (plan : Plan) (ret : HostValue) (arguments : List HostValue) : Action Nat := do
  if plan.returnsVoid then
    pushOutputs arguments plan.outSlots
    return plan.outSlots.length
  else
    pushHost ret
    pushOutputs arguments plan.outSlots
    return plan.outSlots.length + 1

/-! ## Calling -/

/-- Runs the method of a prepared call, hands its results over, and puts the plan back. -/
def runPlan (E : Engine) (ref : DispatcherRef) (d : Dispatcher) (plan : Plan)
    (target : Option ObjectRef) (arguments : List HostValue) : Action (Except Failure Nat) := do
  let targetRefs := (target.map Ref.object).toList
  hold targetRefs
  let (outcome, arguments) ← E.invoke plan.method d.cls target arguments
  let result ←
    match outcome with
    | .ok ret =>
      let n ← pushResults plan ret arguments
      discard ret.refs
      pure (.ok n)
    | .error e => pure (.error e)
  putPlan ref plan
  discard (arguments.flatMap HostValue.refs)
  unhold targetRefs
  return result

/-- Calls a dispatcher with the arguments of the running frame. -/
def dispatch (E : Engine) (ref : DispatcherRef) : Script Nat := do
  if (← get).session?.isNone then raiseCause noSession
  let _ ← collectReleased
  match ← readDispatcher? ref with
  | none => raiseCause noSession
  | some d =>
    let (target, first) ← findTarget d
    let arguments := (← readMachine).valuesFrom first
    match ← prepare d (← takePlan ref) arguments with
    | .error cause => raiseCause cause
    | .ok (plan, converted) =>
      match ← runPlan E ref d plan target converted with
      | .ok n => return n
      | .error e => raiseFailure e

end ScriptBridge
