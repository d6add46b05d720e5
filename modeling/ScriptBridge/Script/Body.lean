import ScriptBridge.Bridge.Describe
import ScriptBridge.Bridge.Dispatch
import ScriptBridge.Script.Literal

/-!
# Running host bodies

Statements and expressions of a host body run inside an activation, which holds the class, the
target and the arguments of the call. Everything that nests goes through the engine.
-/

namespace ScriptBridge

/-! ## The running activation -/

instance : Inhabited Activation := ⟨⟨default, none, []⟩⟩

def activation : Action Activation := do return (← get).activations.head?.getD default

def setArguments (arguments : List HostValue) : Action Unit := modify fun w =>
  match w.activations with
  | a :: rest => { w with activations := { a with arguments } :: rest }
  | [] => w

/-- Runs a body inside an activation; gives its outcome and the arguments afterwards. -/
def activate {α : Type} (a : Activation) (x : Host α) :
    Action (Except Failure α × List HostValue) := do
  let outer := (← get).activations
  modify fun w => { w with activations := a :: w.activations }
  let outcome ← attempt x
  let arguments := (← activation).arguments
  modify fun w => { w with activations := outer }
  return (outcome, arguments)

/-- Holds references while a step runs; they are let go of only if it fails. -/
def keeping {α : Type} (refs : List Ref) (x : Host α) : Host α := do
  hold refs
  match ← attempt x with
  | .ok a =>
    handOver refs
    return a
  | .error e =>
    unhold refs
    throw e

def missingTarget (cls : Class) : Cause :=
  .invalidTarget ("'" ++ cls.name ++ "' call requires a target of the right type")

/-- The bag of the target. -/
def targetBag (a : Activation) : Host Bag := do
  match ← readBag? a.target with
  | some b => return b
  | none => throwCause (missingTarget a.cls)

/-! ## Calls -/

/-- Calls a delegate object. -/
def invokeDelegate (E : Engine) (delegate : ObjectRef) (arguments : List HostValue) :
    Action CallOutcome := do
  match ← readObject? delegate with
  | none => failedCall noSession arguments
  | some o =>
    match o.cls.invokeMethod? with
    | some m => E.invoke m o.cls (some delegate) arguments
    | none => failedCall (.invalidTarget ("'" ++ o.cls.name ++ "' is not a delegate")) arguments

/-- The result of a call in a body: the return value, or an argument after the call. -/
def takeResult (out : Option Nat) (outcome : CallOutcome) : Host HostValue := do
  match outcome with
  | (.ok ret, arguments) =>
    let result :=
      match out with
      | none => ret
      | some i => arguments.getD i .null
    let dropped := (ret.refs ++ arguments.flatMap HostValue.refs).filter
      (!result.refs.contains ·)
    discard dropped
    return result
  | (.error e, arguments) =>
    discard (arguments.flatMap HostValue.refs)
    throw e

/-! ## Expressions -/

def evalAll (E : Engine) : List Expr → Host (List HostValue)
  | [] => return []
  | e :: rest => do
    let v ← E.eval e
    let vs ← keeping v.refs (evalAll E rest)
    return v :: vs

def evalSlots (E : Engine) : List (String × Expr) → Host (Dictionary String HostValue)
  | [] => return []
  | (name, e) :: rest => do
    let v ← E.eval e
    let vs ← keeping v.refs (evalSlots E rest)
    return (name, v) :: vs

/-- The items of a value that is an array. -/
def itemsOf (v : HostValue) : Action (Option (Array HostValue)) := readItems? v.asObject?

/-- The integer of a value in sums; zero if it has none. -/
def addend (v : HostValue) : Int := v.asInt64?.getD 0

def int64 (n : Int) : HostValue := .int .i64 (IntegerKind.i64.wrap n)

/-- Evaluates an expression and lets go of its value after use, unless it is the result too. -/
def evalWith (E : Engine) (e : Expr) (use : HostValue → Host HostValue) : Host HostValue := do
  let v ← E.eval e
  let result ← keeping v.refs (use v)
  discard (v.refs.filter (!result.refs.contains ·))
  return result

def Expr.run (E : Engine) (e : Expr) : Host HostValue := do
  match e with
  | literal l => l.build
  | argument i => return (← activation).arguments.getD i .null
  | slot name => return ((← targetBag (← activation)).slots.get? name).getD .null
  | target => return ((← activation).target.map .object).getD .null
  | className => return .text (← activation).cls.name
  | targetClass =>
    match (← activation).target with
    | some o => return ((← readObject? o).map fun o => .text o.cls.name).getD .null
    | none => return .null
  | new slots =>
    let slots ← evalSlots E slots
    return .object (← newObject (← activation).cls (.bag { slots }))
  | array element items =>
    let items ← evalAll E items
    return .object (← newArray element items.toArray)
  | length e => evalWith E e fun v => do
    return ((← itemsOf v).map fun items => .int .i32 (IntegerKind.i32.wrap items.size)).getD .null
  | sum e => evalWith E e fun v => do
    let items := (← itemsOf v).getD #[]
    return int64 (items.foldl (fun n item => n + addend item) 0)
  | add a b => evalWith E a fun x => evalWith E b fun y => return int64 (addend x + addend y)
  | invoke delegate arguments out =>
    evalWith E delegate fun v => do
      match v.asObject? with
      | none => throwNamed "null delegate"
      | some o =>
        let arguments ← evalAll E arguments
        takeResult out (← invokeDelegate E o arguments)
  | callMethod object name arguments out =>
    evalWith E object fun v => do
      match v.asObject? with
      | none => throwNamed "null target"
      | some o =>
        let arguments ← evalAll E arguments
        let cls := ((← readObject? o).map (·.cls)).getD default
        match (cls.methodsNamed name).head? with
        | some m => takeResult out (← E.invoke m cls (some o) arguments)
        | none =>
          discard (arguments.flatMap HostValue.refs)
          throwNamed "no such method"

/-! ## Statements -/

/-- Calls handlers one after the other, each with a copy of the arguments. -/
def fireAll (E : Engine) (arguments : List HostValue) : List ObjectRef → Host Unit
  | [] => return ()
  | h :: rest => do
    let _ ← takeResult none (← invokeDelegate E h arguments)
    fireAll E arguments rest

/-- Replaces one item of an array that has the position. -/
def setItem (array : HostValue) (i : Int) (v : HostValue) : Action Unit := do
  match array.asObject? with
  | none => discard v.refs
  | some ref =>
    match ← readObject? ref with
    | some ⟨_, .array element items⟩ =>
      if 0 ≤ i && i < items.size then
        setObjectData ref (.array element (items.setIfInBounds i.toNat v))
        discard ((items[i.toNat]?.map HostValue.refs).getD [])
      else discard v.refs
    | _ => discard v.refs

/-- Runs stack operations in the running frame; what they raise is thrown as an exception. -/
def runOps (E : Engine) (ops : List Op) : Host Unit := do
  match ← tryScript (E.block ops) with
  | .ok _ => return ()
  | .error (.runtime v) =>
    let e ← holding v.refs (exceptionOf E v)
    throw (.exception e)
  | .error _ => throwNamed overflowText

def isTrue (v : HostValue) : Bool := !v.isNull && v != .bool false

/-- Runs a statement; gives the value if it returns. -/
def Stmt.run (E : Engine) (s : Stmt) : Host (Option HostValue) := do
  match s with
  | .return e => return some (← E.eval e)
  | setSlot name e =>
    let v ← E.eval e
    let a ← activation
    let b ← keeping v.refs (targetBag a)
    ScriptBridge.setSlot a.target b name v
    return none
  | setArgument i e =>
    let v ← E.eval e
    let arguments := (← activation).arguments
    if i < arguments.length then
      setArguments (arguments.set i v)
      discard ((arguments[i]?.map HostValue.refs).getD [])
    else discard v.refs
    return none
  | setItem array i e =>
    let _ ← evalWith E array fun x => do
      ScriptBridge.setItem x i (← E.eval e)
      return .null
    return none
  | throw spec => MonadExcept.throw (.exception (← spec.build))
  | traceArguments =>
    let views ← (← activation).arguments.mapM fun v => showHost v
    modify fun w => { w with trace := w.trace.push (.arguments views) }
    return none
  | branch condition yes no =>
    let b ← evalWith E condition fun v => return .bool (isTrue v)
    E.statements (if isTrue b then yes else no)
  | fire event arguments =>
    let arguments ← evalAll E arguments
    holding (arguments.flatMap HostValue.refs) do
      let b ← targetBag (← activation)
      let handlers := (b.handlers.get? event).getD []
      holding (handlers.map Ref.object) (fireAll E arguments handlers)
    return none
  | machine ops =>
    runOps E ops
    return none

/-- Runs statements up to the first that returns. -/
def runStatements (E : Engine) : List Stmt → Host (Option HostValue)
  | [] => return none
  | s :: rest => do
    match ← s.run E with
    | some v =>
      settleBeside v.refs
      return some v
    | none =>
      settle
      runStatements E rest

/-! ## Methods -/

/-- Lets go of arguments that were replaced. -/
def discardReplaced (old new : List HostValue) : Action Unit :=
  let kept := new.flatMap HostValue.refs
  discard ((old.flatMap HostValue.refs).filter (!kept.contains ·))

/-- Runs the body of a delegate in the running activation. -/
def runDelegate (E : Engine) (body : DelegateBody) : Host HostValue := do
  match body with
  | .statements body => return (← E.statements body).getD .null
  | .script function signature =>
    let before := (← activation).arguments
    let (outcome, after) ← holding [.handle function] do
      return ← callFunction E function signature before
    match outcome with
    | .ok ret =>
      setArguments after
      discardReplaced before after
      return ret
    | .error e =>
      discardReplaced after before
      throw e

def notASubscription : Cause := .invalidTarget "target is not an event binding"

/-- The target and the event of a subscription object. -/
def subscriptionOf (a : Activation) : Host (ObjectRef × Option ObjectRef × Event) := do
  match a.target with
  | none => throwCause notASubscription
  | some ref =>
    match ← readObject? ref with
    | some ⟨_, .event target event⟩ => return (ref, target, event)
    | _ => throwCause notASubscription

/-- Subscribes the first argument, a script function; gives the delegate made of it. -/
def runSubscribe : Host HostValue := do
  let a ← activation
  let (ref, target, event) ← subscriptionOf a
  match a.arguments.getD 0 .null with
  | .handle .function h =>
    let some s := (← get).session? | throwCause noSession
    let some cls := s.catalog.find? event.delegateType
      | throwCause (.invalidTarget ("unknown delegate type '" ++ event.delegateType ++ "'"))
    match ← delegateFor cls h with
    | .error cause => throwCause cause
    | .ok handler =>
      match ← attempt (event.subscribe target handler) with
      | .ok () =>
        trackEvent ref handler
        return .object handler
      | .error e =>
        discard [.object handler]
        throw e
  | v => throwCause (.typeMismatch "function" v.kindName)

/-- Removes the first argument from the handlers of an event. -/
def runUnsubscribe : Host HostValue := do
  let a ← activation
  let (_, target, event) ← subscriptionOf a
  match (a.arguments.getD 0 .null).asObject? with
  | none => return .null
  | some handler =>
    event.unsubscribe target handler
    if (← get).session?.isNone then throwCause noSession
    untrackEvent handler
    return .null

def MethodBody.run (E : Engine) (body : MethodBody) : Host HostValue := do
  match body with
  | statements body => return (← E.statements body).getD .null
  | delegateBody =>
    match ← (← activation).target.mapM fun (o : ObjectRef) => readObject? o with
    | some (some ⟨_, .delegate body⟩) => runDelegate E body
    | _ => throwCause (.invalidTarget "delegate target is not a delegate")
  | subscribe => runSubscribe
  | unsubscribe => runUnsubscribe

/-- Runs a method with one argument for each parameter. An abstract method of a table's interface
calls the table. -/
def Method.invoke (E : Engine) (m : Method) (cls : Class) (target : Option ObjectRef)
    (arguments : List HostValue) : Action CallOutcome := do
  match m.body with
  | some body => activate ⟨cls, target, arguments⟩ (body.run E)
  | none =>
    match ← target.mapM fun (o : ObjectRef) => readObject? o with
    | some (some ⟨_, .scriptTable table⟩) =>
      let refs := arguments.flatMap HostValue.refs
      hold refs
      let (outcome, after) ← callTableMethod E table m arguments
      handOver refs
      discardReplaced arguments after
      return (outcome, after)
    | _ => failedCall (.invalidTarget (m.callable ++ " has no implementation")) arguments

end ScriptBridge
