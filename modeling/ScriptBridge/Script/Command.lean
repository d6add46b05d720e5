import ScriptBridge.Bridge.Embedding
import ScriptBridge.Script.Run
import ScriptBridge.Text.Quoted

/-!
# Commands

A run is a list of commands. A command is a stack operation at the outermost level, something
host code does with the running session, or a change of session. Each one answers with an item
that also tells how it left the stack.
-/

namespace ScriptBridge

/-! ## Commands -/

inductive AdapterKind where
  | delegate
  | interface
deriving DecidableEq, Repr

/-- What host code does with the running session. -/
inductive Command where
  | op (op : Op)
  | assign (name : String) (v : HostLiteral)
  | declare (d : ClassDecl)
  | importClass (name : String)
  | push (v : HostLiteral)
  | read (i : Int) (type : Option HostType)
  | writeGlobal (name : String) (v : HostLiteral)
  | readGlobal (name : String) (saveAs : Option String)
  | callGlobal (name : String) (arguments : List HostLiteral)
  | callValue (function : HostLiteral) (arguments : List HostLiteral)
  | invokeDelegate (delegate : HostLiteral) (arguments : List HostLiteral)
  /-- Runs the method at a place among those of a name that the class itself declares. -/
  | invokeMethod (target : HostLiteral) (className name : String) (place : Nat)
      (arguments : List HostLiteral)
  | bindMethod (wrapper className name : String) (target : HostLiteral)
  | registerFunction (name wrapper : String)
  | showWrapper (wrapper : String)
  /-- Makes a wrapper forget the plan of its last call. -/
  | invalidate (wrapper : String)
  /-- Calls a wrapper on a machine that has no session. -/
  | callDetached (wrapper : String) (arguments : List Literal)
  | adapt (kind : AdapterKind) (className : String) (v : HostLiteral) (saveAs : String)
  | popException
  | collectGarbage
  | expose (v : HostLiteral)
  | idOf (v : HostLiteral)
  | resolve (id : Nat)
  | revoke (id : Nat)
  | revokeObject (v : HostLiteral)
  | same (a b : HostLiteral)
  | describe (v : HostLiteral)
  | catalogSize
  | isAssignable (target className : String)
  | showOptions

/-- A step of a run with several sessions. -/
inductive SessionCommand where
  | command (c : Command)
  | switch (session : Nat)
  | close
  /-- Shows the bag of the object in a variable. -/
  | bag (name : String)

/-! ## Answers -/

/-- Why a command was not carried out. -/
inductive Refusal where
  | notAnObject
  | noMethod
  | noWrapper
  | notAReference
deriving DecidableEq, Repr

def Refusal.text : Refusal → String
  | notAnObject => "not an object"
  | noMethod => "no method"
  | noWrapper => "no wrapper"
  | notAReference => "not a ref"

/-- What a command achieved that did not throw. -/
inductive Outcome where
  | done
  | value (v : HostView)
  | values (vs : List HostView)
  | call (ret : HostView) (arguments : List HostView)
  | object (o : ObjectView)

structure WrapperView where
  name : String
  className : String
  binding : Binding
  callable : String
  candidates : List String
  hasPlan : Bool

inductive RaiseView where
  | runtime (v : ValueView)
  | stackOverflow
  | exhausted

inductive Reply where
  | nothing
  | report (r : Report)
  | outcome (o : Except ExceptionView Outcome)
  | refused (r : Refusal)
  | wrapper (w : WrapperView)
  | detached (status : Status) (v : ValueView)
  | options (o : Options)
  | raised (e : RaiseView)

/-- A reply, the answers inside it, and the stack after it: its height and its last slots. -/
structure StepView where
  reply : Reply
  trace : List Report
  top : Nat
  stack : List ValueView

structure BagView where
  slots : List (String × HostView)
  handlers : List (String × Nat)
  items : List (HostView × HostView)

inductive Item where
  | step (s : StepView)
  | switched (session : Nat)
  | closed (session : Nat)
  /-- The running session was closed before. -/
  | noSession
  | bag (b : Option BagView)

/-! ## Wrappers -/

def Binding.text : Binding → String
  | .onObject => "Instance"
  | .static => "Static"
  | .constructor => "Constructor"

/-- The text of a wrapper for its developers. -/
def WrapperView.debugText (w : WrapperView) : String :=
  "MethodWrapper \x7b callable: " ++ Text.quote w.callable ++ ", binding: " ++ w.binding.text
    ++ ", candidates: " ++ toString w.candidates.length ++ " \x7d"

def Dispatcher.view (d : Dispatcher) : WrapperView :=
  { name := d.name, className := d.cls.name, binding := d.binding, callable := d.callable
    candidates := d.candidates.map Method.describe, hasPlan := d.plan.isSome }

def wrapper? (name : String) : Action (Option DispatcherRef) := do
  return (← get).wrappers.get? name

def setWrapper (name : String) (d : DispatcherRef) : Action Unit := do
  let old := (← get).wrappers.get? name
  modify fun w => { w with wrappers := w.wrappers.insert name d }
  discard (old.map Ref.dispatcher).toList

/-! ## Running commands -/

/-- Builds a literal and holds the value while an action uses it. -/
def withHost {α : Type} (l : HostLiteral) (x : HostValue → Action α) : Action α := do
  let v ← l.build
  hold v.refs
  let result ← x v
  unhold v.refs
  return result

/-- Builds literals and holds the values while an action uses them. -/
def withHosts {α : Type} (ls : List HostLiteral) (x : List HostValue → Action α) : Action α := do
  let vs ← buildHostLiterals ls
  let refs := vs.flatMap HostValue.refs
  hold refs
  let result ← x vs
  unhold refs
  return result

/-- Carries out host code and tells how it went. -/
def tell (x : Host Outcome) : Action Reply := do
  match ← attempt x with
  | .ok o => return .outcome (.ok o)
  | .error (.exception e) => return .outcome (.error (← showException e))
  | .error .exhausted => return .raised .exhausted

/-- Shows a value and lets go of it. -/
def showAndDiscard (v : HostValue) : Action HostView := do
  let view ← showHost v
  discard v.refs
  return view

def tellValues (x : Host (List HostValue)) : Host Outcome := do
  let vs ← x
  let views ← vs.mapM fun v => showHost v
  discard (vs.flatMap HostValue.refs)
  return .values views

/-- Shows the outcome of a call with the arguments afterwards. -/
def tellCall (x : Action CallOutcome) : Host Outcome := do
  let (outcome, arguments) ← x
  let shown ← arguments.mapM fun v => showHost v
  match outcome with
  | .ok ret =>
    let ret ← showAndDiscard ret
    discard (arguments.flatMap HostValue.refs)
    return .call ret shown
  | .error e =>
    discard (arguments.flatMap HostValue.refs)
    throw e

/-- Reads a global, into a variable if one is given. -/
def tellGlobal (E : Engine) (name : String) (saveAs : Option String) : Host Outcome := do
  let v ← readGlobal E name
  let view ← showHost v
  match saveAs with
  | some x => setVariable x v
  | none => discard v.refs
  return .value view

def runBind (wrapper className name : String) (target : HostValue) : Host Outcome := do
  let d ← bindMethod (← classNamed className) name target.asObject?
  setWrapper wrapper d
  return .done

/-- An adapter made whatever the policy of the session. -/
def runAdapt (kind : AdapterKind) (className : String) (h : HandleRef) (saveAs : String) :
    Host Outcome := do
  let cls ← classNamed className
  let made ←
    match kind with
    | .delegate => makeDelegate cls h
    | .interface => makeInterface cls h
  match made with
  | .ok o =>
    setVariable saveAs (.object o)
    return .object (← showObject o 1)
  | .error cause => throwCause cause

/-- Runs an action on a new machine without a session, which goes afterwards. -/
def detached {α : Type} (x : Action α) : Action α := do
  let home := (← readMachine).id
  park (← newMachine {})
  let result ← x
  leaveMachine home
  return result

def runDetached (E : Engine) (name : String) (d : DispatcherRef) (arguments : List Literal) :
    Action Reply := detached do
  push (.function (← functionOf name d))
  pushAll (← buildLiterals arguments)
  match ← attempt (protectedCall E arguments.length (-1)) with
  | .error _ => return .raised .exhausted
  | .ok status =>
    let v ← popValue
    let view ← showValue v
    discard v.refs
    return .detached status view

def showRaise : Raise → Action RaiseView
  | .runtime v => do return .runtime (← showValue v)
  | .stackOverflow => return .stackOverflow
  | .exhausted => return .exhausted

/-- A stack operation at the outermost level. -/
def runTopOp (E : Engine) (op : Op) : Action Reply := do
  match ← attempt (performOp E op) with
  | .ok (.answer r) => return .report r
  | .ok _ => return .nothing
  | .error e =>
    let view ← showRaise e
    discard e.refs
    return .raised view

/-- Answers about the object of a literal; nothing for other values. -/
def aboutObject (l : HostLiteral) (x : ObjectRef → Action Report) : Action Reply :=
  withHost l fun v => do
    match v.asObject? with
    | some o => return .report (← x o)
    | none => return .nothing

/-- Describes the object an id stands for, and lets go of it. -/
def showFound (o : Option ObjectRef) : Action Reply := do
  match o with
  | some o =>
    let view ← showObject o 1
    discard [.object o]
    return .report (.object (some view))
  | none => return .report (.object none)

def runCommand (E : Engine) (c : Command) : Action Reply := do
  match c with
  | .op op => runTopOp E op
  | .assign name v =>
    setVariable name (← v.build)
    return .nothing
  | .declare d =>
    declare d
    return .nothing
  | .importClass name => tell do
    importClass E name
    return .done
  | .push v => withHost v fun v => do
    pushHost v
    return .nothing
  | .read i type => tell do return .value (← showAndDiscard (← readAt i type))
  | .writeGlobal name v => withHost v fun v => tell do
    writeGlobal E name v
    return .done
  | .readGlobal name saveAs => tell (tellGlobal E name saveAs)
  | .callGlobal name arguments =>
    withHosts arguments fun vs => tell (tellValues (callGlobal E name vs))
  | .callValue function arguments =>
    withHost function fun f =>
      withHosts arguments fun vs => tell (tellValues (callValue E f vs))
  | .invokeDelegate delegate arguments => withHost delegate fun v => do
    match v.asObject? with
    | some o => tell (tellCall (invokeDelegate E o (← buildHostLiterals arguments)))
    | none => return .refused .notAnObject
  | .invokeMethod target className name place arguments => withHost target fun v => do
    let cls ← classNamed className
    match (cls.methodsNamed name)[place]? with
    | some m => tell (tellCall (E.invoke m cls v.asObject? (← buildHostLiterals arguments)))
    | none => return .refused .noMethod
  | .bindMethod wrapper className name target =>
    withHost target fun v => tell (runBind wrapper className name v)
  | .registerFunction name wrapper =>
    match ← wrapper? wrapper with
    | some d => tell do
      registerFunction E name d
      return .done
    | none => return .refused .noWrapper
  | .showWrapper wrapper =>
    match ← (← wrapper? wrapper).mapM fun d => readDispatcher? d with
    | some (some d) => return .wrapper d.view
    | _ => return .nothing
  | .invalidate wrapper =>
    if let some d ← wrapper? wrapper then forgetPlan d
    return .nothing
  | .callDetached wrapper arguments =>
    match ← wrapper? wrapper with
    | some d => runDetached E wrapper d arguments
    | none => return .nothing
  | .adapt kind className v saveAs =>
    withHost v fun v => do
      match v with
      | .handle _ h => tell (runAdapt kind className h saveAs)
      | _ => return .refused .notAReference
  | .popException =>
    let v ← popValue
    let e ← attempt (holding v.refs (exceptionOf E v))
    match e with
    | .ok e => return .report (.exception (← showException e))
    | .error _ => return .raised .exhausted
  | .collectGarbage =>
    match ← attempt (collectGarbage E) with
    | .ok n => return .report (.int n)
    | .error _ => return .raised .exhausted
  | .expose v => aboutObject v fun o => do
    return .text (idText (← expose o))
  | .idOf v => aboutObject v fun o => do
    return .id ((← readSession).registry.idOf? ObjectRef.index o)
  | .resolve id => showFound ((← readSession).registry.resolve? id)
  | .revoke id => showFound (← revoke id)
  | .revokeObject v => withHost v fun v => do
    let id := v.asObject?.bind ((← readSession).registry.idOf? ObjectRef.index)
    let gone ← id.mapM fun n => revoke n
    return .report (.bool gone.join.isSome)
  | .same a b => withHost a fun x => withHost b fun y => do
    return .report (.bool ((← get).same x y))
  | .describe v => withHost v fun v => do return .report (.host (← showHost v 4))
  | .catalogSize => return .report (.int (← readSession).catalog.size)
  | .isAssignable target className =>
    let catalog := (← readSession).catalog
    return .report (.boolOrNothing ((catalog.find? className).map (catalog.isAssignable target)))
  | .showOptions => return .options (← readSession).options

/-! ## Items -/

/-- How many slots of the stack an item shows. -/
def shownSlots : Nat := 8

/-- Takes the answers of the trace. -/
def takeTrace : Action (List Report) := modifyGet fun w =>
  (w.trace.toList, { w with trace := #[] })

/-- Runs a command and shows what it left. -/
def stepCommand (E : Engine) (c : Command) : Action StepView := do
  let reply ← runCommand E c
  settle
  let trace ← takeTrace
  let m ← readMachine
  let slots := m.stack.toList.drop (max m.base (m.stack.size - shownSlots))
  return { reply, trace, top := m.top, stack := ← slots.mapM fun v => showValue v }

def showBag (name : String) : Action (Option BagView) := do
  let w ← get
  match ← readBag? ((w.bindings.get? name).bind (·.asObject?)) with
  | some b =>
    return some {
      slots := b.slots.map fun (n, v) => (n, w.hostView defaultDepth v)
      handlers := b.handlers.map fun (n, hs) => (n, hs.length)
      items := b.items.map fun (k, v) => (w.hostView defaultDepth k, w.hostView defaultDepth v) }
  | none => return none

/-- The number of the running session. -/
def runningSession : Action Nat := do
  let w ← get
  return w.sessions.findIdx (· == w.machine.id)

def runSessionCommand (E : Engine) (c : SessionCommand) : Action Item := do
  match c with
  | .switch k =>
    if let some id := (← get).sessions[k]? then resume id
    return .switched k
  | .bag name => return .bag (← showBag name)
  | .close =>
    if (← readMachine).session.isNone then return .noSession
    let k ← runningSession
    closeSession
    return .closed k
  | .command c =>
    if (← readMachine).session.isNone then return .noSession
    return .step (← stepCommand E c)

end ScriptBridge
