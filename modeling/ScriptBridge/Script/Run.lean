import ScriptBridge.Bridge.Signature
import ScriptBridge.Script.Body
import ScriptBridge.Script.Declaration

/-!
# Running stack operations

`runOp` is the meaning of each operation. An operation is done, gives an answer, or ends the list
it stands in; answers inside function bodies, blocks and host bodies go to the trace. After each
operation the world looks at the references it let go of. `Engine.ofDepth` ties the knot between
operations, functions and host bodies, to a bound on their nesting.
-/

namespace ScriptBridge

/-- How an operation ends when it does not raise. -/
inductive Step where
  | done
  | answer (r : Report)
  /-- Ends a function body with a number of results. -/
  | return (n : Nat)

/-! ## Values, tables and metatables -/

/-- Pops a key and pushes what a table has under it, without metamethods. -/
def runRawGet (i : Int) : Script Unit := do
  let t ← tableAt i
  let key ← popValue
  push (← rawGet t key)
  discard key.refs

/-- Pops a value and a key below it and writes them, without metamethods. -/
def runRawSet (i : Int) : Script Unit := do
  let t ← tableAt i
  let value ← popValue
  let key ← popValue
  rawSet t key value

/-- Pops a key and pushes what a value has under it. -/
def runGetTable (E : Engine) (i : Int) : Script Unit := do
  let object ← valueAt i
  let key ← popValue
  let outcome ← attempt (index E object key)
  discard key.refs
  match outcome with
  | .ok v => push v
  | .error e => throw e

/-- Pops a value and a key below it and assigns them. -/
def runSetTable (E : Engine) (i : Int) : Script Unit := do
  let object ← valueAt i
  let value ← popValue
  let key ← popValue
  assign E object key value

/-- Pops a key and pushes the entry after it; says whether there is one. -/
def runNext (i : Int) : Script Bool := do
  let t ← tableAt i
  let key ← popValue
  discard key.refs
  let w ← get
  match (w.table t).next w.isLive key with
  | .error e => raiseMessage e.message
  | .ok none => return false
  | .ok (some (k, v)) =>
    push k
    push v
    return true

/-- Pushes the metatable of a value, if it has one. -/
def runGetMetatable (i : Int) : Action Bool := do
  match (← get).metatableOf (← valueAt i) with
  | some mt =>
    push (.table mt)
    return true
  | none => return false

/-- Pushes a field of a value's metatable, if it is there. -/
def runGetMetafield (i : Int) (name : String) : Action Bool := do
  match (← get).metafieldOf (← valueAt i) name with
  | .nil => return false
  | v =>
    push v
    return true

/-- What the host sees of the userdata at a position. -/
def userdataView (i : Int) : Action (Option UserdataView) := do
  match ← valueAt i with
  | .userdata u =>
    match (← get).userdata.get? u.index with
    | some cell =>
      let payload :=
        match cell.payload with
        | .integer n => some n
        | _ => none
      return some ⟨payload, cell.finalized, cell.metatable.isSome⟩
    | none => return none
  | _ => return none

/-- Primitive equality of two slots of the frame; false for positions outside it. -/
def Machine.rawEqualAt (m : Machine) (i j : Int) : Bool :=
  (m.slot? i).isSome && (m.slot? j).isSome && (m.value i).rawEqual (m.value j)

/-! ## Arithmetic and texts -/

def Arithmetic.apply (op : Arithmetic) (a b : Number) : Number :=
  match op with
  | add => a.add b
  | sub => a.sub b
  | mul => a.mul b
  | div => a.div b

/-- The number at a position; zero if there is none. -/
def Machine.operand (m : Machine) (i : Int) : Number := (m.value i).toNumber?.getD Number.zero

/-- A part of a concatenation: a text, or the text at a position. -/
def Machine.part (m : Machine) : String ⊕ Int → String
  | .inl s => s
  | .inr i => (m.value i).toText?.getD ""

/-! ## Names of the host -/

def keep (name : String) (v : Value) : Action Unit := do
  let old := (← get).kept.get? name
  modify fun w => { w with kept := w.kept.insert name v }
  discard ((old.map Value.refs).getD [])

def unkeep (name : String) : Action Unit := do
  let old := (← get).kept.get? name
  modify fun w => { w with kept := w.kept.erase name }
  discard ((old.map Value.refs).getD [])

def setVariable (name : String) (v : HostValue) : Action Unit := do
  let old := (← get).bindings.get? name
  modify fun w => { w with bindings := w.bindings.insert name v }
  discard ((old.map HostValue.refs).getD [])

def dropVariable (name : String) : Action Unit := do
  let old := (← get).bindings.get? name
  modify fun w => { w with bindings := w.bindings.erase name }
  discard ((old.map HostValue.refs).getD [])

/-! ## Conversions -/

/-- Shows a converted value and lets go of it. -/
def showConverted (v : Option HostValue) (depth : Nat := defaultDepth) :
    Action (Option HostView) := do
  match v with
  | none => return none
  | some v =>
    let view ← showHost v depth
    discard v.refs
    return some view

/-- Converts a value to types given by their texts, in order. -/
def convertAll (v : Value) : List String → Action (List (String × Option HostView))
  | [] => return []
  | t :: rest => do
    let converted ← showConverted (← asType (HostType.parse t) v)
    return (t, converted) :: (← convertAll v rest)

/-- A table as a list of host values of an element type. -/
def showItems (element : HostType) (v : Value) : Action (Option (List HostView)) := do
  match ← tableToArray element v with
  | none => return none
  | some items =>
    let views ← items.mapM fun item => showHost item
    discard (items.flatMap HostValue.refs)
    return some views

/-! ## Matching -/

/-- Runs an action with parameters whose default values live as long as it runs. -/
def withParams {α : Type} (specs : List (List ParamSpec)) (x : List (List Param) → Action α) :
    Action α := do
  let params ← specs.mapM (·.mapM ParamSpec.build)
  let refs := params.flatten.flatMap Param.refs
  hold refs
  let result ← x params
  unhold refs
  return result

/-- The static method whose parameters are tried against a stack. -/
def matchTarget (params : List Param) (ret : HostType) : Method :=
  { name := "f", declaringType := "Match.Target", params, ret, isStatic := true
    body := some (.statements []) }

def pushAll : List Value → Action Unit
  | [] => return ()
  | v :: rest => do
    push v
    pushAll rest

/-- The replay of a plan over literals, which are on the stack meanwhile. -/
def replayOver (p : Plan) (literals : List Literal) : Action ReplayView := do
  let top := (← readMachine).top
  let values ← buildLiterals literals
  pushAll values
  let view ← showReplay (← p.replay values)
  setTop top
  return view

/-- Matches parameters with arguments and shows the plan. -/
def showMatch (params : List Param) (ret : HostType) (arguments : List Value)
    (again : Option (List Literal)) : Action (Option PlanView) := do
  let m := matchTarget params ret
  match ← matchParameters m arguments with
  | none => return none
  | some p =>
    let shown ← showReplay (← p.replay arguments)
    let oneMore ← showReplay (← p.replay (arguments ++ [.nil]))
    let again ← again.mapM (replayOver p)
    return some {
      method := m.describe
      argumentCount := p.argumentCount
      outs := p.outSlots
      isVoid := p.returnsVoid
      arguments := shown
      oneMore
      again }

/-- The first candidate that accepts the arguments, by its place in the list. -/
def resolveIndexed (arguments : List Value) :
    (i : Nat) → List (List Param) → Action (Option (Nat × List HostValue))
  | _, [] => return none
  | i, params :: rest => do
    match ← tryCandidate (matchTarget params .void) arguments with
    | some (_, converted) => return some (i, converted)
    | none => resolveIndexed arguments (i + 1) rest

/-- Resolves candidates and shows the arguments of the chosen one. -/
def showResolved (candidates : List (List Param)) (arguments : List Value) :
    Action (Option (Nat × List HostView)) := do
  match ← resolveIndexed arguments 0 candidates with
  | none => return none
  | some (i, converted) =>
    let views ← converted.mapM fun v => showHost v
    discard (converted.flatMap HostValue.refs)
    return some (i, views)

/-! ## One operation -/

def quiet (x : Script Unit) : Script Step := do
  x
  return .done

/-- Answers by an action that needs the session; without one the answer says so. -/
def inSessionOnly (x : Script Step) : Script Step := do
  if (← get).session?.isNone then
    return .answer (.exception (← showException (← newException noSession)))
  else x

/-- The outcome of a block inside an operation. -/
def stepOfBlock : Option Nat → Step
  | some n => .return n
  | none => .done

/-- Runs a block a number of times, until it returns. -/
def runLoop (E : Engine) (body : List Op) : Nat → Script Step
  | 0 => return .done
  | n + 1 => do
    match ← E.block body with
    | some k => return .return k
    | none => runLoop E body n

/-- The exception a value stands for, without popping it. -/
def runExceptionOf (E : Engine) (i : Int) : Script ExceptionView := do
  match ← attempt (exceptionOf E (← valueAt i)) with
  | .ok e => showException e
  | .error e => raiseFailure e

def Query.answer (q : Query) (m : Machine) : Report :=
  match q with
  | absIndex i => .int (m.absIndex i)
  | getTop => .int m.top
  | checkStack n => .bool (m.hasRoom n)
  | typeName i => .text (m.typeAt i).name
  | isNil i => .bool (m.typeAt i == .nil)
  | isNoneOrNil i => .bool (m.typeAt i == .nil || m.typeAt i == .none)
  | isNumber i => .bool (m.value i).toNumber?.isSome
  | isString i => .bool (m.typeAt i == .text || m.typeAt i == .number)
  | toBoolean i => .bool (m.value i).isTruthy
  | toNumber i => .number (m.value i).toNumber?
  | toText i => .text (m.value i).toText?
  | rawEqual i j => .bool (m.rawEqualAt i j)
  | callDepth => .int m.frames.length
  | pendingFinalizers => .int m.graveyard.length
  | appData =>
    match m.appData with
    | .text s => .appData (some s)
    | _ => .appData none

/-- Runs an operation of the session. -/
def runHostOp (op : HostOp) : Script Step := do
  match op with
  | .pushHost l =>
    let v ← l.build
    pushHost v
    discard v.refs
    return .done
  | .pushType className =>
    pushType (← classNamed className)
    return .done
  | .toHost i =>
    let view ← showConverted (some (← toHost (← valueAt i)))
    return .answer (.host (view.getD .null))
  | .save name i =>
    let v ← toHost (← valueAt i)
    setVariable name v
    return .answer (.host (← showHost v 1))
  | .dropVariable name => quiet (dropVariable name)
  | .checkType i t =>
    let c ← checkType t (← valueAt i)
    return .answer (.conversion (c.map Conversion.view))
  | .extract i t =>
    let c := t.conversion
    let v ← showConverted (← c.extract (← valueAt i))
    return .answer (.extraction c.view v)
  | .asType i t =>
    return .answer (.hostOrNothing (← showConverted (← asType t (← valueAt i))))
  | .convertAll i types =>
    return .answer (.conversions (← convertAll (← valueAt i) types))
  | .tableToArray i element => return .answer (.items (← showItems element (← valueAt i)))
  | .hostObject i =>
    match ← objectBehind? (← valueAt i) with
    | some o => return .answer (.object (some (← showObject o defaultDepth)))
    | none => return .answer (.object none)
  | .isInstance i t =>
    let w ← get
    let fits := (w.objectBehind? (← valueAt i)).bind fun ref => do
      let o ← w.objects.get? ref.index
      let s ← w.session?
      return s.catalog.fits o t
    return .answer (.boolOrNothing fits)
  | .collectReleased => return .answer (.int (← collectReleased))
  | .exposedCount => return .answer (.int (← readSession).registry.size)
  | .registryConsistent => return .answer (.bool ((← readSession).registry.isConsistent ObjectRef.index))
  | .pendingEvents => return .answer (.int (← readSession).events.length)
  | .matchCall params ret first again =>
    let arguments := (← readMachine).valuesFrom first
    let view ← withParams [params] fun built =>
      showMatch built.flatten ret arguments again
    return .answer (.plan view)
  | .resolve candidates first =>
    let arguments := (← readMachine).valuesFrom first
    let found ← withParams candidates fun built => showResolved built arguments
    return .answer (.resolved found)

/-- Runs an operation. -/
def runOp (E : Engine) (op : Op) : Script Step := do
  match op with
  | .push values => quiet do pushAll (← buildLiterals values)
  | .newTable => quiet do push (.table (← newTable {}))
  | .pushFunction label body => quiet do
    push (.function (← newFunction ⟨label, .script body⟩))
  | .setTop n => quiet (setTop n)
  | .pop n => quiet (pop n)
  | .remove i => quiet (onStack (·.remove i))
  | .insert i => quiet (modifyMachine (·.insert i))
  | .replace i => quiet (onStack (·.replace i))
  | .copy i => quiet do push (← valueAt i)
  | .rawGet i => quiet (runRawGet i)
  | .rawGetField i name => quiet do push (← rawGetField (← tableAt i) name)
  | .rawGetInt i n => quiet do push (← rawGetInt (← tableAt i) n)
  | .rawSet i => quiet (runRawSet i)
  | .rawSetField i name => quiet do
    let t ← tableAt i
    rawSetField t name (← popValue)
  | .rawSetInt i n => quiet do
    let t ← tableAt i
    rawSetInt t n (← popValue)
  | .getTable i => quiet (runGetTable E i)
  | .getField i name => quiet do push (← index E (← valueAt i) (.text name))
  | .setTable i => quiet (runSetTable E i)
  | .setField i name => quiet do
    let object ← valueAt i
    assign E object (.text name) (← popValue)
  | .getGlobal name => quiet do push (← getGlobal E name)
  | .setGlobal name => quiet (setGlobal E name)
  | .pushGlobals => quiet do push (.table (← readMachine).globals)
  | .pushRegistry => quiet do push (.table (← readMachine).registry)
  | .setMetatable i => quiet (setMetatable i)
  | .newUserdata n => quiet do
    push (.userdata (← newUserdata (.integer n) none))
  | .call nargs nresults => quiet (call E nargs nresults)
  | .pushRef r => quiet do push (← readRef r)
  | .releaseRef r => quiet (releaseRef r)
  | .keep name i => quiet do keep name (← valueAt i)
  | .unkeep name => quiet (unkeep name)
  | .setAppText s => quiet (modifyMachine ({ · with appData := .text s }))
  | .popValue =>
    let v ← popValue
    let view ← showValue v
    discard v.refs
    return .answer (.value view)
  | .value i => return .answer (.value (← showValue (← valueAt i)))
  | .dump i => return .answer (.value ((← get).deepView 5 (← valueAt i)))
  | .userdata i => return .answer (.userdata (← userdataView i))
  | .rawLength i => return .answer (.int (← rawLength (← valueAt i)))
  | .next i => return .answer (.bool (← runNext i))
  | .getMetatable i => return .answer (.bool (← runGetMetatable i))
  | .getMetafield i name => return .answer (.bool (← runGetMetafield i name))
  | .protectedCall nargs nresults =>
    return .answer (.status (← protectedCall E nargs nresults))
  | .location level => return .answer (.text (← location level))
  | .describe i => return .answer (.text (← textOf E (← valueAt i)))
  | .createRef => return .answer (.int (← createRef (← popValue)))
  | .collect => return .answer (.int (← collect E))
  | .raise => throw (.runtime (← popValue))
  | .raiseOverflow => throw .stackOverflow
  | .runtimeError message => raiseAt 1 message
  | .errorAt level message => raiseAt level message
  | .raiseHost spec => raiseException (← spec.build)
  | .return n => return .return n
  | .arithmetic op i j => quiet do
    let m ← readMachine
    push (.number (op.apply (m.operand i) (m.operand j)))
  | .concat parts => quiet do
    let m ← readMachine
    push (.text (String.join (parts.map m.part)))
  | .branch i yes no =>
    return stepOfBlock (← E.block (if (← valueAt i).isTruthy then yes else no))
  | .loop n body => runLoop E body n
  | .exceptionOf i => return .answer (.exception (← runExceptionOf E i))
  | .query q => return .answer (q.answer (← readMachine))
  | .host op => inSessionOnly (runHostOp op)

/-- Runs an operation, and looks at what it let go of. -/
def performOp (E : Engine) (op : Op) : Script Step := do
  match ← attempt (runOp E op) with
  | .ok s =>
    settle
    return s
  | .error e =>
    settleBeside e.refs
    throw e

/-! ## Blocks and functions -/

def addTrace (r : Report) : Action Unit := modify fun w => { w with trace := w.trace.push r }

/-- Runs operations up to the first that returns; answers go to the trace. -/
def runBlock (E : Engine) : List Op → Script (Option Nat)
  | [] => return none
  | op :: rest => do
    match ← performOp E op with
    | .done => runBlock E rest
    | .answer r =>
      addTrace r
      runBlock E rest
    | .return n => return some n

/-- Runs the body of a function in its frame; gives the number of its results. -/
def runFunction (E : Engine) (f : FunctionRef) : Script Nat := do
  match (← get).functions.get? f.index with
  | none => return 0
  | some ⟨_, .script body⟩ => return (← E.block body).getD 0
  | some ⟨_, .dispatcher d⟩ => dispatch E d
  | some ⟨_, .handler h⟩ => h.run E

/-! ## The engine -/

namespace Engine

/-- Runs nothing. -/
def exhausted : Engine where
  run _ := throw .exhausted
  block _ := throw .exhausted
  invoke _ _ _ arguments := return (.error .exhausted, arguments)
  statements _ := throw .exhausted
  eval _ := throw .exhausted

/-- The engine that nests to a depth. -/
def ofDepth : Nat → Engine
  | 0 => exhausted
  | depth + 1 =>
    { run := fun f w => runFunction (ofDepth depth) f w
      block := fun ops w => runBlock (ofDepth depth) ops w
      invoke := fun m cls target arguments w => m.invoke (ofDepth depth) cls target arguments w
      statements := fun body w => runStatements (ofDepth depth) body w
      eval := fun e w => e.run (ofDepth depth) w }

/-- Bound on the nesting of programs, far above what the limit on calls lets a script reach. -/
def nestingLimit : Nat := 1000000000

/-- The engine of machines. -/
def standard : Engine := ofDepth nestingLimit

end Engine

end ScriptBridge
