import ScriptBridge.Bridge.Matching

/-!
# Calls of scripts by the host

A delegate made from a function calls it with the input and reference arguments in declaration
order; an interface made from a table calls the table's field of the method's name with the table
before them. The first result is the return value, unless there is none, and the following ones
are the outputs in order. Results that are missing give the default of their type.
-/

namespace ScriptBridge

/-- The result of a host call of a script, with the arguments afterwards. -/
abbrev CallOutcome := Except Failure HostValue × List HostValue

/-- Pushes the arguments that go in and gives their number. -/
def pushInputs : List Param → List HostValue → Action Nat
  | p :: params, v :: arguments => do
    if p.mode == .output then pushInputs params arguments
    else
      pushHost v
      return (← pushInputs params arguments) + 1
  | _, _ => return 0

/-! ## Results -/

/-- A result read as a type; `none` stands for a result that is missing. -/
def convertResult (t : HostType) : Option Value → Host HostValue
  | none => return t.defaultValue
  | some v => do
    match ← asType t v with
    | some converted => return converted
    | none => throwCause (.typeMismatch t.name v.typeName)

/-- Replaces one argument and lets go of the old one. -/
def replaceArgument (arguments : List HostValue) (i : Nat) (v : HostValue) :
    Action (List HostValue) := do
  discard ((arguments[i]?.map HostValue.refs).getD [])
  return arguments.set i v

/-- Fills the outputs from the results, one after the other. A result that does not convert ends
it; the arguments keep what was filled before. -/
def readOutputs : List Param → (i : Nat) → List Value → List HostValue →
    Action (Except Failure Unit × List HostValue)
  | [], _, _, arguments => return (.ok (), arguments)
  | p :: params, i, results, arguments => do
    if p.mode == .input then readOutputs params (i + 1) results arguments
    else if i < arguments.length then
      match ← attempt (convertResult p.type results.head?) with
      | .ok v =>
        readOutputs params (i + 1) results.tail (← replaceArgument arguments i v)
      | .error e => return (.error e, arguments)
    else readOutputs params (i + 1) results.tail arguments

/-- Reads all results of a call of a method. -/
def readResults (m : Method) (results : List Value) (arguments : List HostValue) :
    Action CallOutcome := do
  let (ret, results) ←
    if m.ret == .void then pure (.ok .null, results)
    else
      let ret ← attempt (convertResult m.ret results.head?)
      pure (ret, results.tail)
  match ret with
  | .error e => return (.error e, arguments)
  | .ok ret =>
    match ← readOutputs m.params 0 results arguments with
    | (.ok (), arguments) => return (.ok ret, arguments)
    | (.error e, arguments) =>
      discard ret.refs
      return (.error e, arguments)

/-! ## Calls -/

/-- Cuts the frame to `top` slots while some host values are on their way elsewhere. -/
def leaveFrame (top : Nat) (arguments : List HostValue) (result : Except Failure HostValue) :
    Action Unit := do
  let refs := arguments.flatMap HostValue.refs ++
    match result with
    | .ok v => v.refs
    | .error _ => []
  hold refs
  setTop top
  handOver refs

/-- Runs the prepared call of a method and reads its results. -/
def finishCall (E : Engine) (m : Method) (arguments : List HostValue) (top nargs : Nat) :
    Action CallOutcome := do
  match ← attempt (protectedCall E nargs (-1)) with
  | .error _ => return (.error .exhausted, arguments)
  | .ok .ok =>
    let results := (← readMachine).valuesFrom (top + 1)
    let (outcome, arguments) ← readResults m results arguments
    leaveFrame top arguments outcome
    return (outcome, arguments)
  | .ok _ =>
    let v ← popValue
    hold v.refs
    setTop top
    let e ← attempt (exceptionOf E v)
    unhold v.refs
    settle
    match e with
    | .ok e => return (.error (.exception e), arguments)
    | .error e => return (.error e, arguments)

def failedCall (cause : Cause) (arguments : List HostValue) : Action CallOutcome := do
  return (.error (.exception (← newException cause)), arguments)

/-- Calls a script function with the arguments of a method. -/
def callFunction (E : Engine) (function : HandleRef) (m : Method) (arguments : List HostValue) :
    Action CallOutcome := do
  if (← get).session?.isNone then return ← failedCall noSession arguments
  let top := (← readMachine).top
  pushHandle function
  let n ← pushInputs m.params arguments
  finishCall E m arguments top n

/-- Calls the field of a table that has the method's name, with the table as first argument.
Without such a function the result is the default of the return type. -/
def callTableMethod (E : Engine) (table : HandleRef) (m : Method) (arguments : List HostValue) :
    Action CallOutcome := do
  if (← get).session?.isNone then return ← failedCall noSession arguments
  let top := (← readMachine).top
  let self ← handleValue table
  push self
  match ← attempt (index E self (.text m.name)) with
  | .error e =>
    hold e.refs
    setTop top
    let e' ← attempt (exceptionOfRaise E e)
    unhold e.refs
    settle
    match e' with
    | .ok e => return (.error (.exception e), arguments)
    | .error e => return (.error e, arguments)
  | .ok f =>
    push f
    if f.type == .function then
      modifyMachine (·.insert (-2))
      let n ← pushInputs m.params arguments
      finishCall E m arguments top (n + 1)
    else
      setTop top
      return (.ok m.ret.defaultValue, arguments)

end ScriptBridge
