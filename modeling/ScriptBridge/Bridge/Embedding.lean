import ScriptBridge.Bridge.Describe
import ScriptBridge.Bridge.Session

/-!
# Using a session from the host

What host code does with the running session from outside: it names types for scripts, reads and
writes globals, calls functions, and wraps methods as functions of scripts. Errors of scripts
come back as exceptions, and every action leaves the stack as it found it.
-/

namespace ScriptBridge

/-- Throws what a script raised as an exception. -/
def throwRaise {α : Type} (E : Engine) (e : Raise) : Host α := do
  let e ← holding e.refs (exceptionOfRaise E e)
  throw (.exception e)

/-! ## Globals -/

/-- Pops a value into a global. -/
def popGlobal (E : Engine) (name : String) : Host Unit := do
  match ← tryScript (setGlobal E name) with
  | .ok () => return ()
  | .error e => throwRaise E e

def writeGlobal (E : Engine) (name : String) (v : HostValue) : Host Unit := do
  pushHost v
  popGlobal E name

def readGlobal (E : Engine) (name : String) : Host HostValue := do
  let top := (← readMachine).top
  match ← tryScript (getGlobal E name) with
  | .ok v =>
    push v
    let v ← toHost v
    leaveFrame top [] (.ok v)
    return v
  | .error e =>
    hold e.refs
    setTop top
    handOver e.refs
    throwRaise E e

/-- Binds the proxy of a class to a global of its short name. -/
def importClass (E : Engine) (name : String) : Host Unit := do
  match (← readSession).catalog.find? name with
  | some cls =>
    pushType cls
    popGlobal E cls.shortName
  | none => throwCause (.invalidTarget ("unknown type '" ++ name ++ "'"))

/-! ## Values -/

/-- The value at a position, by the general conversion or as a type. -/
def readAt (i : Int) : Option HostType → Host HostValue
  | none => do toHost (← valueAt i)
  | some t => convertSlot i t

/-- Calls a value and gives all results. -/
def callValue (E : Engine) (function : HostValue) (arguments : List HostValue) :
    Host (List HostValue) := do
  let top := (← readMachine).top
  pushHost function
  arguments.forM fun v => pushHost v
  match ← tryScript (protectedCall E arguments.length (-1)) with
  | .ok .ok =>
    let results ← ((← readMachine).valuesFrom (top + 1)).mapM fun v => toHost v
    leaveFrame top results (.ok .null)
    return results
  | _ =>
    let v ← popValue
    hold v.refs
    setTop top
    handOver v.refs
    throwRaise E (.runtime v)

/-- Calls a global and gives all results. -/
def callGlobal (E : Engine) (name : String) (arguments : List HostValue) :
    Host (List HostValue) := do
  let function ← readGlobal E name
  holding function.refs (callValue E function arguments)

/-! ## Methods -/

/-- A dispatcher over all methods of a name along the bases of a class: the instance methods bound
to a target, or else the static ones. -/
def bindMethod (cls : Class) (name : String) (target : Option ObjectRef) :
    Host DispatcherRef := do
  let candidates := (← readSession).catalog.methodsOf cls name target.isNone
  if candidates.isEmpty then throwCause (.memberNotFound cls.name name)
  let binding := if target.isSome then Binding.onObject else .static
  newDispatcher { name, cls, binding, candidates, bound := target }

/-- Makes a dispatcher a global function. -/
def registerFunction (E : Engine) (name : String) (ref : DispatcherRef) : Host Unit := do
  let d ← readDispatcher? ref
  push (.function (← functionOf ((d.map (·.name)).getD "") ref))
  popGlobal E name

/-! ## Finalizers -/

/-- Runs pending finalizers and releases what the host let go of; gives how many ran. -/
def collectGarbage (E : Engine) : Script Nat := do
  let n ← collect E
  let _ ← collectReleased
  return n

end ScriptBridge
