import ScriptBridge.Vm.Collect

/-!
# Exceptions across the boundary

An exception of the host travels through the machine as a userdata that carries it, so that the
very same instance comes out again. Any other error value becomes a script exception with its
text.
-/

namespace ScriptBridge

/-! ## Names in the registry table -/

def errorTableName : String := "moonlink.error"

def objectTableName : String := "moonlink.object"

def typeTableName : String := "moonlink.class"

def delegateTableName : String := "moonlink.function"

def proxiesName : String := "moonlink.objects"

/-- A table of the registry table by name. -/
def registryTable? (name : String) : Action (Option TableRef) := do
  let w ← get
  match w.fieldOf w.machine.registry name with
  | .table t => return some t
  | _ => return none

/-! ## Sessions -/

/-- The session attached to the running machine. -/
def World.session? (w : World) : Option Session :=
  if w.machine.appData == .session then w.machine.session else none

instance : Inhabited Session := ⟨{ id := 0, options := {}, adapters := .build, objects := ⟨0⟩ }⟩

/-- The session of the running machine, attached or not. -/
def readSession : Action Session := do return (← get).machine.session.getD default

def noSession : Cause := .invalidTarget "no marshaling session is attached to this VM"

/-! ## Into the machine -/

/-- Raises an exception inside the machine, with the location of the caller of the running
function. -/
def raiseException {α : Type} (e : Exception) : Script α := do
  let place ← location 1
  let u ← newUserdata (.error e place) (← registryTable? errorTableName)
  throw (.runtime (.userdata u))

/-- Raises a new exception instance inside the machine. -/
def raiseCause {α : Type} (cause : Cause) : Script α := do raiseException (← newException cause)

/-- Raises what host code failed with, without the layers around it. -/
def raiseFailure {α : Type} : Failure → Script α
  | .exception e => raiseException e.innermost
  | .exhausted => throw .exhausted

/-- Runs host code inside the machine; an exception is raised. -/
def asScript {α : Type} (x : Host α) : Script α := do
  match ← attempt x with
  | .ok a => return a
  | .error e => raiseFailure e

/-! ## Out of the machine -/

/-- Runs a script from host code and gives what it raised. -/
def tryScript {α : Type} (x : Script α) : Host (Except Raise α) := do
  match ← attempt x with
  | .error .exhausted => throw .exhausted
  | outcome => return outcome

/-- The exception an error value carries. -/
def World.carriedException? (w : World) : Value → Option Exception
  | .userdata u =>
    match w.userdata.get? u.index with
    | some ⟨.error e _, _, _, _⟩ => some e
    | _ => none
  | _ => none

/-- The text of a value, or how it is displayed if its `__tostring` fails. -/
def textOrDisplay (E : Engine) (v : Value) : Host String := do
  match ← tryScript (textOf E v) with
  | .ok s => return s
  | .error e =>
    discard e.refs
    return v.display

/-- The exception an error value stands for: the one it carries, or a script exception with its
text. A text has its location in it; any other value gets that of the caller of the running
function. -/
def exceptionOf (E : Engine) (v : Value) : Host Exception := do
  match (← get).carriedException? v with
  | some e => return e
  | none =>
    match v with
    | .text s => newException (.script s "")
    | _ =>
      let top := (← readMachine).top
      push v
      let text ← attempt (textOrDisplay E v)
      hold v.refs
      setTop top
      unhold v.refs
      match text with
      | .ok text => newException (.script text (← location 1))
      | .error e => throw e

/-- The exception for what a script raised. -/
def exceptionOfRaise (E : Engine) : Raise → Host Exception
  | .runtime v => exceptionOf E v
  | .stackOverflow => newException (.script overflowText "")
  | .exhausted => throw .exhausted

end ScriptBridge
