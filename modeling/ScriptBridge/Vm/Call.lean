import ScriptBridge.Vm.Access

/-!
# Calls

A call replaces a function and its arguments by results. The callee runs in a frame of its own;
when it is done, or raises, the frame goes and the stack is cut at the callee's slot. What a
function body does is the business of an `Engine`, which every operation that can run one takes
as a parameter.
-/

namespace ScriptBridge

/-- What running programs needs: bodies of functions, blocks of operations, methods of the host,
and statements and expressions of host bodies. -/
structure Engine where
  /-- Runs the body of a function in its frame; gives the number of its results. -/
  run : FunctionRef → Script Nat
  /-- Runs operations; gives the number of results if they return. -/
  block : List Op → Script (Option Nat)
  /-- Runs a method; gives its outcome and the arguments afterwards. -/
  invoke : Method → Class → Option ObjectRef → List HostValue →
    Action (Except Failure HostValue × List HostValue)
  /-- Runs statements; gives the value if they return. -/
  statements : List Stmt → Host (Option HostValue)
  eval : Expr → Host HostValue

/-! ## Frames -/

def Machine.pushFrame (m : Machine) (f : Frame) : Machine := { m with frames := f :: m.frames }

def Machine.popFrame (m : Machine) : Machine := { m with frames := m.frames.tail }

/-- Whether one more call would be too deep. -/
def Machine.isTooDeep (m : Machine) : Bool := m.limits.maxCallDepth < m.frames.length

/-- Replaces everything from a slot on by the last `n` values, and these by exactly `wanted` of
them if that is not negative. -/
def Machine.returnResults (m : Machine) (pos n : Nat) (wanted : Int) : Machine × List Value :=
  let available := m.stack.size - (pos + 1)
  let n := min n available
  let results := m.stack.extract (m.stack.size - n) m.stack.size
  let (m, dropped) := { m with stack := m.stack.take (m.stack.size - n) }.truncate pos
  let m := { m with stack := m.stack ++ results }
  if 0 ≤ wanted then
    let (m, surplus) := m.resize (pos + wanted.toNat)
    (m, dropped ++ surplus)
  else (m, dropped)

/-! ## Calling -/

/-- The slot of the callee below `nargs` arguments, if the frame holds it. -/
def Machine.calleeSlot? (m : Machine) (nargs : Nat) : Option Nat :=
  if nargs + 1 ≤ m.stack.size && m.base ≤ m.stack.size - (nargs + 1) then
    some (m.stack.size - (nargs + 1))
  else none

/-- Cuts the stack without looking at the notes yet. Further references, which outlive those of
the stack, are let go of after them. -/
def cut (pos : Nat) (outliving : List Ref := []) : Action Unit := do
  let dropped ← modifyGet fun w =>
    let (m, vs) := w.machine.truncate pos
    (vs, { w with machine := m })
  discard (dropped.flatMap Value.refs ++ outliving)

/-- The function a callee stands for: itself, or the `__call` handler of its metatable, which is
put below it. -/
def calleeAt (pos : Nat) : Script FunctionRef := do
  let w ← get
  match w.machine.stack.getD pos .nil with
  | .function f => return f
  | callee =>
    match w.metafieldOf callee "__call" with
    | .function f =>
      modifyMachine fun m => { m with stack := m.stack.insertIdxIfInBounds pos (.function f) }
      return f
    | _ =>
      cut pos callee.refs
      settle
      raiseAt 0 ("attempt to call a " ++ callee.typeName ++ " value")

/-- Calls the function below the top `nargs` values and leaves `nresults` results in their place,
or all of them if that is negative. -/
def call (E : Engine) (nargs nresults : Int) : Script Unit := do
  let some pos := (← readMachine).calleeSlot? nargs.toNat
    | raiseMessage "not enough values on the stack for call"
  let f ← calleeAt pos
  if (← readMachine).isTooDeep then
    cut pos [.function f]
    settle
    throw .stackOverflow
  modifyMachine (·.pushFrame ⟨pos + 1, some f⟩)
  let outcome ← attempt (E.run f)
  modifyMachine Machine.popFrame
  match outcome with
  | .ok n =>
    let dropped ← modifyGet fun w =>
      let (m, vs) := w.machine.returnResults pos n nresults
      (vs, { w with machine := m })
    release (dropped.flatMap Value.refs ++ [.function f])
  | .error e =>
    cut pos [.function f]
    settleBeside e.refs
    throw e

/-- A call that catches errors: an error value is left in place of the function and its
arguments. -/
def protectedCall (E : Engine) (nargs nresults : Int) : Script Status := do
  let pos := (← readMachine).stack.size - (nargs.toNat + 1)
  match ← attempt (call E nargs nresults) with
  | .ok () => return .ok
  | .error .exhausted => throw .exhausted
  | .error (.runtime v) =>
    cut (max pos (← readMachine).base)
    settleBeside v.refs
    push v
    return .runtimeError
  | .error .stackOverflow =>
    cut (max pos (← readMachine).base)
    settle
    push (.text overflowText)
    return .stackOverflow

/-! ## Access with metamethods -/

/-- Reads a key of a value, with `__index`. -/
def index (E : Engine) (object key : Value) : Script Value := do
  match (← get).lookUp key World.chainLimit object with
  | .value v => return v
  | .handler h self =>
    push h
    push self
    push key
    call E 2 1
    popValue
  | .notIndexable v => raiseAt 0 ("attempt to index a " ++ v.typeName ++ " value")
  | .tooLong => raiseAt 0 "'__index' chain too long; possible loop"

/-- Assigns a key of a value, with `__newindex`. -/
def assign (E : Engine) (object key value : Value) : Script Unit := do
  match (← get).findTarget key World.chainLimit object with
  | .table t => rawSet t key value
  | .handler h self =>
    push h
    push self
    push key
    push value
    call E 3 0
  | .notIndexable v =>
    discard (value.refs ++ key.refs)
    raiseAt 0 ("attempt to index a " ++ v.typeName ++ " value")
  | .tooLong =>
    discard (value.refs ++ key.refs)
    raiseAt 0 "'__newindex' chain too long; possible loop"

/-- The text of a value, with `__tostring`. -/
def textOf (E : Engine) (v : Value) : Script String := do
  match (← get).metafieldOf v "__tostring" with
  | .function f =>
    push (.function f)
    push v
    call E 1 1
    match ← popValue with
    | .text s => return s
    | other =>
      discard other.refs
      raiseMessage "'__tostring' must return a string"
  | _ => return v.display

/-! ## Globals -/

def globalsTable : Action Value := do return .table (← readMachine).globals

/-- Reads a global. -/
def getGlobal (E : Engine) (name : String) : Script Value := do
  index E (← globalsTable) (.text name)

/-- Pops a value into a global. -/
def setGlobal (E : Engine) (name : String) : Script Unit := do
  let v ← popValue
  assign E (← globalsTable) (.text name) v

end ScriptBridge
