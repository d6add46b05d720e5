import ScriptBridge.Memory.Reclaim

/-!
# The value stack

Positions count from one at the base of the running frame, or down from the top when negative.
The operations on a machine are functions to the machine after and the values let go of, lowest
first; `onStack` runs one of them as an action.
-/

namespace ScriptBridge

namespace Machine

/-! ## Positions -/

/-- The first slot of the running frame. -/
def base (m : Machine) : Nat := (m.frames.head?.map (·.base)).getD 0

/-- The number of slots in the running frame. -/
def top (m : Machine) : Nat := m.stack.size - m.base

/-- The slot at a position, if it lies in the frame. -/
def slot? (m : Machine) (i : Int) : Option Nat :=
  if 0 < i then
    let p := m.base + i.toNat - 1
    if p < m.stack.size then some p else none
  else if i < 0 then
    let back := (-i).toNat
    if back ≤ m.stack.size && m.base ≤ m.stack.size - back then some (m.stack.size - back)
    else none
  else none

/-- The position from the base for a position from the top. -/
def absIndex (m : Machine) (i : Int) : Int := if i < 0 then m.top + i + 1 else i

/-- The value at a position; nil outside the frame. -/
def value (m : Machine) (i : Int) : Value :=
  match m.slot? i with
  | some p => m.stack.getD p .nil
  | none => .nil

def typeAt (m : Machine) (i : Int) : ValueType :=
  match m.slot? i with
  | some p => (m.stack.getD p .nil).type
  | none => .none

/-- The values of the frame from a position to the top. -/
def valuesFrom (m : Machine) (first : Int) : List Value :=
  (List.range ((m.top : Int) - first + 1).toNat).map fun (k : Nat) => m.value (first + k)

def hasRoom (m : Machine) (n : Int) : Bool := m.stack.size + n ≤ m.limits.maxStack

/-! ## Changes -/

def push (m : Machine) (v : Value) : Machine := { m with stack := m.stack.push v }

/-- Cuts the stack to a number of slots. -/
def truncate (m : Machine) (n : Nat) : Machine × List Value :=
  ({ m with stack := m.stack.take n }, (m.stack.toList.drop n))

/-- Cuts the stack or fills it up with nil. -/
def resize (m : Machine) (n : Nat) : Machine × List Value :=
  if n ≤ m.stack.size then m.truncate n
  else ({ m with stack := m.stack ++ Array.replicate (n - m.stack.size) .nil }, [])

/-- Gives the frame a number of slots; a negative number is a position from the top. -/
def setTop (m : Machine) (n : Int) : Machine × List Value :=
  m.resize (m.base + if n < 0 then (m.top + n + 1).toNat else n.toNat)

def pop (m : Machine) (n : Int) : Machine × List Value := m.setTop (-n - 1)

def remove (m : Machine) (i : Int) : Machine × List Value :=
  match m.slot? i with
  | some p => ({ m with stack := m.stack.eraseIdxIfInBounds p }, [m.stack.getD p .nil])
  | none => (m, [])

/-- Moves the top value to a position. -/
def insert (m : Machine) (i : Int) : Machine :=
  match m.slot? i, m.stack.back? with
  | some p, some v => { m with stack := m.stack.pop.insertIdxIfInBounds p v }
  | _, _ => m

/-- Moves the top value over the one at a position. -/
def replace (m : Machine) (i : Int) : Machine × List Value :=
  match m.slot? i, m.stack.back? with
  | some p, some v => ({ m with stack := m.stack.pop.setIfInBounds p v }, [m.stack.getD p .nil])
  | _, _ => (m, [])

/-- Takes the top value of the frame; nil when the frame is empty. -/
def popValue (m : Machine) : Value × Machine :=
  if m.base < m.stack.size then (m.stack.back?.getD .nil, { m with stack := m.stack.pop })
  else (.nil, m)

end Machine

/-! ## Actions on the stack -/

def readMachine : Action Machine := do return (← get).machine

/-- Changes the stack and lets go of what the change dropped. -/
def onStack (f : Machine → Machine × List Value) : Action Unit := do
  let dropped ← modifyGet fun w =>
    let (m, vs) := f w.machine
    (vs, { w with machine := m })
  release (dropped.flatMap Value.refs)

def push (v : Value) : Action Unit := modifyMachine (·.push v)

def setTop (n : Int) : Action Unit := onStack (·.setTop n)

def pop (n : Int) : Action Unit := onStack (·.pop n)

/-- Takes the top value; whoever takes it lets go of it. -/
def popValue : Action Value := modifyGet fun w =>
  let (v, m) := w.machine.popValue
  (v, { w with machine := m })

def valueAt (i : Int) : Action Value := do return (← readMachine).value i

/-! ## Errors -/

namespace Machine

/-- The location of the call `level` levels below the running one; empty unless that is a script
function. -/
def location (m : Machine) (functions : Store Function) (level : Nat) : String :=
  match m.frames[level]? with
  | some ⟨_, some f⟩ =>
    match functions.get? f.index with
    | some ⟨.chunk s, _⟩ => s ++ ": "
    | _ => ""
  | _ => ""

end Machine

def location (level : Nat) : Action String := do
  let w ← get
  return w.machine.location w.functions level

/-- Raises a message. -/
def raiseMessage {α : Type} (message : String) : Script α := throw (.runtime (.text message))

/-- Raises a message behind the location of a call. -/
def raiseAt {α : Type} (level : Nat) (message : String) : Script α := do
  raiseMessage ((← location level) ++ message)

/-- What a raise holds. -/
def Raise.refs : Raise → List Ref
  | .runtime v => v.refs
  | _ => []

/-- The text of a stack overflow. -/
def overflowText : String := "stack overflow"

/-- The value of an error, if it has one. -/
def Raise.value? : Raise → Option Value
  | .runtime v => some v
  | _ => none

/-- The value a protected call leaves for an error. -/
def Raise.toValue (e : Raise) : Value := e.value?.getD (.text overflowText)

/-- Looks at all notes while some references are on their way elsewhere. -/
def settleBeside (refs : List Ref) : Action Unit := modify fun w =>
  { ({ w with held := refs ++ w.held }).settle with held := w.held }

end ScriptBridge
