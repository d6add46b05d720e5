import ScriptBridge.Bridge.Storage

/-!
# Building literals

Each time a literal is reached its tables, functions and objects are made anew.
-/

namespace ScriptBridge

/-! ## Values of the machine -/

/-- Writes the items of a list under 1, 2, …; a nil item is passed over. -/
def writeItems (t : TableRef) : Nat → List Value → Action Unit
  | _, [] => return ()
  | i, v :: rest => do
    if !v.isNil then rawSetInt t i v
    writeItems t (i + 1) rest

/-- Writes entries in order; a key no table takes is passed over. -/
def writeEntries (t : TableRef) : List (Value × Value) → Action Unit
  | [] => return ()
  | (k, v) :: rest => do
    let _ ← attempt (rawSet t k v)
    writeEntries t rest

mutual

def Literal.build : Literal → Action Value
  | .nil => return .nil
  | .boolean b => return .boolean b
  | .number n => return .number n
  | .text s => return .text s
  | .kept name => return ((← get).kept.get? name).getD .nil
  | .table items entries => do
    let t ← newTable {}
    writeItems t 1 (← buildLiterals items)
    writeEntries t (← buildEntries entries)
    return .table t
  | .function label body => return .function (← newFunction ⟨label, .script body⟩)

def buildLiterals : List Literal → Action (List Value)
  | [] => return []
  | l :: rest => do
    let v ← l.build
    return v :: (← buildLiterals rest)

def buildEntries : List (Literal × Literal) → Action (List (Value × Value))
  | [] => return []
  | (k, v) :: rest => do
    let key ← k.build
    let value ← v.build
    return (key, value) :: (← buildEntries rest)

end

/-! ## Values of the host -/

/-- The class of a name; one that is not registered is a new empty class. -/
def classNamed (name : String) : Action Class := do
  return ((← readSession).catalog.find? name).getD { name }

mutual

def HostLiteral.build : HostLiteral → Action HostValue
  | .value v => return v
  | .variable name => return ((← get).bindings.get? name).getD .null
  | .object className slots => do
    let cls ← classNamed className
    let slots ← buildSlots slots
    return .object (← newObject cls (.bag { slots }))
  | .foreign className => return .object (← newObject (← classNamed className) .foreign)
  | .array element items => do
    let items ← buildHostLiterals items
    return .object (← newArray element items.toArray)
  | .typeObject className =>
    return .object (← newObject typeClass (.typeOf (← classNamed className)))
  | .delegate className body =>
    return .object (← newObject (← classNamed className) (.delegate (.statements body)))

def buildHostLiterals : List HostLiteral → Action (List HostValue)
  | [] => return []
  | l :: rest => do
    let v ← l.build
    return v :: (← buildHostLiterals rest)

def buildSlots : List (String × HostLiteral) → Action (Dictionary String HostValue)
  | [] => return []
  | (name, l) :: rest => do
    let v ← l.build
    return (name, v) :: (← buildSlots rest)

end

end ScriptBridge
