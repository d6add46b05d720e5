import ScriptBridge.Vm.Stack

/-!
# Metatables and raw access

Reading metatables and their fields, and table access without metamethods. The walk along
`__index` or `__newindex` is a function of the world: it ends at a value, at a table to write, at
a handler function to call, or with an error, and it visits at most a hundred values.
-/

namespace ScriptBridge

namespace World

def metatableOf (w : World) : Value → Option TableRef
  | .table t => (w.table t).metatable
  | .userdata u => (w.userdata.get? u.index).bind (·.metatable)
  | _ => none

/-- A field of a value's metatable; nil without one. -/
def metafieldOf (w : World) (v : Value) (name : String) : Value :=
  match w.metatableOf v with
  | some mt => w.fieldOf mt name
  | none => .nil

/-! ## Chains of metatables -/

/-- Bound on the values a walk visits. -/
def chainLimit : Nat := 100

/-- Where a read ends. -/
inductive Read where
  | value (v : Value)
  /-- A handler, to be called with the value it was found at and the key. -/
  | handler (h self : Value)
  | notIndexable (v : Value)
  | tooLong

/-- Reads a key along `__index`. -/
def lookUp (w : World) (key : Value) : Nat → Value → Read
  | 0, _ => .tooLong
  | fuel + 1, current =>
    let found :=
      match current with
      | .table t => (w.table t).get w.isLive key
      | _ => .nil
    if !found.isNil then .value found
    else
      match w.metafieldOf current "__index", current with
      | .nil, .table _ => .value .nil
      | .nil, _ => .notIndexable current
      | .function f, _ => .handler (.function f) current
      | next, _ => lookUp w key fuel next

/-- Where a write ends. -/
inductive Write where
  | table (t : TableRef)
  | handler (h self : Value)
  | notIndexable (v : Value)
  | tooLong

/-- Finds the table to write a key into along `__newindex`. -/
def findTarget (w : World) (key : Value) : Nat → Value → Write
  | 0, _ => .tooLong
  | fuel + 1, current =>
    let present :=
      match current with
      | .table t => !((w.table t).get w.isLive key).isNil
      | _ => false
    match present, w.metafieldOf current "__newindex", current with
    | true, _, .table t => .table t
    | _, .nil, .table t => .table t
    | _, .nil, _ => .notIndexable current
    | _, .function f, _ => .handler (.function f) current
    | _, next, _ => findTarget w key fuel next

end World

/-! ## Raw access -/

/-- The table at a position. -/
def tableAt (i : Int) : Script TableRef := do
  match ← valueAt i with
  | .table t => return t
  | v => raiseMessage ("table expected, got " ++ v.typeName)

def setTable (t : TableRef) (table : Table) : Action Unit := modify fun w =>
  { w with tables := w.tables.modify t.index fun _ => table }

/-- Puts a changed table in place and lets go of what the write dropped. -/
def writeTable (t : TableRef) (change : Table × List Value) : Action Unit := do
  setTable t change.1
  discard (change.2.flatMap Value.refs) (some t)

def rawGet (t : TableRef) (key : Value) : Action Value := do
  let w ← get
  return (w.table t).get w.isLive key

def rawGetInt (t : TableRef) (n : Int) : Action Value := do
  let w ← get
  return (w.table t).getInt w.isLive n

def rawGetField (t : TableRef) (name : String) : Action Value := do
  return (← get).fieldOf t name

/-- Writes an entry. -/
def rawSet (t : TableRef) (key value : Value) : Script Unit := do
  match ((← get).table t).set key value with
  | .ok change =>
    writeTable t change
    discard (key.refs ++ value.refs) (some t)
  | .error e =>
    discard value.refs (some t)
    raiseMessage e.message

def rawSetField (t : TableRef) (name : String) (value : Value) : Action Unit := do
  writeTable t (((← get).table t).setText name value)
  discard value.refs (some t)

def rawSetInt (t : TableRef) (n : Int) (value : Value) : Action Unit := do
  writeTable t (((← get).table t).setInt n value)
  discard value.refs (some t)

def rawLength (v : Value) : Action Nat := do
  match v with
  | .table t =>
    let w ← get
    return (w.table t).length w.isLive
  | .text s => return s.utf8ByteSize
  | _ => return 0

/-! ## Metatables -/

/-- Gives a table another metatable. A table that becomes its own metatable does not see its own
mode. -/
def setTableMetatable (t : TableRef) (metatable : Option TableRef) : Action Unit := do
  let w ← get
  let mode :=
    match metatable with
    | some mt => if mt == t then .nil else w.fieldOf mt "__mode"
    | none => .nil
  let table := w.table t
  setTable t (table.setMetatable metatable mode)
  discard (table.metatable.map Ref.table).toList (some t)

def setUserdataMetatable (u : UserdataRef) (metatable : Option TableRef) : Action Unit := do
  let old := ((← get).userdata.get? u.index).bind (·.metatable)
  modify fun w => { w with userdata := w.userdata.modify u.index ({ · with metatable }) }
  discard (old.map Ref.table).toList

/-- Pops a table or nil and makes it the metatable of the value at a position. -/
def setMetatable (i : Int) : Script Unit := do
  let target ← valueAt i
  let v ← popValue
  let metatable ←
    match v with
    | .table t => pure (some t)
    | .nil => pure none
    | _ =>
      discard (v.refs ++ target.refs)
      raiseMessage "metatable must be a table or nil"
  match target with
  | .table t => setTableMetatable t metatable
  | .userdata u => setUserdataMetatable u metatable
  | _ =>
    discard v.refs
    raiseMessage ("cannot set the metatable of a " ++ target.typeName ++ " value")
  discard (v.refs ++ target.refs)

end ScriptBridge
