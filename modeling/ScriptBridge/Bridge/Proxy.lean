import ScriptBridge.Bridge.Dispatch
import ScriptBridge.Bridge.Member
import ScriptBridge.Bridge.Storage

/-!
# What scripts can do with proxies

Handlers of the metatables of proxies. An instance proxy gives members, array elements and
indexed items; a type proxy gives static members, makes arrays when indexed by a number, and runs
constructors when called; a delegate proxy can be called. Each handler finds its operands in the
slots of its own frame and leaves its results on top.
-/

namespace ScriptBridge

/-! ## Operands -/

/-- The object behind the first slot. -/
def selfObject : Host (ObjectRef × HostObject) := do
  match ← objectBehind? (← valueAt 1) with
  | some ref =>
    match ← readObject? ref with
    | some o => return (ref, o)
    | none => throwCause (.invalidTarget "proxy does not refer to a live native object")
  | none => throwCause (.invalidTarget "proxy does not refer to a live native object")

/-- The class a type proxy in the first slot stands for. -/
def selfType : Host Class := do
  let (_, o) ← selfObject
  match o.typeTarget? with
  | some cls => return cls
  | none => throwCause (.invalidTarget "not a type proxy")

/-- The name of the slot's value as a key: its text, or else the name of its type. -/
def keyName (i : Int) : Action String := do
  let m ← readMachine
  return (m.value i).toText?.getD (m.typeAt i).name

def memberNotFound {α : Type} (cls : Class) (name : String) : Host α :=
  throwCause (.memberNotFound cls.name name)

/-- The value of a slot as a type. -/
def convertSlot (i : Int) (t : HostType) : Host HostValue := do
  match ← asType t (← valueAt i) with
  | some v => return v
  | none => throwCause (.typeMismatch t.name ((← readMachine).typeAt i).name)

/-- The key in the second slot as a position of an array. -/
def arrayPosition (length : Nat) : Host Nat := do
  let position := ((← valueAt 2).toNumber?.bind Number.toInt?).filter fun (n : Int) =>
    decide (0 ≤ n ∧ n < (length : Int))
  match position with
  | some n => return n.toNat
  | none =>
    throwCause (.invalidTarget
      ("index " ++ (← keyName 2) ++ " is out of range for an array of length " ++
        toString length))

/-! ## Members -/

/-- Pushes what scripts see for an object that nothing else may hold. -/
def pushNewObject (o : ObjectRef) : Action Unit := do
  pushObject o
  discard [.object o]

/-- Pushes the value of a member; without a target it is a static one. -/
def pushMember (target : Option ObjectRef) (found : FoundMember) : Host Unit := do
  match found with
  | .method _ f _ => push (.function f)
  | .field f | .property f =>
    match f.get with
    | none => throwCause (.invalidTarget ("'" ++ f.name ++ "' has no getter"))
    | some get => pushHost (← get.run target)
  | .event e => pushNewObject (← newObject eventClass (.event target e))
  | .nested (some cls) => pushType cls
  | .nested none => push .nil

/-- Assigns the third slot to a member. -/
def assignMember (target : Option ObjectRef) (cls : Class) (name : String)
    (found : FoundMember) : Host Unit := do
  let place := "'" ++ cls.name ++ "." ++ name ++ "'"
  match found with
  | .field f | .property f =>
    match f.set with
    | none => throwCause (.invalidAssignment (place ++ " is read-only"))
    | some set =>
      let v ← convertSlot 3 f.type
      set.run target v
  | _ => throwCause (.invalidAssignment (place ++ " is not a field or property"))

/-! ## Instance proxies -/

/-- Pushes an element of an array, if the object is one and the key a number. -/
def pushElement (o : HostObject) : Host Bool := do
  match o.items?, ← valueAt 2 with
  | some items, .number _ =>
    let i ← arrayPosition items.size
    pushHost (items.getD i .null)
    return true
  | _, _ => return false

/-- Pushes an indexed item, if a class of the object has an indexer that can be read. -/
def pushIndexed (ref : ObjectRef) (o : HostObject) : Host Bool := do
  match (← indexerClass? o.cls).bind (·.indexer) with
  | some indexer =>
    if indexer.get then
      let key ← convertSlot 2 indexer.key
      let v ← indexerGet ref key
      discard key.refs
      pushHost v
      return true
    else return false
  | none => return false

/-- The member that a text in the second slot names. -/
def namedMember? (cls : Class) (binding : Binding) : Action (Option (String × FoundMember)) := do
  match ← valueAt 2 with
  | .text name => return (← member? cls binding name).map (name, ·)
  | _ => return none

def objectIndex : Host Nat := do
  let (ref, o) ← selfObject
  if let some (_, found) ← namedMember? o.cls .onObject then
    pushMember (some ref) found
  else if ← pushElement o then pure ()
  else if ← pushIndexed ref o then pure ()
  else memberNotFound o.cls (← keyName 2)
  return 1

/-- Assigns the third slot to a named member of an object, if a text in the second slot names
one. -/
def assignNamed (ref : ObjectRef) (cls : Class) : Host Bool := do
  match ← valueAt 2 with
  | .text name =>
    match (← member? cls .onObject name).filter (!·.isStatic) with
    | some found =>
      assignMember (some ref) cls name found
      return true
    | none =>
      if (← member? cls .static name).isSome then
        throwCause (.staticFromInstance cls.name name)
      else return false
  | _ => return false

/-- Assigns the third slot to an element of an array, if the object is one and the key a
number. -/
def assignElement (ref : ObjectRef) (o : HostObject) : Host Bool := do
  match o.data, ← valueAt 2 with
  | .array element items, .number _ =>
    let i ← arrayPosition items.size
    let v ← convertSlot 3 element
    setObjectData ref (.array element (items.setIfInBounds i v))
    discard (items.getD i .null).refs
    return true
  | _, _ => return false

/-- Assigns the third slot to an indexed item, if a class of the object has an indexer. -/
def assignIndexed (ref : ObjectRef) (o : HostObject) : Host Bool := do
  match ← indexerClass? o.cls with
  | none => return false
  | some owner =>
    match owner.indexer with
    | none => return false
    | some indexer =>
      if !indexer.set then
        throwCause (.invalidAssignment ("indexer of '" ++ owner.name ++ "' is read-only"))
      let key ← convertSlot 2 indexer.key
      match ← attempt (convertSlot 3 indexer.value) with
      | .ok v =>
        indexerSet ref key v
        return true
      | .error e =>
        discard key.refs
        throw e

def objectAssign : Host Nat := do
  let (ref, o) ← selfObject
  if ← assignNamed ref o.cls then pure ()
  else if ← assignElement ref o then pure ()
  else if ← assignIndexed ref o then pure ()
  else memberNotFound o.cls (← keyName 2)
  return 0

def proxyText : Host Nat := do
  match ← objectBehind? (← valueAt 1) with
  | some ref =>
    push (.text (((← readObject? ref).map (·.text)).getD ""))
  | none => push (.text "<collected native object>")
  return 1

/-- The finalizer of proxies. -/
def proxyCollected : Action Nat := do
  let w ← get
  match w.proxyId? (← valueAt 1), w.session? with
  | some id, some _ => forget id
  | _, _ => pure ()
  return 0

/-! ## Type proxies -/

/-- The key in the second slot as the length of a new array. -/
def arrayLength (s : Session) (n : Number) : Host Nat := do
  let limit : Int := min s.options.maxArrayLength IntegerKind.i32.hi.toNat
  match n.toInt?.filter fun i => 0 ≤ i && i ≤ limit with
  | some i => return i.toNat
  | none => throwCause (.invalidTarget ("invalid array length " ++ (← keyName 2)))

def typeIndex : Host Nat := do
  let cls ← selfType
  match ← valueAt 2 with
  | .number n =>
    let length ← arrayLength (← readSession) n
    let element := HostType.parse cls.name
    pushNewObject (← newArray element (Array.replicate length element.defaultValue))
    return 1
  | _ =>
    let name ← keyName 2
    match ← member? cls .static name with
    | some found =>
      pushMember none found
      return 1
    | none => memberNotFound cls name

def typeAssign : Host Nat := do
  let cls ← selfType
  let name ← keyName 2
  match ← member? cls .static name with
  | some found =>
    assignMember none cls name found
    return 0
  | none => memberNotFound cls name

/-- Runs a constructor, or makes a delegate of a function. -/
def typeCall (E : Engine) : Script Nat := do
  if (← get).session?.isNone then raiseCause noSession
  let cls ← asScript selfType
  match ← constructor? cls with
  | some d =>
    onStack (·.remove 1)
    dispatch E d
  | none =>
    match cls.kind, ← valueAt 2 with
    | .delegate, .function f =>
      match ← delegateFor cls (← toHandle (.function f)) with
      | .ok o =>
        pushNewObject o
        return 1
      | .error cause => raiseCause cause
    | _, _ => raiseCause (.invalidTarget ("'" ++ cls.name ++ "' has no constructors"))

/-! ## Delegate proxies and errors -/

def delegateCall (E : Engine) : Script Nat := do
  if (← get).session?.isNone then raiseCause noSession
  let (_, o) ← asScript selfObject
  match ← member? o.cls .onObject "Invoke" with
  | some (.method d _ _) => dispatch E d
  | _ => raiseCause (.invalidTarget ("'" ++ o.cls.name ++ "' is not callable"))

def errorText : Action Nat := do
  let w ← get
  match w.machine.value 1 with
  | .userdata u =>
    match w.userdata.get? u.index with
    | some ⟨.error e place, _, _, _⟩ => push (.text (place ++ e.text))
    | _ => push (.text "native error")
  | _ => push (.text "native error")
  return 1

end ScriptBridge
