import ScriptBridge.Bridge.Fault
import ScriptBridge.Vm.Reference

/-!
# Objects and their proxies

An exposed object has one proxy in the machine: a userdata with the object's id, which the table
of proxies holds weakly. When the proxy dies its finalizer takes the id back. An object that is
pushed while that is still pending gets a fresh id and a fresh proxy.
-/

namespace ScriptBridge

/-! ## Showing objects -/

/-- How an object shows itself. -/
def HostObject.display (o : HostObject) (eventName : Option String := none) : String :=
  match o.cls.display with
  | some (.labelled label) => label ++ "<" ++ o.cls.name ++ ">"
  | some .event =>
    match eventName with
    | some name => "event " ++ name
    | none => eventClass.name
  | none =>
    match o.data with
    | .typeOf cls => "ProxyType(" ++ cls.name ++ ")"
    | _ => o.cls.name

/-- The event a subscription object is about. -/
def HostObject.event? (o : HostObject) : Option Event :=
  match o.data with
  | .event _ e => some e
  | _ => none

/-- The text of an object. -/
def HostObject.text (o : HostObject) : String := o.display (o.event?.map (·.name))

def HostObject.typeTarget? (o : HostObject) : Option Class :=
  match o.data with
  | .typeOf cls => some cls
  | _ => none

def HostObject.items? (o : HostObject) : Option (Array HostValue) :=
  match o.data with
  | .array _ items => some items
  | _ => none

def HostObject.bag? (o : HostObject) : Option Bag :=
  match o.data with
  | .bag b => some b
  | _ => none

/-- The registry name of the metatable for proxies of an object. -/
def HostObject.proxyTableName (o : HostObject) : String :=
  match o.data with
  | .typeOf _ => typeTableName
  | .delegate _ => delegateTableName
  | _ => if o.cls.kind == .delegate then delegateTableName else objectTableName

/-! ## Exposing -/

/-- The id of an object in the session, a fresh one if it has none. -/
def expose (o : ObjectRef) : Action Nat := do
  let (id, registry) := (← readSession).registry.expose ObjectRef.index o
  modifySession fun s => { s with registry }
  return id

/-- Takes an id back; gives the object it had. -/
def revoke (id : Nat) : Action (Option ObjectRef) := do
  let (o, registry) := (← readSession).registry.revoke ObjectRef.index id
  modifySession fun s => { s with registry }
  discard (o.map Ref.object).toList
  return o

def setMaterialized (id : Nat) (present : Bool) : Action Unit := modifySession fun s =>
  let others := s.materialized.filter (· != id)
  { s with materialized := if present then id :: others else others }

/-- The id under which a new proxy of an object is made. An id that had a proxy before is taken
back first. -/
def freshId (o : ObjectRef) (id : Nat) : Action Nat := do
  if (← readSession).materialized.contains id then
    setMaterialized id false
    let _ ← revoke id
    expose o
  else return id

/-- The proxy of an object that is not blacklisted. -/
def proxyOf (ref : ObjectRef) (o : HostObject) : Action Value := do
  let id ← expose ref
  let s ← readSession
  match ← rawGetInt s.objects id with
  | .userdata u => return .userdata u
  | _ =>
    let id ← freshId ref id
    let u ← newUserdata (.proxy id) (← registryTable? o.proxyTableName)
    rawSetInt s.objects id (.userdata u)
    setMaterialized id true
    return .userdata u

/-- The value scripts see for an object: its proxy, or its text if its namespace is
blacklisted. -/
def objectValue (ref : ObjectRef) : Action Value := do
  match ← readObject? ref with
  | none => return .nil
  | some o =>
    if (← readSession).options.isBlacklisted o.cls.namespaceName then return .text o.text
    else proxyOf ref o

/-- The one type object of a class name in the session. -/
def typeObject (cls : Class) : Action ObjectRef := do
  match (← readSession).typeObjects.get? cls.name with
  | some o => return o
  | none =>
    let o ← newObject typeClass (.typeOf cls)
    modifySession fun s => { s with typeObjects := s.typeObjects.insert cls.name o }
    return o

def typeValue (cls : Class) : Action Value := do objectValue (← typeObject cls)

/-- Forgets the proxy of an id: clears its place if no proxy lives there and takes the id back. -/
def forget (id : Nat) : Action Unit := do
  setMaterialized id false
  let proxies := (← readSession).objects
  if (← rawGetInt proxies id).isNil then rawSetInt proxies id .nil
  let _ ← revoke id

/-! ## From proxies to objects -/

/-- The id a proxy carries. -/
def World.proxyId? (w : World) : Value → Option Nat
  | .userdata u =>
    match w.userdata.get? u.index with
    | some ⟨.proxy id, _, _, _⟩ => some id
    | _ => none
  | _ => none

/-- The object behind a value: a proxy, or a table whose `__index` is one. -/
def World.objectBehind? (w : World) (v : Value) : Option ObjectRef := do
  let proxy :=
    match v with
    | .table _ => w.metafieldOf v "__index"
    | _ => v
  let id ← w.proxyId? proxy
  let s ← w.machine.session
  s.registry.resolve? id

def objectBehind? (v : Value) : Action (Option ObjectRef) := do return (← get).objectBehind? v

/-! ## Handles -/

/-- A handle on a value: a copy is pushed and taken from the stack into the registry table, which
keeps it for the handle. -/
def toHandle (v : Value) : Action HandleRef := do
  push v
  let r ← createRef (← popValue)
  newHandle ⟨(← readSession).id, r⟩

/-- The value of a handle; handles of other sessions give nil. -/
def handleValue (h : HandleRef) : Action Value := do
  match (← get).handles.get? h.index with
  | some cell => if cell.session == (← readSession).id then readRef cell.reference else return .nil
  | none => return .nil

/-- Releases the references whose handles are gone; gives how many there were. -/
def collectReleased : Action Nat := do
  settle
  let released := (← readSession).releases
  modifySession fun s => { s with releases := [] }
  released.forM releaseRef
  settle
  return released.length

/-! ## From host values to values -/

/-- The value scripts see for a host value. -/
def HostValue.toValue : HostValue → Action Value
  | null => return .nil
  | bool b => return .boolean b
  | int _ n => return .number (Number.ofInt n)
  | f32 n | f64 n => return .number n
  | char c => return .number (Number.ofNat c.toNat)
  | text s => return .text s
  | object o => objectValue o
  | handle _ h => handleValue h

def pushHost (v : HostValue) : Action Unit := do push (← v.toValue)

def pushObject (o : ObjectRef) : Action Unit := do push (← objectValue o)

/-- Pushes the proxy of the type object of a class. -/
def pushType (cls : Class) : Action Unit := do push (← typeValue cls)

def pushHandle (h : HandleRef) : Action Unit := do push (← handleValue h)

end ScriptBridge
