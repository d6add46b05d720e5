import ScriptBridge.Bridge.Adapter

/-!
# Where members keep their values

Fields, properties, indexers and events read and write the bag of their target or a cell of
static storage. What a write replaces is let go of.
-/

namespace ScriptBridge

/-- Throws the named exception of a name. -/
def throwNamed {α : Type} (name : String) : Host α := do
  throw (.exception (← namedException name))

/-! ## Bags and cells -/

def readBag? (target : Option ObjectRef) : Action (Option Bag) := do
  match target with
  | some o => return (← readObject? o).bind (·.bag?)
  | none => return none

/-- The items of a target that is an array. -/
def readItems? (target : Option ObjectRef) : Action (Option (Array HostValue)) := do
  match target with
  | some o => return (← readObject? o).bind (·.items?)
  | none => return none

def setObjectData (o : ObjectRef) (data : ObjectData) : Action Unit := modify fun w =>
  { w with objects := w.objects.modify o.index ({ · with data }) }

def setBag (target : Option ObjectRef) (b : Bag) : Action Unit := do
  match target with
  | some o => setObjectData o (.bag b)
  | none => return ()

/-- Writes a slot of a bag. -/
def setSlot (target : Option ObjectRef) (b : Bag) (name : String) (v : HostValue) :
    Action Unit := do
  setBag target { b with slots := b.slots.insert name v }
  discard ((b.slots.get? name).map HostValue.refs |>.getD [])

def readCell (c : CellRef) : Action Cell := do
  return ((← get).cells.get? c.index).getD (.value .null)

def setCell (c : CellRef) (cell : Cell) : Action Unit := do
  let old ← readCell c
  modify fun w => { w with cells := w.cells.modify c.index fun _ => cell }
  discard old.refs

/-! ## Fields and properties -/

def noInstance (owner : String) : Cause :=
  .invalidTarget ("field access requires a '" ++ owner ++ "' instance")

def Getter.run (g : Getter) (target : Option ObjectRef) : Host HostValue := do
  match g with
  | field name owner =>
    match ← readBag? target with
    | some b => return (b.slots.get? name).getD .null
    | none => throwCause (noInstance owner)
  | slot name =>
    match ← readBag? target with
    | some b => return (b.slots.get? name).getD .null
    | none => return .null
  | cell c =>
    match ← readCell c with
    | .value v => return v
    | .handlers _ => return .null
  | throws name => throwNamed name
  | arrayLength =>
    match ← readItems? target with
    | some items => return .int .i32 (IntegerKind.i32.wrap items.size)
    | none => throwCause (.invalidTarget "Length requires an array")

def Setter.run (s : Setter) (target : Option ObjectRef) (v : HostValue) : Host Unit := do
  match s with
  | field name owner =>
    match ← readBag? target with
    | some b => setSlot target b name v
    | none =>
      discard v.refs
      throwCause (noInstance owner)
  | slot name =>
    match ← readBag? target with
    | some b => setSlot target b name v
    | none => discard v.refs
  | cell c => setCell c (.value v)
  | throws name =>
    discard v.refs
    throwNamed name

/-! ## Indexers -/

/-- Equality of host values, handles by what they stand for. -/
def World.same (w : World) (a b : HostValue) : Bool :=
  HostValue.same (fun h => w.handles.get? h.index) a b

/-- The item under a key; null when there is none. -/
def indexerGet (o : ObjectRef) (key : HostValue) : Host HostValue := do
  if key == .text "throw" then throwNamed "get item"
  let w ← get
  match ← readBag? (some o) with
  | some b => return ((b.items.find? fun (k, _) => w.same k key).map (·.2)).getD .null
  | none => return .null

/-- Replaces the first item under a key, or appends one. -/
def putItem (same : HostValue → HostValue → Bool) (key v : HostValue) :
    List (HostValue × HostValue) → List (HostValue × HostValue) × List HostValue
  | [] => ([(key, v)], [])
  | (k, old) :: rest =>
    if same k key then ((k, v) :: rest, [old, key])
    else
      let (rest, dropped) := putItem same key v rest
      ((k, old) :: rest, dropped)

def indexerSet (o : ObjectRef) (key v : HostValue) : Host Unit := do
  if key == .text "throw" then
    discard v.refs
    throwNamed "set item"
  let w ← get
  match ← readBag? (some o) with
  | some b =>
    let (items, dropped) := putItem w.same key v b.items
    setBag (some o) { b with items }
    discard (dropped.flatMap HostValue.refs)
  | none => discard (v.refs ++ key.refs)

/-! ## Events -/

/-- Changes the handler list behind an event hook. -/
def EventHook.change (hook : EventHook) (name : String) (target : Option ObjectRef)
    (change : List ObjectRef → List ObjectRef) : Host Unit := do
  match hook with
  | throws exception => throwNamed exception
  | handlers event shared =>
    match target with
    | some _ =>
      match ← readBag? target with
      | some b =>
        let hs := (b.handlers.get? event).getD []
        setBag target { b with handlers := b.handlers.insert event (change hs) }
      | none => throwNamed ("no target for " ++ name)
    | none =>
      match ← readCell shared with
      | .handlers hs => setCell shared (.handlers (change hs))
      | .value _ => setCell shared (.handlers (change []))

/-- Adds a handler to an event. -/
def Event.subscribe (e : Event) (target : Option ObjectRef) (handler : ObjectRef) : Host Unit :=
  e.add.change e.name target (· ++ [handler])

/-- Removes a handler from an event. -/
def Event.unsubscribe (e : Event) (target : Option ObjectRef) (handler : ObjectRef) :
    Host Unit := do
  e.remove.change e.name target (·.filter (· != handler))
  discard [.object handler]

/-! ## Subscriptions of scripts -/

/-- Remembers a subscription made by a script. -/
def trackEvent (subscription handler : ObjectRef) : Action Unit := modifySession fun s =>
  { s with events := s.events ++ [(subscription, handler)] }

/-- Forgets the subscriptions of a handler. -/
def untrackEvent (handler : ObjectRef) : Action Unit := do
  let gone := (← readSession).events.filter (·.2 == handler)
  modifySession fun s => { s with events := s.events.filter (·.2 != handler) }
  discard (gone.flatMap fun (b, h) => [.object b, .object h])

end ScriptBridge
