import ScriptBridge.Bridge.Signature

/-!
# Sessions

A session is a machine together with what the host remembers about it. Opening one puts the
metatables of proxies and the table of proxies into the registry table, and the helper functions
among the globals. Several sessions can be open; one of them is running.
-/

namespace ScriptBridge

/-! ## Machines -/

/-- A new machine with an empty stack. The index of its registry table is its id. -/
def newMachine (limits : Limits) : Action Machine := do
  let registry ← newTable {}
  let globals ← newTable {}
  return { id := registry.index, registry, globals, limits }

/-- A world with a single machine, in which nothing happened yet. -/
def World.start (limits : Limits) : World :=
  let (machine, w) := newMachine limits default
  { w with machine }

/-- Puts another machine in place of the running one, which is set aside. -/
def park (m : Machine) : Action Unit := modify fun w =>
  { w with machine := m, parked := w.machine :: w.parked }

/-- Brings the machine of an id back and sets the running one aside. -/
def resume (id : Nat) : Action Unit := modify fun w =>
  match w.parked.find? (·.id == id) with
  | some m => { w with machine := m, parked := w.machine :: w.parked.filter (·.id != id) }
  | none => w

/-- Everything a machine holds. -/
def Machine.allRefs (m : Machine) : List Ref := m.stack.toList.flatMap Value.refs ++ m.refs

/-- Brings the machine of an id back and lets go of the running one with all it held. -/
def leaveMachine (id : Nat) : Action Unit := do
  let gone ← readMachine
  resume id
  modify fun w => { w with parked := w.parked.filter (·.id != gone.id) }
  release gone.allRefs

/-! ## What a session puts into its machine -/

/-- Writes handler functions under their names, each function with a name of its own. -/
def writeHandlers (t : TableRef) : List (String × String × Handler) → Action Unit
  | [] => return ()
  | (field, name, h) :: rest => do
    rawSetField t field (.function (← newFunction ⟨.named name, .handler h⟩))
    writeHandlers t rest

def objectHandlers : List (String × String × Handler) :=
  [("__index", "object.__index", .objectIndex),
    ("__newindex", "object.__newindex", .objectAssign),
    ("__tostring", "object.__tostring", .proxyText),
    ("__gc", "object.__gc", .proxyCollected)]

def typeHandlers : List (String × String × Handler) :=
  [("__index", "class.__index", .typeIndex),
    ("__newindex", "class.__newindex", .typeAssign),
    ("__call", "class.__call", .typeCall),
    ("__tostring", "class.__tostring", .proxyText),
    ("__gc", "class.__gc", .proxyCollected)]

def delegateHandlers : List (String × String × Handler) :=
  [("__index", "function.__index", .objectIndex),
    ("__call", "function.__call", .delegateCall),
    ("__tostring", "function.__tostring", .proxyText),
    ("__gc", "function.__gc", .proxyCollected)]

def errorHandlers : List (String × String × Handler) :=
  [("__tostring", "error.__tostring", .errorText)]

def globalHandlers : List (String × String × Handler) :=
  [("import_type", "import_type", .importType),
    ("get_method_bysig", "get_method_bysig", .methodBySignature),
    ("get_constructor_bysig", "get_constructor_bysig", .constructorBySignature)]

/-- The metatables by their names in the registry table. -/
def metatables : List (String × List (String × String × Handler)) :=
  [(objectTableName, objectHandlers), (typeTableName, typeHandlers),
    (delegateTableName, delegateHandlers), (errorTableName, errorHandlers)]

/-- A new table that holds its values weakly. -/
def newWeakTable : Action TableRef := do
  let mode ← newTable {}
  rawSetField mode "__mode" (.text "v")
  let t ← newTable {}
  setTableMetatable t (some mode)
  return t

def writeMetatables (registry : TableRef) :
    List (String × List (String × String × Handler)) → Action Unit
  | [] => return ()
  | (name, handlers) :: rest => do
    let t ← newTable {}
    writeHandlers t handlers
    rawSetField registry name (.table t)
    writeMetatables registry rest

/-! ## Opening and closing -/

/-- Attaches a new session to the running machine. -/
def install (options : Options) (adapters : AdapterPolicy) : Action Unit := do
  let m ← readMachine
  let objects ← newWeakTable
  rawSetField m.registry proxiesName (.table objects)
  writeMetatables m.registry metatables
  if options.registerGlobals then writeHandlers m.globals globalHandlers
  modifyMachine fun m =>
    { m with appData := .session, session := some { id := m.id, options, adapters, objects } }

/-- Opens a session on a new machine, which becomes the running one. -/
def openSession (options : Options) (adapters : AdapterPolicy) : Action Unit := do
  park (← newMachine { maxCallDepth := options.maxCallDepth })
  install options adapters
  let id := (← readMachine).id
  modify fun w => { w with sessions := w.sessions ++ [id] }

/-- Removes the handlers of a subscription that is still pending; what that throws is dropped. -/
def removeSubscription (subscription handler : ObjectRef) : Action Unit := do
  match ← readObject? subscription with
  | some ⟨_, .event target event⟩ =>
    let _ ← attempt (event.unsubscribe target handler)
  | _ => return ()

/-- Removes the handlers of pending subscriptions one after the other, and lets go of each handler
and its subscription before the next is looked at. -/
def removeSubscriptions : List (ObjectRef × ObjectRef) → Action Unit
  | [] => return ()
  | (subscription, handler) :: rest => do
    removeSubscription subscription handler
    unhold [.object handler, .object subscription]
    settle
    removeSubscriptions rest

/-- Closes the running session: kept values and dispatchers of the host go first, then pending
subscriptions are removed, and last the machine goes. A machine without session takes its
place. -/
def closeSession : Action Unit := do
  let w ← get
  set { w with kept := [], wrappers := [] }
  release (w.kept.flatMap (·.2.refs) ++ w.wrappers.map (fun (_, d) => .dispatcher d))
  let events := (← readSession).events
  hold (events.flatMap fun (s, h) => [.object s, .object h])
  modifySession ({ · with events := [] })
  removeSubscriptions events
  let gone := (← readMachine).id
  let m ← newMachine {}
  modify fun w =>
    { w with
      parked := m :: w.parked
      sessions := w.sessions.map fun id => if id == gone then m.id else id }
  leaveMachine m.id

end ScriptBridge
